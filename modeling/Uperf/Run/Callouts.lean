import Uperf.Run.Lockstep

/-!
# Callouts of a group

When all strands of a process belong to one group, a timed transaction of the
group has one callout: the leader registers it when it begins, and no strand is
signalled before it fires.  If strands leave a timed transaction only when they
are signalled, none gets ahead of a callout that is still to come
(`RunShm.Paced`).
-/

namespace Uperf

open Lib

/-- The strand has begun its transaction and not finished it. -/
def StrandRun.Begun (s : StrandRun) : Prop := s.phase = .executing ∨ s.phase = .failed

/-- The transaction that the strand is at has a duration. -/
def StrandRun.Timed (s : StrandRun) : Prop := ∃ txn, s.current = some txn ∧ txn.duration > 0

/-- All strands run `worklist`, `lead` is their leader, and while its callout
is still to come no strand is ahead of it. -/
structure RunShm.Paced (lead : ℕ) (worklist : Group) (shm : RunShm) : Prop where
  lead_lt : lead < shm.noStrands
  same : ∀ s < shm.noStrands, (shm.strands s).worklist = worklist
  leader : ∀ s < shm.noStrands, (shm.strands s).leader = true → s = lead
  registered : shm.callouts worklist.groupid.toNat ≠ 0 →
    (shm.strands lead).Begun ∧ (shm.strands lead).Timed ∧
      ∀ s < shm.noStrands, (shm.strands s).txn ≤ (shm.strands lead).txn ∧
        ((shm.strands s).txn = (shm.strands lead).txn → (shm.strands s).signalled = false)
  before : ¬ (shm.strands lead).Begun → (shm.strands lead).Timed →
    ∀ s < shm.noStrands, (shm.strands s).txn ≤ (shm.strands lead).txn
  signalled : ∀ s < shm.noStrands, (shm.strands s).signalled = true →
    (shm.strands s).txn < (shm.strands lead).txn ∨
      ((shm.strands s).txn = (shm.strands lead).txn ∧ (shm.strands lead).Begun ∧
        shm.callouts worklist.groupid.toNat = 0)

section

variable {lead : ℕ} {worklist : Group} {shm shm' : RunShm}

/-- Strands at the same transaction of one group are at a timed one together. -/
theorem RunShm.Paced.timed_of_eq (h : shm.Paced lead worklist) {s t : ℕ}
    (hs : s < shm.noStrands) (ht : t < shm.noStrands)
    (heq : (shm.strands s).txn = (shm.strands t).txn) (htimed : (shm.strands t).Timed) :
    (shm.strands s).Timed := by
  obtain ⟨txn, htxn, hduration⟩ := htimed
  refine ⟨txn, ?_, hduration⟩
  rw [StrandRun.current, h.same s hs, heq, ← h.same t ht]
  exact htxn

/-- When a strand has begun a transaction, every strand of the group has
finished those before it. -/
theorem RunShm.Paced.le_txn (h : shm.Paced lead worklist) (hordered : shm.Ordered) {s t b : ℕ}
    (hs : s < shm.noStrands) (ht : t < shm.noStrands) (hb : b < (shm.strands s).passed) :
    b ≤ (shm.strands t).txn := by
  have hmem := Finset.mem_range.mpr hs
  have hlength : b < (shm.strands t).worklist.tlist.length := by
    calc b < shm.phases.passed s := hb
      _ ≤ shm.phases.arrived s := hordered.inv.passed_le s hmem
      _ ≤ shm.phases.length s := hordered.inv.arrived_le s hmem
      _ = (shm.strands t).worklist.tlist.length := by
        rw [h.same t ht, ← h.same s hs]
        rfl
  have harrived : b < (shm.strands t).arrived :=
    hordered.inv.arrived_of_passed hmem hb t (Finset.mem_range.mpr ht) hlength
  unfold StrandRun.arrived at harrived
  split_ifs at harrived <;> omega

theorem StrandRun.Begun.passed {s : StrandRun} (h : s.Begun) : s.txn < s.passed := by
  rcases h with h | h <;> simp [StrandRun.passed, h]

/-- The pace is a matter of the strands and the callouts. -/
theorem RunShm.Paced.congr (h : shm.Paced lead worklist)
    (hno : shm'.noStrands = shm.noStrands) (hcallouts : shm'.callouts = shm.callouts)
    (hstrands : shm'.strands = shm.strands) : shm'.Paced lead worklist := by
  constructor <;> rw [hno]
  · exact h.lead_lt
  · rw [hstrands]
    exact h.same
  · rw [hstrands]
    exact h.leader
  · rw [hstrands, hcallouts]
    exact h.registered
  · rw [hstrands]
    exact h.before
  · rw [hstrands, hcallouts]
    exact h.signalled

/-! ## Steps of a strand -/

/-- A step that neither begins nor finishes a transaction of the strand. -/
theorem RunShm.Paced.of_set (h : shm.Paced lead worklist) {i : ℕ} {s : StrandRun}
    (hno : shm'.noStrands = shm.noStrands) (hcallouts : shm'.callouts = shm.callouts)
    (hstrands : shm'.strands = Function.update shm.strands i s)
    (hworklist : s.worklist = (shm.strands i).worklist)
    (hleader : s.leader = (shm.strands i).leader) (htxn : s.txn = (shm.strands i).txn)
    (hsignalled : s.signalled = true → (shm.strands i).signalled = true)
    (hbegun : i = lead → (s.Begun ↔ (shm.strands i).Begun)) : shm'.Paced lead worklist := by
  have hworklists : ∀ j, (shm'.strands j).worklist = (shm.strands j).worklist := by
    rw [hstrands]
    exact update_field StrandRun.worklist hworklist
  have hleaders : ∀ j, (shm'.strands j).leader = (shm.strands j).leader := by
    rw [hstrands]
    exact update_field StrandRun.leader hleader
  have htxns : ∀ j, (shm'.strands j).txn = (shm.strands j).txn := by
    rw [hstrands]
    exact update_field StrandRun.txn htxn
  have hsignals : ∀ j, (shm'.strands j).signalled = true → (shm.strands j).signalled = true := by
    rw [hstrands]
    exact (Function.forall_update_iff _ fun j (s : StrandRun) =>
      s.signalled = true → (shm.strands j).signalled = true).mpr ⟨hsignalled, fun _ _ => id⟩
  have hlead : (shm'.strands lead).Begun ↔ (shm.strands lead).Begun := by
    rw [hstrands]
    by_cases hi : i = lead
    · rw [← hi, Function.update_self]
      exact hbegun hi
    · rw [Function.update_of_ne (Ne.symm hi)]
  have htimed : (shm'.strands lead).Timed ↔ (shm.strands lead).Timed := by
    rw [StrandRun.Timed, StrandRun.Timed, StrandRun.current, StrandRun.current, hworklists, htxns]
  constructor
  · rw [hno]
    exact h.lead_lt
  · rw [hno]
    intro j hj
    rw [hworklists, h.same j hj]
  · rw [hno]
    intro j hj
    rw [hleaders]
    exact h.leader j hj
  · rw [hcallouts, hlead, htimed, hno]
    intro hregistered
    obtain ⟨hbegun, htimed, hall⟩ := h.registered hregistered
    refine ⟨hbegun, htimed, fun j hj => ?_⟩
    rw [htxns, htxns]
    refine ⟨(hall j hj).1, fun heq => ?_⟩
    rw [← Bool.not_eq_true]
    intro hsignal
    exact absurd (hsignals j hsignal) (by simp [(hall j hj).2 heq])
  · rw [hlead, htimed, hno]
    intro hnot htimed j hj
    rw [htxns, htxns]
    exact h.before hnot htimed j hj
  · rw [hno]
    intro j hj hsignal
    rw [htxns, htxns, hlead, hcallouts]
    exact h.signalled j hj (hsignals j hsignal)

/-- The leader begins a transaction: no strand is signalled for it yet. -/
theorem RunShm.Paced.of_start (h : shm.Paced lead worklist) (hordered : shm.Ordered)
    (hphase : (shm.strands lead).phase = .passed)
    (hno : shm'.noStrands = shm.noStrands)
    (hstrands : shm'.strands =
      Function.update shm.strands lead { shm.strands lead with phase := .executing })
    (hcallouts : shm'.callouts worklist.groupid.toNat ≠ 0 →
      shm.callouts worklist.groupid.toNat ≠ 0 ∨ (shm.strands lead).Timed) :
    shm'.Paced lead worklist := by
  have hnot : ¬ (shm.strands lead).Begun := by
    rintro (hbegun | hbegun) <;> rw [hphase] at hbegun <;> cases hbegun
  have hpassed : (shm.strands lead).txn < (shm.strands lead).passed := by
    simp [StrandRun.passed, hphase]
  have hquiet : ∀ s < shm.noStrands, (shm.strands s).txn = (shm.strands lead).txn →
      (shm.strands s).signalled = false := by
    intro s hs heq
    rw [← Bool.not_eq_true]
    intro hsignal
    rcases h.signalled s hs hsignal with hlt | ⟨-, hbegun, -⟩
    · omega
    · exact hnot hbegun
  have hfield : ∀ {α : Type} (f : StrandRun → α), (∀ s, f { s with phase := .executing } = f s) →
      ∀ j, f (shm'.strands j) = f (shm.strands j) := by
    intro α f hf j
    rw [hstrands]
    exact update_field f (hf _) j
  have hworklists := hfield StrandRun.worklist fun _ => rfl
  have hleaders := hfield StrandRun.leader fun _ => rfl
  have htxns := hfield StrandRun.txn fun _ => rfl
  have hsignals := hfield StrandRun.signalled fun _ => rfl
  have htimed : (shm'.strands lead).Timed ↔ (shm.strands lead).Timed := by
    rw [StrandRun.Timed, StrandRun.Timed, StrandRun.current, StrandRun.current, hworklists, htxns]
  have hbegun : (shm'.strands lead).Begun := by
    rw [hstrands, Function.update_self]
    exact .inl rfl
  constructor
  · rw [hno]
    exact h.lead_lt
  · rw [hno]
    intro j hj
    rw [hworklists, h.same j hj]
  · rw [hno]
    intro j hj
    rw [hleaders]
    exact h.leader j hj
  · rw [htimed, hno]
    intro hregistered
    have hlead : (shm.strands lead).Timed := by
      rcases hcallouts hregistered with hbefore | hlead
      · exact absurd (h.registered hbefore).1 hnot
      · exact hlead
    refine ⟨hbegun, hlead, fun j hj => ?_⟩
    rw [htxns, htxns, hsignals]
    exact ⟨h.before hnot hlead j hj, hquiet j hj⟩
  · exact fun hnot' => absurd hbegun hnot'
  · rw [hno]
    intro j hj hsignal
    rw [hsignals] at hsignal
    rw [htxns, htxns]
    have hle := h.le_txn hordered h.lead_lt hj hpassed
    rcases h.signalled j hj hsignal with hlt | ⟨-, hbegun', -⟩
    · omega
    · exact absurd hbegun' hnot

/-- Where a strand is signalled in the transaction of the leader, the callout of the leader has
fired. -/
theorem RunShm.Paced.fired (h : shm.Paced lead worklist) {i : ℕ} (hi : i < shm.noStrands)
    (hsignal : (shm.strands i).signalled = true)
    (heq : (shm.strands i).txn = (shm.strands lead).txn) :
    (shm.strands lead).Begun ∧ shm.callouts worklist.groupid.toNat = 0 := by
  rcases h.signalled i hi hsignal with hlt | ⟨-, hlead, hzero⟩
  · omega
  · exact ⟨hlead, hzero⟩

/-- A timed transaction is finished only after its callout has fired. -/
theorem RunShm.Paced.callouts_eq_zero (h : shm.Paced lead worklist) (hordered : shm.Ordered)
    {i : ℕ} (hi : i < shm.noStrands)
    (hsignalled : (shm.strands i).Timed → (shm.strands i).signalled = true) :
    shm.callouts worklist.groupid.toNat = 0 := by
  by_contra hregistered
  obtain ⟨hlead, htimed, hall⟩ := h.registered hregistered
  have heq := le_antisymm (hall i hi).1 (h.le_txn hordered h.lead_lt hi hlead.passed)
  have hsignal := hsignalled (h.timed_of_eq hi h.lead_lt heq htimed)
  exact hregistered (h.fired hi hsignal heq).2

/-- While a strand executes a transaction, no other one has passed the barrier of the next. -/
theorem RunShm.Ordered.txn_le_of_executing (hordered : shm.Ordered) {i j : ℕ}
    (hi : i < shm.noStrands) (hj : j < shm.noStrands) (hphase : (shm.strands i).phase = .executing)
    (hlength : (shm.strands i).txn + 1 < (shm.strands i).worklist.tlist.length) :
    (shm.strands j).txn ≤ (shm.strands i).txn + 1 := by
  by_contra hahead
  have hpassed : (shm.strands i).txn + 1 < (shm.strands j).passed := by
    unfold StrandRun.passed
    split_ifs <;> omega
  have harrived : (shm.strands i).txn + 1 < (shm.strands i).arrived :=
    hordered.inv.arrived_of_passed (Finset.mem_range.mpr hj) hpassed i (Finset.mem_range.mpr hi)
      hlength
  simp [StrandRun.arrived, hphase] at harrived

/-- A strand finishes a transaction, after a signal if it is a timed one. -/
theorem RunShm.Paced.of_finish (h : shm.Paced lead worklist) (hordered : shm.Ordered) {i : ℕ}
    (hi : i < shm.noStrands) (hphase : (shm.strands i).phase = .executing)
    (hsignalled : (shm.strands i).Timed → (shm.strands i).signalled = true) :
    (shm.setStrand i
      { shm.strands i with
        txn := (shm.strands i).txn + 1, phase := .arriving, signalled := false }).Paced
      lead worklist := by
  have hclear := h.callouts_eq_zero hordered hi hsignalled
  have hself : ∀ s : StrandRun, Function.update shm.strands i s i = s :=
    fun s => Function.update_self _ _ _
  have hother : ∀ (s : StrandRun) {j : ℕ}, j ≠ i →
      Function.update shm.strands i s j = shm.strands j :=
    fun s _ hj => Function.update_of_ne hj _ _
  constructor
  · exact h.lead_lt
  · intro j hj
    by_cases hji : j = i
    · subst hji
      simp only [RunShm.setStrand, hself]
      exact h.same j hj
    · simp only [RunShm.setStrand, hother _ hji]
      exact h.same j hj
  · intro j hj
    by_cases hji : j = i
    · subst hji
      simp only [RunShm.setStrand, hself]
      exact h.leader j hj
    · simp only [RunShm.setStrand, hother _ hji]
      exact h.leader j hj
  · exact fun hregistered => absurd hclear hregistered
  · intro hnot htimed j hj
    by_cases hlead : lead = i
    · -- the leader is about to arrive, so no strand has passed the next barrier
      subst hlead
      simp only [RunShm.setStrand, hself] at htimed ⊢
      obtain ⟨txn, htxn, -⟩ := htimed
      have hlength : (shm.strands lead).txn + 1 < (shm.strands lead).worklist.tlist.length :=
        (List.getElem?_eq_some_iff.mp htxn).1
      by_cases hji : j = lead
      · rw [hji, hself]
      · rw [hother _ hji]
        exact hordered.txn_le_of_executing hi hj hphase hlength
    · simp only [RunShm.setStrand, hother _ hlead] at hnot htimed ⊢
      by_cases hji : j = i
      · subst hji
        rw [hself]
        have hle := h.before hnot htimed j hj
        refine Nat.succ_le_of_lt (lt_of_le_of_ne hle fun heq => ?_)
        have hsignal := hsignalled (h.timed_of_eq hj h.lead_lt heq htimed)
        exact hnot (h.fired hj hsignal heq).1
      · rw [hother _ hji]
        exact h.before hnot htimed j hj
  · intro j hj hsignal
    by_cases hji : j = i
    · subst hji
      simp only [RunShm.setStrand, hself] at hsignal
      cases hsignal
    · simp only [RunShm.setStrand, hother _ hji] at hsignal ⊢
      by_cases hlead : lead = i
      · subst hlead
        rw [hself]
        refine .inl ?_
        rcases h.signalled j hj hsignal with hlt | ⟨heq, -, -⟩
        · exact hlt.trans (Nat.lt_succ_self _)
        · rw [heq]
          exact Nat.lt_succ_self _
      · rw [hother _ hlead]
        exact h.signalled j hj hsignal

/-- Steps of the strands keep the pace when a timed transaction is finished
only after a signal. -/
theorem RunShm.Paced.moves (h : shm.Paced lead worklist) (hordered : shm.Ordered) {i : ℕ}
    {act : StrandAct} (hi : i < shm.noStrands) (hmoves : StrandMoves shm i act shm')
    (hsignalled : (∃ result, act = .finish result) → (shm.strands i).Timed →
      (shm.strands i).signalled = true) : shm'.Paced lead worklist := by
  cases hmoves with
  | arrive htxn hphase =>
      refine h.of_set rfl rfl rfl rfl rfl rfl id fun _ => ?_
      simp [StrandRun.Begun, hphase]
  | pass htxn hphase hopen =>
      refine h.of_set rfl rfl rfl rfl rfl rfl id fun _ => ?_
      simp [StrandRun.Begun, hphase]
  | quit hphase herror =>
      refine h.of_set rfl rfl rfl rfl rfl rfl id fun _ => ?_
      simp [StrandRun.Begun, hphase]
  | startTimed htxn hphase htimed hleader =>
      obtain rfl := h.leader i hi hleader
      refine h.of_start hordered hphase ?_ ?_ fun _ => .inr ⟨_, htxn, htimed⟩
      · simp [RunShm.setStrand, shmCalloutRegister, apply_ite RunShm.noStrands]
      · simp [RunShm.setStrand]
  | start htxn hphase hno =>
      by_cases hlead : i = lead
      · subst hlead
        exact h.of_start hordered hphase rfl rfl .inl
      · exact h.of_set rfl rfl rfl rfl rfl rfl id fun heq => absurd heq hlead
  | finish htxn hphase hresult =>
      exact h.of_finish hordered hi hphase (hsignalled ⟨_, rfl⟩)
  | fail hphase =>
      refine h.of_set rfl rfl rfl rfl rfl rfl (by simp) fun _ => ?_
      simp [StrandRun.Begun, hphase]
  | exit hdone hexited => exact h.of_set rfl rfl rfl rfl rfl rfl id fun _ => Iff.rfl

/-! ## Firing -/

/-- Signals change nothing of the strands but their flags, and only in the
groups that are signalled. -/
theorem signalAllStrands_signalled {g : ℕ} {i : ℕ}
    (hother : (shm.strands i).worklist.groupid.toNat ≠ g) :
    (signalAllStrands shm (some g)).strands i = shm.strands i := by
  simp only [signalAllStrands]
  split_ifs with hwaiting hgroup
  · rfl
  · exact absurd (by simpa using hgroup) (Ne.symm hother)
  · rfl

/-- A callout fires. -/
theorem RunShm.Paced.fire (h : shm.Paced lead worklist) {g : ℕ} (hdue : 0 < shm.callouts g) :
    ({ signalAllStrands shm (some g) with callouts := Function.update shm.callouts g 0 } :
      RunShm).Paced lead worklist := by
  have hstrands := signalAllStrands_strands shm (some g)
  have hworklist := signalled_field StrandRun.worklist (fun _ _ => rfl) hstrands
  have hleader := signalled_field StrandRun.leader (fun _ _ => rfl) hstrands
  have htxn := signalled_field StrandRun.txn (fun _ _ => rfl) hstrands
  have hbegun := signalled_field StrandRun.Begun (fun _ _ => rfl) hstrands
  have htimed := signalled_field StrandRun.Timed (fun _ _ => rfl) hstrands
  constructor
  · exact h.lead_lt
  · intro i hi
    rw [hworklist]
    exact h.same i hi
  · intro i hi
    rw [hleader]
    exact h.leader i hi
  · intro hregistered
    dsimp only at hregistered
    by_cases hg : worklist.groupid.toNat = g
    · rw [hg, Function.update_self] at hregistered
      exact absurd rfl hregistered
    · -- the callout of another group signals no strand
      rw [Function.update_of_ne hg] at hregistered
      obtain ⟨hlead, htimed', hall⟩ := h.registered hregistered
      refine ⟨(hbegun lead).mpr hlead, (htimed lead).mpr htimed', fun i hi => ?_⟩
      rw [htxn, htxn, signalAllStrands_signalled (by rwa [h.same i hi])]
      exact hall i hi
  · intro hnot htimed' i hi
    rw [hbegun] at hnot
    rw [htimed] at htimed'
    rw [htxn, htxn]
    exact h.before hnot htimed' i hi
  · intro i hi hsignal
    dsimp only at hsignal ⊢
    rw [htxn, htxn, hbegun]
    by_cases hg : worklist.groupid.toNat = g
    · obtain ⟨hlead, -, hall⟩ := h.registered (by rw [hg]; exact hdue.ne')
      refine (hall i hi).1.lt_or_eq.imp id fun heq => ⟨heq, hlead, ?_⟩
      rw [hg, Function.update_self]
    · rw [signalAllStrands_signalled (by rwa [h.same i hi])] at hsignal
      rw [Function.update_of_ne hg]
      exact h.signalled i hi hsignal

/-- The callouts that are due fire, or an error is flagged. -/
theorem RunShm.Paced.fireCallouts (h : shm.Paced lead worklist) (now : ℕ) (answered : Bool)
    (groups : List ℕ) :
    (fireCallouts now answered groups shm).Paced lead worklist ∨
      0 < (fireCallouts now answered groups shm).globalError := by
  induction groups generalizing shm with
  | nil => exact .inl h
  | cons g rest ih =>
      simp only [Uperf.fireCallouts]
      split_ifs with hdue
      · exact ih (h.fire hdue.1)
      · exact .inr (Nat.succ_pos _)
      · exact ih h

end

end Uperf
