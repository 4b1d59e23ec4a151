import Uperf.Opposite
import Uperf.Parse.Runnable
import Uperf.Parse.Sizes
import Uperf.Strand.Disconnect
import Uperf.Strand.Library

/-!
# The buffer of a strand

A strand allocates one buffer before it executes its group, as large as the largest
`size` of a flowop, and `flowop_rw` passes parts of it to the functions of the
protocols.  A random size is drawn later and is not among these sizes, so a flowop
with a range of sizes may leave the buffer once it has a connection
(`staysInBuffer_iff`).
-/

namespace Uperf

open Lib

/-! ## The size of the buffer -/

/-- `DEFAULT_BUFFER_SIZE`. -/
def defaultBufferSize : UInt32 := 8192

/-- `group_max_dto_size`.  The result is an `int`; the comparison with the unsigned size
takes it for an unsigned number. -/
def groupMaxDtoSize (g : Group) : UInt32 :=
  g.tlist.foldl
    (fun count txn =>
      txn.flist.foldl
        (fun count f => if f.options.size > count then f.options.size else count) count)
    defaultBufferSize

/-- The bytes that `calloc` gives to `strand->buffer`: none for a negative number, which
is too large for it. -/
def bufferSize (g : Group) : ℕ :=
  if groupMaxDtoSize g < 2 ^ 31 then (groupMaxDtoSize g).toNat else 0

/-! ## The calls -/

/-- A call of `read`, `write`, `send` or `recv`: where in the buffer and for how much. -/
structure Transfer where
  offset : ℕ
  length : ℕ
deriving DecidableEq

/-- The call stays inside a buffer. -/
def Transfer.Inside (t : Transfer) (buffer : ℕ) : Prop := t.offset + t.length ≤ buffer

section

variable {ε α : Type}

/-- A program on the outside, beside a record of the calls. -/
def besideCalls (x : StateM ε α) : StateM (ε × List Transfer) α := fun s =>
  ((x.run s.1).1, (x.run s.1).2, s.2)

/-- The same outside with a record of the calls. -/
def StrandEnv.recording (E : StrandEnv ε) : StrandEnv (ε × List Transfer) where
  signalled := besideCalls E.signalled
  errno := besideCalls E.errno
  setErrno value := besideCalls (E.setErrno value)
  rand := besideCalls E.rand
  cursor := besideCalls E.cursor
  connect f := besideCalls (E.connect f)
  accept f := besideCalls (E.accept f)
  disconnect f := besideCalls (E.disconnect f)
  supports := E.supports
  transfer f c offset length := fun s =>
    ((E.transfer f c offset length).run s.1 |>.1, (E.transfer f c offset length).run s.1 |>.2,
      s.2 ++ [{ offset, length }])
  sendfile f c := besideCalls (E.sendfile f c)
  think f := besideCalls (E.think f)

/-- The strand with an empty record of calls. -/
def StrandWorld.recording (w : StrandWorld ε) : StrandWorld (ε × List Transfer) where
  env := (w.env, [])
  conns := w.conns
  iter := w.iter
  log := w.log

/-- The calls of one execution of a data flowop. -/
def rwCalls (E : StrandEnv ε) (j : ℕ) (f : Flowop) (w : StrandWorld ε) : List Transfer :=
  ((flowopRw E.recording j f).runFrom w.recording).2.env.2

end

/-- `flowop_rw` executes flowops of this type. -/
def FlowopType.isData (type : FlowopType) : Prop := flowopGetExecuteFunc type = .flowopRw

/-- A run of the group on some strand, with whatever outside, comes to the flowop at `j` of
a transaction with these connections. -/
def Group.Reaches (g : Group) (j : ℕ) (f : Flowop) (conns : StrandConns) : Prop :=
  ∃ (ε : Type) (E : StrandEnv ε) (C : StrandClock ε) (rounds : ℕ) (env : ε)
    (start : StrandConns), start.Fresh ∧
      ∃ e ∈ ((groupExecute E C rounds g).runFrom { env, conns := start }).2.log,
        e.act = some (.rw j f) ∧ e.before = conns

/-- Every call that a data flowop of the group makes stays inside the buffer, in whatever
state a run comes to the flowop and whatever the outside does then. -/
def Group.StaysInBuffer (g : Group) : Prop :=
  ∀ f ∈ g.flowops, f.type.isData → ∀ j conns, g.Reaches j f conns →
    ∀ (ε : Type) (E : StrandEnv ε) (w : StrandWorld ε), w.conns = conns →
      ∀ call ∈ rwCalls E j f w, call.Inside (bufferSize g)

/-- The flowop has a random size and gets as far as a call with it: on transmit
`my_random` must not divide by zero. -/
def Flowop.Draws (f : Flowop) : Prop :=
  f.options.foRandomSize = true ∧
    (f.type = .write ∨ f.type = .send → f.options.randSzMin ≠ f.options.randSzMax + 1)

/-- The flowop finds a connection. -/
def FindsConnection (conns : StrandConns) (j : ℕ) (f : Flowop) : Prop :=
  ∃ c conns', flowopLookup conns j f = some (some c, conns')

/-- A run of the group comes to the flowop when there is a connection for it. -/
def Group.ReachesConnected (g : Group) (f : Flowop) : Prop :=
  ∃ j conns, g.Reaches j f conns ∧ FindsConnection conns j f

/-- The random sizes of the flowops that a run comes to with a connection fit in the
buffer. -/
def Group.RandomSizesFit (g : Group) : Prop :=
  ∀ f ∈ g.flowops, f.type.isData → f.Draws → g.ReachesConnected f →
    f.options.randSzMax.toNat ≤ bufferSize g

/-! ## What a flowop passes on -/

section

variable {ε : Type} {E : StrandEnv ε} {buffer : ℕ}

/-- All calls so far were inside the buffer. -/
def Within (buffer : ℕ) (w : StrandWorld (ε × List Transfer)) : Prop :=
  ∀ call ∈ w.env.2, call.Inside buffer

theorem Within.outside {α : Type} (x : StateM ε α) :
    Exec.Triple (Within buffer) (outside (besideCalls x)) (fun _ => Within buffer)
      (Within buffer) :=
  fun _ h => h

theorem Within.perform (j : ℕ) (act : ConnAct) :
    Exec.Triple (Within (ε := ε) buffer) (perform j act) (fun _ => Within buffer)
      (Within buffer) := by
  intro w h
  simp only [Uperf.perform, Exec.runFrom_bind, Exec.runFrom_change, Exec.runFrom_state]
  cases connStep (w.record j (some act)).conns act with
  | none => exact h
  | some result => exact h

theorem Within.transfer (f : Flowop) (c offset length : ℕ) (hinside : offset + length ≤ buffer) :
    Exec.Triple (Within buffer) (Uperf.outside (E.recording.transfer f c offset length))
      (fun _ => Within buffer) (Within buffer) := by
  intro w h call hcall
  rcases List.mem_append.mp hcall with hcall | hcall
  · exact h call hcall
  · rw [List.mem_singleton.mp hcall]
    exact hinside

/-- The loop asks for the rest of the size each time. -/
theorem Within.rwLoop (f : Flowop) (c : ℕ) {size : ℕ} (hsize : size ≤ buffer) (rounds sz : ℕ) :
    Exec.Triple (Within buffer) (rwLoop E.recording f c size rounds sz) (fun _ => Within buffer)
      (Within buffer) := by
  induction rounds generalizing sz with
  | zero => exact Exec.Triple.pure fun _ h => h
  | succ rounds ih =>
      unfold Uperf.rwLoop
      split
      · rename_i hmore
        refine (Within.outside E.signalled).bind fun signalled => ?_
        split
        · exact Exec.Triple.pure fun _ h => h
        · refine (Within.transfer f c sz (size - sz) (by omega)).bind fun n => ?_
          split_ifs
          · refine (Within.outside (E.setErrno eintr)).bind fun _ => ?_
            exact Exec.Triple.pure fun _ h => h
          · exact Exec.Triple.pure fun _ h => h
          · exact Exec.Triple.pure fun _ h => h
          · exact ih _
      · exact Exec.Triple.pure fun _ h => h

/-- The greatest size that a flowop may come to. -/
def Flowop.sizeBound (f : Flowop) : UInt32 :=
  if f.options.foRandomSize then f.options.randSzMax else f.options.size

theorem myRandom_le {rand : ℕ} {x y size : UInt32} (h : myRandom rand x y = some size) :
    size ≤ y := by
  unfold myRandom at h
  simp only at h
  split at h
  · cases h
  · rw [Option.some.injEq] at h
    subst h
    split
    · exact UInt32.le_refl y
    · rename_i hle
      rw [UInt32.le_iff_toNat_le, UInt32.toNat_ofNat']
      omega

theorem myRandom_eq_none_iff {rand : ℕ} {x y : UInt32} :
    myRandom rand x y = none ↔ x = y + 1 := by
  have hzero : (y - x + 1).toNat = 0 ↔ x = y + 1 := by
    rw [← UInt32.toNat_zero, UInt32.toNat_inj]
    constructor
    · intro h
      grind
    · intro h
      grind
  unfold myRandom
  simp only [hzero]
  split <;> simp_all

/-- A size that is passed on is no greater than that, and was drawn if it is random. -/
theorem Within.flowopSize (f : Flowop) :
    Exec.Triple (Within buffer) (flowopSize E.recording f)
      (fun size w => (f.options.foRandomSize = true → f.Draws) ∧ size ≤ f.sizeBound ∧
        Within buffer w) (Within buffer) := by
  unfold Uperf.flowopSize Flowop.sizeBound
  by_cases hrandom : f.options.foRandomSize = true
  · by_cases htransmit : f.type = .write ∨ f.type = .send
    · rw [if_pos hrandom, if_pos htransmit]
      refine (Within.outside E.rand).bind fun rand => ?_
      cases hdraw : myRandom rand f.options.randSzMin f.options.randSzMax with
      | none => exact Exec.Triple.failure fun _ h => h
      | some size =>
          have hrange : f.options.randSzMin ≠ f.options.randSzMax + 1 := by
            intro hempty
            rw [myRandom_eq_none_iff.mpr hempty] at hdraw
            cases hdraw
          rw [if_pos hrandom]
          -- the draw is not larger than the greater bound
          exact Exec.Triple.pure fun _ h =>
            ⟨fun hflag => ⟨hflag, fun _ => hrange⟩, myRandom_le hdraw, h⟩
    · rw [if_pos hrandom, if_neg htransmit, if_pos hrandom]
      exact Exec.Triple.pure fun _ h =>
        ⟨fun hflag => ⟨hflag, fun hbad => absurd hbad htransmit⟩, UInt32.le_refl _, h⟩
  · rw [if_neg hrandom, if_neg hrandom]
    exact Exec.Triple.pure fun _ h => ⟨fun hflag => absurd hflag hrandom, UInt32.le_refl _, h⟩

/-- A flowop whose sizes fit stays inside. -/
theorem Within.flowopRw (j : ℕ) (f : Flowop)
    (hfixed : f.options.foRandomSize = false → f.options.size.toNat ≤ buffer)
    (hrandom : f.Draws → f.options.randSzMax.toNat ≤ buffer) :
    Exec.Triple (Within buffer) (flowopRw E.recording j f) (fun _ => Within buffer)
      (Within buffer) := by
  refine (Within.perform j (.rw j f)).bind fun ret => ?_
  refine (Exec.Triple.state fun _ h => h).bind fun w => ?_
  cases w.conns.connection j with
  | none => exact Exec.Triple.pure fun _ h => h
  | some c =>
      refine (Within.flowopSize f).bind fun size => ?_
      split_ifs with hsupports hzero
      · exact Exec.Triple.pure fun _ h => h.2.2
      · exact Exec.Triple.failure fun _ h => h.2.2
      · intro w' h
        obtain ⟨hdraws, hbound, hwithin⟩ := h
        -- the size is the fixed one, or it is drawn
        have hsize : size.toNat ≤ buffer := by
          refine (UInt32.le_iff_toNat_le.mp hbound).trans ?_
          unfold Flowop.sizeBound
          split
          · rename_i hflag
            exact hrandom (hdraws hflag)
          · rename_i hflag
            exact hfixed (by simpa using hflag)
        exact Within.rwLoop f c hsize _ _ w' hwithin

theorem inside_of_sizes (j : ℕ) (f : Flowop)
    (hfixed : f.options.foRandomSize = false → f.options.size.toNat ≤ buffer)
    (hrandom : f.Draws → f.options.randSzMax.toNat ≤ buffer) (w : StrandWorld ε) :
    ∀ call ∈ rwCalls E j f w, call.Inside buffer :=
  (Within.flowopRw j f hfixed hrandom).left fun _ hcall => absurd hcall List.not_mem_nil

/-- What the flowop at `j` remembers after it has looked up its connection. -/
theorem connection_of_lookup {s s' : StrandConns} {j : ℕ} {f : Flowop} {p : Option ℕ}
    (h : flowopLookup s j f = some (p, s')) : s'.connection j = p := by
  unfold flowopLookup at h
  cases hconnection : s.connection j with
  | some c =>
      rw [hconnection] at h
      cases h
      exact hconnection
  | none =>
      rw [hconnection] at h
      cases hget : strandGetConnection s f.connId with
      | none =>
          rw [hget] at h
          cases h
      | some found =>
          rw [hget] at h
          cases h
          exact Function.update_self _ _ _

theorem runFrom_perform_rw (j : ℕ) (f : Flowop) (w : StrandWorld ε) :
    (perform j (.rw j f)).runFrom w =
      match flowopLookup w.conns j f with
      | none => (none, w.record j (some (.rw j f)))
      | some (p, conns) =>
          (some (if p = none then -1 else 0), { w.record j (some (.rw j f)) with conns }) := by
  simp only [perform, Exec.runFrom_bind, Exec.runFrom_change, Exec.runFrom_state, connStep]
  rw [show (w.record j (some (.rw j f))).conns = w.conns from rfl]
  cases flowopLookup w.conns j f <;> rfl

/-- A flowop without a connection makes no call. -/
theorem rwCalls_of_not_finds {j : ℕ} {f : Flowop} {w : StrandWorld ε}
    (hnone : ¬ FindsConnection w.conns j f) : rwCalls E j f w = [] := by
  unfold rwCalls flowopRw
  rw [Exec.runFrom_bind, runFrom_perform_rw]
  rw [show w.recording.conns = w.conns from rfl]
  cases hlookup : flowopLookup w.conns j f with
  | none => rfl
  | some result =>
      obtain ⟨p, conns⟩ := result
      cases p with
      | some c => exact absurd ⟨c, conns, hlookup⟩ hnone
      | none =>
          simp only [Exec.runFrom_bind, Exec.runFrom_state, connection_of_lookup hlookup,
            Exec.runFrom_pure]
          rfl

end

/-! ## A call outside -/

/-- An outside where the draw is `rand`, and where the other end has hung up. -/
def hungUp (rand : ℕ) : StrandEnv Unit where
  signalled := pure false
  errno := pure 0
  setErrno _ := pure ()
  rand := pure rand
  cursor := pure ⟨0, by decide⟩
  connect _ := pure .connected
  accept _ := pure true
  disconnect _ := pure true
  supports _ _ := true
  transfer _ _ _ _ := pure 0
  sendfile _ _ := pure 0
  think _ := pure 0

/-- The greatest draw of a range gives its upper bound, also if the range wraps around. -/
theorem myRandom_greatest {x y : UInt32} (hrange : x ≠ y + 1) :
    myRandom (y - x).toNat x y = some y := by
  have hne : y - x + 1 ≠ 0 := by
    intro hzero
    exact hrange (by grind)
  have hnat : (y - x + 1).toNat ≠ 0 := by
    rw [← UInt32.toNat_zero, ne_eq, UInt32.toNat_inj]
    exact hne
  have hsucc : (y - x + 1).toNat = (y - x).toNat + 1 := by
    rw [UInt32.toNat_add, UInt32.toNat_one] at hnat ⊢
    have hlt := (y - x).toNat_lt
    omega
  -- the greatest draw is that of the width of the range
  have hdraw : (y - x).toNat % ((y - x).toNat + 1) = (y - x).toNat :=
    Nat.mod_eq_of_lt (Nat.lt_succ_self _)
  have hsub : (y - x).toNat = (2 ^ 32 - x.toNat + y.toNat) % 2 ^ 32 := UInt32.toNat_sub ..
  have hx := x.toNat_lt
  have hy := y.toNat_lt
  unfold myRandom
  simp only [hsucc, Nat.succ_ne_zero, if_false, hdraw, Option.some.injEq]
  split
  · rfl
  · rw [← UInt32.toNat_inj, UInt32.toNat_ofNat']
    omega

theorem flowopSize_hungUp {f : Flowop} (hdraws : f.Draws)
    (w : StrandWorld (Unit × List Transfer)) :
    (flowopSize (hungUp (f.options.randSzMax - f.options.randSzMin).toNat).recording f).runFrom w =
      (some f.options.randSzMax, w) := by
  unfold flowopSize
  rw [if_pos hdraws.1]
  by_cases htransmit : f.type = .write ∨ f.type = .send
  · rw [if_pos htransmit, Exec.runFrom_bind]
    have hrand : (outside (hungUp (f.options.randSzMax -
        f.options.randSzMin).toNat).recording.rand).runFrom w =
          (some (f.options.randSzMax - f.options.randSzMin).toNat, w) := rfl
    rw [hrand]
    simp only [myRandom_greatest (hdraws.2 htransmit), Exec.runFrom_pure]
  · rw [if_neg htransmit, Exec.runFrom_pure]

/-- The first call of the loop asks for all. -/
theorem rwLoop_hungUp {rand size rounds : ℕ} (hsize : 0 < size) (f : Flowop) (c : ℕ)
    (w : StrandWorld (Unit × List Transfer)) :
    ((rwLoop (hungUp rand).recording f c size (rounds + 1) 0).runFrom w).2.env.2 =
      w.env.2 ++ [{ offset := 0, length := size }] := by
  unfold rwLoop
  rw [if_pos hsize]
  rfl

/-- With a connection the greatest size is drawn, and asked for in the first call. -/
theorem rwCalls_of_draws {f : Flowop} (hdraws : f.Draws) (hne : f.options.randSzMax ≠ 0)
    {conns : StrandConns} {j : ℕ} (hfinds : FindsConnection conns j f) :
    rwCalls (hungUp (f.options.randSzMax - f.options.randSzMin).toNat) j f
        { env := (), conns } =
      [{ offset := 0, length := f.options.randSzMax.toNat }] := by
  obtain ⟨c, conns', hlookup⟩ := hfinds
  have hpos : 0 < f.options.randSzMax.toNat := by
    rw [Nat.pos_iff_ne_zero, ← UInt32.toNat_zero, ne_eq, UInt32.toNat_inj]
    exact hne
  obtain ⟨rounds, hrounds⟩ : ∃ rounds, f.options.randSzMax.toNat = rounds + 1 :=
    ⟨_, (Nat.succ_pred_eq_of_pos hpos).symm⟩
  have hsupports : (hungUp (f.options.randSzMax - f.options.randSzMin).toNat).recording.supports
      f c = true := rfl
  unfold rwCalls flowopRw
  rw [Exec.runFrom_bind, runFrom_perform_rw]
  simp only [StrandWorld.recording, hlookup, Exec.runFrom_bind, Exec.runFrom_state,
    connection_of_lookup hlookup, flowopSize_hungUp hdraws, hsupports, Bool.true_eq_false,
    if_false, hne]
  rw [hrounds, rwLoop_hungUp (by omega)]
  rfl

/-! ## Groups -/

section

variable {g : Group} {f : Flowop}

/-- The largest size of the flowops, and no less than the default. -/
theorem groupMaxDtoSize_le_iff (g : Group) (bound : UInt32) :
    groupMaxDtoSize g ≤ bound ↔
      defaultBufferSize ≤ bound ∧ ∀ f ∈ g.flowops, f.options.size ≤ bound := by
  -- the induction is for any size to begin with
  have hfold : ∀ (flowops : List Flowop) (count : UInt32),
      flowops.foldl (fun count f => if f.options.size > count then f.options.size else count)
        count ≤ bound ↔ count ≤ bound ∧ ∀ f ∈ flowops, f.options.size ≤ bound := by
    intro flowops
    induction flowops with
    | nil =>
        intro count
        simp
    | cons f rest ih =>
        intro count
        rw [List.foldl_cons, ih, List.forall_mem_cons, ← and_assoc]
        refine and_congr_left fun _ => ?_
        simp only [UInt32.le_iff_toNat_le]
        split
        · rename_i hlarger
          rw [gt_iff_lt, UInt32.lt_iff_toNat_lt] at hlarger
          omega
        · rename_i hsmaller
          rw [gt_iff_lt, UInt32.lt_iff_toNat_lt] at hsmaller
          omega
  have hflat : groupMaxDtoSize g = g.flowops.foldl
      (fun count f => if f.options.size > count then f.options.size else count)
        defaultBufferSize := by
    rw [groupMaxDtoSize, Group.flowops, List.foldl_flatMap]
  rw [hflat, hfold]

theorem size_le_groupMaxDtoSize (hf : f ∈ g.flowops) : f.options.size ≤ groupMaxDtoSize g :=
  ((groupMaxDtoSize_le_iff g _).mp (UInt32.le_refl _)).2 f hf

/-- The buffer is as large as the number where all sizes are those of an `int`. -/
theorem bufferSize_eq (hsizes : ∀ f ∈ g.flowops, f.options.size < 2 ^ 31) :
    bufferSize g = (groupMaxDtoSize g).toNat := by
  have hpow : ((2 : UInt32) ^ 31).toNat = 2 ^ 31 := by decide
  have hpred : ((2 : UInt32) ^ 31 - 1).toNat = 2 ^ 31 - 1 := by decide
  have hle : groupMaxDtoSize g ≤ 2 ^ 31 - 1 := by
    refine (groupMaxDtoSize_le_iff g _).mpr ⟨by decide, fun f hf => ?_⟩
    have hlt := hsizes f hf
    rw [UInt32.lt_iff_toNat_lt, hpow] at hlt
    rw [UInt32.le_iff_toNat_le, hpred]
    omega
  have hint : groupMaxDtoSize g < 2 ^ 31 := by
    rw [UInt32.le_iff_toNat_le, hpred] at hle
    rw [UInt32.lt_iff_toNat_lt, hpow]
    omega
  rw [bufferSize, if_pos hint]

/-- The data flowops stay inside if the random sizes fit, and no random size is too large
for a draw. -/
theorem staysInBuffer_iff_of_sizes (hsizes : ∀ f ∈ g.flowops, f.options.size < 2 ^ 31) :
    g.StaysInBuffer ↔ g.RandomSizesFit := by
  constructor
  · rintro hstays f hf hdata hdraws ⟨j, conns, hreaches, hfinds⟩
    by_cases hzero : f.options.randSzMax = 0
    · rw [hzero, UInt32.toNat_zero]
      exact Nat.zero_le _
    · have hinside := hstays f hf hdata j conns hreaches Unit _ { env := (), conns } rfl
        { offset := 0, length := f.options.randSzMax.toNat }
        (by rw [rwCalls_of_draws hdraws hzero hfinds]; exact List.mem_cons_self)
      simpa [Transfer.Inside] using hinside
  · rintro hfit f hf hdata j conns hreaches ε E w rfl
    by_cases hfinds : FindsConnection w.conns j f
    · refine inside_of_sizes j f (fun _ => ?_) (fun hdraws => ?_) w
      · rw [bufferSize_eq hsizes]
        exact UInt32.le_iff_toNat_le.mp (size_le_groupMaxDtoSize hf)
      · exact hfit f hf hdata hdraws ⟨j, w.conns, hreaches, hfinds⟩
    · simp [rwCalls_of_not_finds hfinds]

/-- The sizes on the slave are among those of the master, or the one for sending files. -/
theorem size_forSlave (f : Flowop) : f.forSlave.options.size = f.options.size ∨
    f.forSlave.options.size = f.options.rsize ∨ f.forSlave.options.size = uperfSlaveReadSize := by
  have hrsize : f.opposite.options.rsize = f.options.rsize := rfl
  have hsize : f.opposite.options.size = f.options.size ∨
      f.opposite.options.size = uperfSlaveReadSize := by
    unfold Flowop.opposite FlowopOptions.optionOposite
    simp only
    split
    · exact Or.inr rfl
    · exact Or.inl rfl
  unfold Flowop.forSlave FlowopOptions.optimizeForSlave
  simp only
  split
  · split
    · exact Or.inr (Or.inl hrsize)
    · exact Or.inr (Or.inl hrsize)
  · exact hsize.imp_right Or.inr

end

/-- A flowop that connects to the host `h`. -/
def connectFlowop : Flowop where
  name := strlcpy default (str "connect")
  type := .connect
  execute := some .flowopConnect
  options := {
    protocol := protocolTcp, remotehost := HostName.ofBytes (str "h"), count := 1, repeats := 1
    batchSize := 1 }

/-- A flowop that writes a random number of bytes. -/
def randomWrite (max : UInt32) : Flowop where
  name := strlcpy default (str "write")
  type := .write
  execute := some .flowopRw
  id := 1
  options := {
    randSzMin := 1, randSzMax := max, flag := oSizeRand, count := 1, repeats := 1, batchSize := 1 }

/-- A group of one strand with these flowops. -/
def randomGroup (max : UInt32) : Group where
  endian := uperfEndianValue
  name := (freshGroup 0).name
  nthreads := 1
  strandFlag := strandTypeThread
  ntxn := 1
  tlist := [{ freshTxn 0 with nflowop := 2, flist := [connectFlowop, randomWrite max] }]

/-- The profile of this group. -/
def randomProfile (upper : String) : List UInt8 :=
  str "<group nthreads=\"1\" >\n<transaction >\n" ++
    str "<flowop type=\"connect\" options=\"remotehost=h protocol=tcp\" />\n" ++
    str "<flowop type=\"write\" options=\"size=rand(1," ++ str upper ++ str ")\" />\n"

/-- An outside without durations. -/
def idleClock : StrandClock Unit where
  txnBegin := pure 0
  calloutRegister _ := pure ()
  again := pure false

/-- The write comes after the connect, and finds its connection. -/
theorem randomGroup_reaches : (randomGroup (2 ^ 20)).ReachesConnected (randomWrite (2 ^ 20)) := by
  have hsecond : (((groupExecute (hungUp 0) idleClock 1 (randomGroup (2 ^ 20))).runFrom
      { env := (), conns := {} }).2.log[1]?).map (fun e =>
        (e.act, (flowopLookup e.before 1 (randomWrite (2 ^ 20))).map Prod.fst)) =
          some (some (.rw 1 (randomWrite (2 ^ 20))), some (some 0)) := by
    decide +kernel
  obtain ⟨e, hlog, hseen⟩ := Option.map_eq_some_iff.mp hsecond
  obtain ⟨hact, hfound⟩ := Prod.mk.inj hseen
  obtain ⟨⟨p, conns'⟩, hlookup, rfl⟩ := Option.map_eq_some_iff.mp hfound
  exact ⟨1, e.before, ⟨Unit, hungUp 0, idleClock, 1, (), {}, strand_fresh, e,
    List.mem_of_getElem? hlog, hact, rfl⟩, 0, conns', hlookup⟩

end Uperf
