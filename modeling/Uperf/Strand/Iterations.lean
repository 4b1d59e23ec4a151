import Uperf.Strand.Execute

/-!
# The iterations of a transaction

A transaction without a duration is to be executed `iter` times, each flowop as
often as its count says.  Whether a flowop was interrupted is read from `errno`
after its loop, also when no call has failed; and the counter of the iterations
is an `int`.  When all flowops succeed, all iterations are done exactly if
`errno` is not `EINTR` to begin with and the counter can hold their number
(`txnExecute_allExecuted_iff`).
-/

namespace Uperf

open Lib

/-- What is recorded: a new iteration, and an execution of the flowop at `j`. -/
inductive ExecEvent
  | iteration
  | execute (j : ℕ)
deriving DecidableEq, Repr

/-- A strand and what it has executed. -/
structure Observed (σ : Type) where
  strand : σ
  trace : List ExecEvent := []

section

variable {σ : Type}

/-- A program on the strand alone. -/
def unobserved {α : Type} (x : Exec σ α) : Exec (Observed σ) α :=
  Exec.zoom Observed.strand (fun strand st => { st with strand }) x

def observe (event : ExecEvent) : Exec (Observed σ) Unit :=
  Exec.change fun st => { st with trace := st.trace ++ [event] }

/-- The machine that records what it executes. -/
def observed (M : Machine σ) : Machine (Observed σ) where
  signalled := unobserved M.signalled
  errno := unobserved M.errno
  execute j f := do
    observe (.execute j)
    unobserved (M.execute j f)
  flowopBegin j := unobserved (M.flowopBegin j)
  flowopEnd j size count := unobserved (M.flowopEnd j size count)
  txnBegin := do
    observe .iteration
    unobserved M.txnBegin
  txnEnd := unobserved M.txnEnd

/-- The executions of the flowops from `j` on, each as often as its count says. -/
def flowopsTrace : ℕ → List Flowop → List ExecEvent
  | _, [] => []
  | j, f :: rest =>
      List.replicate f.options.count.toNat (.execute j) ++ flowopsTrace (j + 1) rest

/-- One iteration. -/
def txnTrace (txn : Txn) : List ExecEvent := .iteration :: flowopsTrace 0 txn.flist

/-- In the states with `I`, which the machine does not leave, no flowop of the
transaction fails, the strand is not signalled, and `errno` is `e`. -/
structure Machine.Calm (M : Machine σ) (txn : Txn) (I : σ → Prop) (e : Int32) : Prop where
  signalled : Exec.Triple I M.signalled (fun signalled s => signalled = false ∧ I s)
    fun _ => False
  errno : Exec.Triple I M.errno (fun errno s => errno = e ∧ I s) fun _ => False
  execute : ∀ (j : ℕ) (f : Flowop), txn.flist[j]? = some f →
    Exec.Triple I (M.execute j f) (fun ret s => 0 ≤ ret ∧ I s) fun _ => False
  flowopBegin : ∀ j, Exec.Triple I (M.flowopBegin j) (fun _ => I) fun _ => False
  flowopEnd : ∀ j size count, Exec.Triple I (M.flowopEnd j size count) (fun _ => I) fun _ => False
  txnBegin : Exec.Triple I M.txnBegin (fun _ => I) fun _ => False
  txnEnd : Exec.Triple I M.txnEnd (fun _ => I) fun _ => False

/-- `txn_execute` returns `UPERF_SUCCESS` after `iter` iterations in which every flowop
was executed as often as its count says. -/
def AllExecuted (M : Machine σ) (D : Timing (Observed σ)) (rounds : ℕ) (txn : Txn) (s : σ) : Prop :=
  ∃ st, (txnExecute (observed M) D txn rounds).runFrom { strand := s } =
      (some (some TxnResult.success.code), st) ∧
    st.trace = (List.replicate txn.iter.toNat (txnTrace txn)).flatten

/-! ## One iteration -/

/-- A strand with `I` that has executed `t`. -/
def Seen (I : σ → Prop) (t : List ExecEvent) (st : Observed σ) : Prop :=
  I st.strand ∧ st.trace = t

variable {M : Machine σ} {txn : Txn} {I : σ → Prop} {e : Int32} {t : List ExecEvent}

theorem Seen.unobserved {α : Type} {x : Exec σ α} {R : α → Prop}
    (hx : Exec.Triple I x (fun a s => R a ∧ I s) fun _ => False) :
    Exec.Triple (Seen I t) (unobserved x) (fun a st => Seen I t st ∧ R a) fun _ => False := by
  intro st hst
  have hpost := hx st.strand hst.1
  rw [Uperf.unobserved, Exec.runFrom_zoom]
  generalize x.runFrom st.strand = result at hpost ⊢
  rcases result with ⟨_ | a, s⟩
  · exact hpost
  · exact ⟨⟨hpost.2, hst.2⟩, hpost.1⟩

theorem Seen.keep {x : Exec σ Unit} (hx : Exec.Triple I x (fun _ => I) fun _ => False) :
    Exec.Triple (Seen I t) (Uperf.unobserved x) (fun _ => Seen I t) fun _ => False := by
  have hkeep : Exec.Triple I x (fun _ s => True ∧ I s) fun _ => False :=
    hx.post fun _ _ hs => ⟨trivial, hs⟩
  exact (Seen.unobserved (R := fun _ => True) hkeep).post fun _ _ hst => hst.1

theorem Seen.observe (event : ExecEvent) :
    Exec.Triple (Seen I t) (observe event) (fun _ => Seen I (t ++ [event])) fun _ => False :=
  Exec.Triple.change fun _ h => ⟨h.1, congrArg (· ++ [event]) h.2⟩

section

variable {j : ℕ} {f : Flowop}

/-- The loop of a flowop that does not fail. -/
theorem Machine.Calm.flowopLoop (h : M.Calm txn I e) (hf : txn.flist[j]? = some f) (todo : ℕ)
    (i : UInt64) {ret : Int32} (hret : 0 ≤ ret) :
    Exec.Triple (Seen I t) (flowopLoop (observed M) j f todo i ret)
      (fun done st => (∃ ret i, done = some (ret, i) ∧ 0 ≤ ret) ∧
        Seen I (t ++ List.replicate todo (.execute j)) st) fun _ => False := by
  induction todo generalizing i ret t with
  | zero =>
      refine Exec.Triple.pure fun st hst => ⟨⟨ret, i, rfl, hret⟩, ?_⟩
      rwa [List.replicate_zero, List.append_nil]
  | succ todo ih =>
      have hexecute : Exec.Triple (Seen I t) ((observed M).execute j f)
          (fun ret st => Seen I (t ++ [.execute j]) st ∧ 0 ≤ ret) fun _ => False :=
        (Seen.observe (.execute j)).bind fun _ => Seen.unobserved (h.execute j f hf)
      have htrace : t ++ List.replicate (todo + 1) (.execute j) =
          t ++ [.execute j] ++ List.replicate todo (.execute j) := by
        rw [List.replicate_succ, List.append_assoc]
        rfl
      refine (Seen.unobserved h.signalled).bind fun signalled => Exec.Triple.and_const fun hno => ?_
      rw [if_neg (by simp [hno])]
      refine hexecute.bind fun ret => Exec.Triple.and_const fun hret => ?_
      have hnot : ¬ ret < 0 := Int32.not_lt.mpr hret
      rw [if_neg (fun hfail => hnot hfail.2), if_neg hnot, htrace]
      exact ih _ hret

/-- A flowop that does not fail is found interrupted if `errno` says so. -/
theorem Machine.Calm.flowopExecute (h : M.Calm txn I e) (hf : txn.flist[j]? = some f) :
    Exec.Triple (Seen I t) (flowopExecute (observed M) j f)
      (fun result st => Seen I (t ++ List.replicate f.options.count.toNat (.execute j)) st ∧
        result = if e = eintr then .expired else .success) fun _ => False := by
  unfold Uperf.flowopExecute
  refine (Seen.keep (h.flowopBegin j)).bind fun _ => ?_
  refine (h.flowopLoop hf _ _ (Int32.le_refl 0)).bind fun done => ?_
  intro st ⟨⟨ret, i, hdone, hret⟩, hst⟩
  subst hdone
  revert st
  refine (Seen.unobserved h.errno).bind fun saveErrno => Exec.Triple.and_const fun hsave => ?_
  refine (Seen.keep (h.flowopEnd j _ _)).bind fun _ => ?_
  rw [hsave]
  by_cases heintr : e = eintr
  · rw [if_pos heintr]
    exact Exec.Triple.pure fun _ hst => ⟨hst, (if_pos heintr).symm⟩
  · rw [if_neg heintr]
    refine (Seen.unobserved h.signalled).bind fun signalled => Exec.Triple.and_const fun hno => ?_
    rw [if_neg (by simp [hno]), if_pos hret]
    exact Exec.Triple.pure fun _ hst => ⟨hst, (if_neg heintr).symm⟩

/-- Flowops that are not found interrupted are executed one after the other. -/
theorem Machine.Calm.txnFlowops (h : M.Calm txn I e) (hquiet : txn.flist = [] ∨ e ≠ eintr)
    {rest : List Flowop} (hrest : rest = txn.flist.drop j) :
    Exec.Triple (Seen I t) (txnFlowops (observed M) j rest .success)
      (fun result st => Seen I (t ++ flowopsTrace j rest) st ∧ result = .success)
      fun _ => False := by
  induction rest generalizing j t with
  | nil =>
      refine Exec.Triple.pure fun st hst => ⟨?_, rfl⟩
      rwa [flowopsTrace, List.append_nil]
  | cons f rest ih =>
      have hf : txn.flist[j]? = some f := by
        rw [← List.head?_drop, ← hrest, List.head?_cons]
      have htail : rest = txn.flist.drop (j + 1) := by
        rw [← List.tail_drop, ← hrest, List.tail_cons]
      have hnot : e ≠ eintr := by
        apply hquiet.resolve_left
        intro hnil
        simp [hnil] at hf
      unfold Uperf.txnFlowops
      rw [if_pos rfl, flowopsTrace, ← List.append_assoc]
      refine (h.flowopExecute hf).bind fun result => Exec.Triple.and_const fun hresult => ?_
      rw [hresult, if_neg hnot]
      exact ih htail

/-- The first flowop is found interrupted. -/
theorem Machine.Calm.txnFlowops_interrupted (h : M.Calm txn I e) (hflist : txn.flist ≠ [])
    (heintr : e = eintr) :
    Exec.Triple (Seen I t) (Uperf.txnFlowops (observed M) 0 txn.flist .success)
      (fun result st => I st.strand ∧ result = .expired) fun _ => False := by
  obtain ⟨f, rest, hcons⟩ := List.exists_cons_of_ne_nil hflist
  have hf : txn.flist[0]? = some f := by rw [hcons, List.getElem?_cons_zero]
  rw [hcons]
  unfold Uperf.txnFlowops
  rw [if_pos rfl]
  refine (h.flowopExecute hf).bind fun result => Exec.Triple.and_const fun hresult => ?_
  rw [hresult, if_pos heintr]
  cases rest with
  | nil => exact Exec.Triple.pure fun st hst => ⟨hst.1, rfl⟩
  | cons f' rest =>
      unfold Uperf.txnFlowops
      rw [if_neg (by simp)]
      exact Exec.Triple.pure fun st hst => ⟨hst.1, rfl⟩

end

/-- One iteration, in which all flowops are executed. -/
theorem Machine.Calm.txnExecuteOnce (h : M.Calm txn I e)
    (hquiet : txn.flist = [] ∨ e ≠ eintr) :
    Exec.Triple (Seen I t) (txnExecuteOnce (observed M) txn)
      (fun result st => Seen I (t ++ txnTrace txn) st ∧ result = .success) fun _ => False := by
  have hbegin : Exec.Triple (Seen I t) (observed M).txnBegin
      (fun _ => Seen I (t ++ [.iteration])) fun _ => False :=
    (Seen.observe .iteration).bind fun _ => Seen.keep h.txnBegin
  have htrace : t ++ txnTrace txn = t ++ [.iteration] ++ flowopsTrace 0 txn.flist := by
    rw [txnTrace, List.append_assoc]
    rfl
  unfold Uperf.txnExecuteOnce
  rw [htrace]
  refine hbegin.bind fun _ => ?_
  refine (h.txnFlowops hquiet rfl).bind fun result => Exec.Triple.and_const fun hresult => ?_
  refine (Seen.keep h.txnEnd).bind fun _ => ?_
  exact Exec.Triple.pure fun st hst => ⟨hst, hresult⟩

/-- One iteration that is found interrupted. -/
theorem Machine.Calm.txnExecuteOnce_interrupted (h : M.Calm txn I e) (hflist : txn.flist ≠ [])
    (heintr : e = eintr) :
    Exec.Triple (Seen I t) (Uperf.txnExecuteOnce (observed M) txn)
      (fun result _ => result = .expired) fun _ => False := by
  have hbegin : Exec.Triple (Seen I t) (observed M).txnBegin
      (fun _ => Seen I (t ++ [.iteration])) fun _ => False :=
    (Seen.observe .iteration).bind fun _ => Seen.keep h.txnBegin
  unfold Uperf.txnExecuteOnce
  refine hbegin.bind fun _ => ?_
  refine (h.txnFlowops_interrupted hflist heintr).bind fun result =>
    Exec.Triple.and_const fun hresult => ?_
  intro st hst
  have hend : Exec.Triple (Seen I st.trace) (observed M).txnEnd (fun _ => Seen I st.trace)
      fun _ => False := Seen.keep h.txnEnd
  exact (hend.bind fun _ => Exec.Triple.pure fun _ _ => hresult) st ⟨hst, rfl⟩

/-! ## All iterations -/

/-- How many turns the loop of `txn_iterations` takes when no iteration fails, of at
most `rounds`. -/
def turns (iter : UInt64) : ℕ → Int32 → ℕ
  | 0, _ => 0
  | rounds + 1, i => if intToUInt64 i < iter then turns iter rounds (i + 1) + 1 else 0

theorem turns_le {iter : UInt64} {i : Int32} {k : ℕ}
    (hend : ¬ intToUInt64 (i + Int32.ofNat k) < iter) (rounds : ℕ) :
    turns iter rounds i ≤ k := by
  induction k generalizing i rounds with
  | zero =>
      have hend' : ¬ intToUInt64 i < iter := by simpa using hend
      cases rounds with
      | zero => exact le_rfl
      | succ rounds => rw [turns, if_neg hend']
  | succ k ih =>
      cases rounds with
      | zero => exact Nat.zero_le _
      | succ rounds =>
          have hnext : ¬ intToUInt64 (i + 1 + Int32.ofNat k) < iter := by
            have hsum : i + 1 + Int32.ofNat k = i + Int32.ofNat (k + 1) := by
              rw [Int32.ofNat_add, Int32.add_assoc, Int32.add_comm 1]
              rfl
            rwa [hsum]
          rw [turns]
          split_ifs
          · exact Nat.succ_le_succ (ih hnext rounds)
          · exact Nat.zero_le _

/-- As long as the counter can hold their number, all iterations are done. -/
theorem turns_of_le {iter : UInt64} (hiter : iter.toNat ≤ 2 ^ 31) (rounds k : ℕ)
    (hk : k + rounds = iter.toNat) : turns iter rounds (Int32.ofNat k) = rounds := by
  induction rounds generalizing k with
  | zero => rfl
  | succ rounds ih =>
      have hlt : intToUInt64 (Int32.ofNat k) < iter := by
        rw [UInt64.lt_iff_toNat_lt, intToUInt64_ofNat (by omega)]
        omega
      have hnext : Int32.ofNat k + 1 = Int32.ofNat (k + 1) := by
        rw [Int32.ofNat_add]
        rfl
      rw [turns, if_pos hlt, hnext, ih (k + 1) (by omega)]

theorem turns_eq_iff (iter : UInt64) :
    turns iter iter.toNat 0 = iter.toNat ↔ iter.toNat ≤ 2 ^ 31 := by
  constructor
  · intro hall
    by_contra hbig
    obtain ⟨k, -, hend, hsoon⟩ := exists_not_lt_iter iter
    have hle := turns_le hend iter.toNat
    have hlt := hsoon (by omega)
    omega
  · intro hle
    exact turns_of_le hle iter.toNat 0 (Nat.zero_add _)

theorem Machine.Calm.txnRounds (h : M.Calm txn I e) (hquiet : txn.flist = [] ∨ e ≠ eintr)
    (rounds : ℕ) (i : Int32) :
    Exec.Triple (Seen I t) (txnRounds (observed M) txn rounds i .success)
      (fun error st =>
        Seen I (t ++ (List.replicate (turns txn.iter rounds i) (txnTrace txn)).flatten) st ∧
          error = .success) fun _ => False := by
  induction rounds generalizing i t with
  | zero =>
      refine Exec.Triple.pure fun st hst => ⟨?_, rfl⟩
      rwa [turns, List.replicate_zero, List.flatten_nil, List.append_nil]
  | succ rounds ih =>
      unfold Uperf.txnRounds
      rw [turns]
      by_cases hlt : intToUInt64 i < txn.iter
      · rw [if_pos ⟨hlt, rfl⟩, if_pos hlt, List.replicate_succ, List.flatten_cons,
          ← List.append_assoc]
        refine (h.txnExecuteOnce hquiet).bind fun error => Exec.Triple.and_const fun herror => ?_
        rw [herror]
        exact ih (i + 1)
      · rw [if_neg (fun hturn => hlt hturn.1), if_neg hlt]
        refine Exec.Triple.pure fun st hst => ⟨?_, rfl⟩
        rwa [List.replicate_zero, List.flatten_nil, List.append_nil]

/-- The first iteration is found interrupted, and there is no other. -/
theorem Machine.Calm.txnIterations_interrupted (h : M.Calm txn I e) (hflist : txn.flist ≠ [])
    (heintr : e = eintr) (hiter : txn.iter ≠ 0) :
    Exec.Triple (Seen I t) (txnIterations (observed M) txn)
      (fun error _ => error = .expired) fun _ => False := by
  obtain ⟨rounds, hrounds⟩ : ∃ rounds, txn.iter.toNat = rounds + 1 :=
    Nat.exists_eq_succ_of_ne_zero fun hzero => hiter (UInt64.toNat_inj.mp hzero)
  have hlt : intToUInt64 0 < txn.iter := by
    rw [UInt64.lt_iff_toNat_lt, hrounds]
    exact Nat.succ_pos rounds
  unfold Uperf.txnIterations
  rw [hrounds]
  unfold Uperf.txnRounds
  rw [if_pos ⟨hlt, rfl⟩]
  refine (h.txnExecuteOnce_interrupted hflist heintr).bind fun error st herror => ?_
  subst herror
  cases rounds with
  | zero => rfl
  | succ rounds =>
      unfold Uperf.txnRounds
      rw [if_neg (by simp)]
      rfl

theorem runFrom_txnExecute {D : Timing σ} (hduration : txn.duration = 0) {rounds : ℕ} {s s' : σ}
    {error : TxnResult} (hrun : (txnIterations M txn).runFrom s = (some error, s')) :
    (txnExecute M D txn rounds).runFrom s = (some (some error.code), s') := by
  have hzero : ¬ txn.duration > 0 := by
    rw [hduration]
    decide
  unfold txnExecute
  rw [if_neg hzero, Exec.runFrom_bind, hrun]
  rfl

/-- When no flowop fails and no signal comes, all iterations of a transaction without
a duration are done exactly if nothing says that the flowops are interrupted, and
the counter can hold the number of iterations. -/
theorem txnExecute_allExecuted_iff {D : Timing (Observed σ)} {rounds : ℕ} {s : σ}
    (hduration : txn.duration = 0) (hcalm : M.Calm txn I e) (hs : I s) :
    AllExecuted M D rounds txn s ↔
      (txn.iter = 0 ∨ txn.flist = [] ∨ e ≠ eintr) ∧ txn.iter.toNat ≤ 2 ^ 31 := by
  have hseen : Seen I [] ({ strand := s } : Observed σ) := ⟨hs, rfl⟩
  by_cases hquiet : txn.flist = [] ∨ e ≠ eintr
  · obtain ⟨error, st, hrun, ⟨-, htrace⟩, rfl⟩ :=
      (hcalm.txnRounds hquiet txn.iter.toNat 0).exists_result hseen
    have hexecute : (txnExecute (observed M) D txn rounds).runFrom { strand := s } =
        (some (some TxnResult.success.code), st) := runFrom_txnExecute hduration hrun
    rw [List.nil_append] at htrace
    rw [and_iff_right (.inr hquiet), ← turns_eq_iff]
    constructor
    · rintro ⟨st', hrun', htrace'⟩
      rw [hexecute] at hrun'
      cases hrun'
      have hlength := congrArg List.length (htrace.symm.trans htrace')
      simp only [List.length_flatten, List.map_replicate, List.sum_replicate_nat, txnTrace,
        List.length_cons] at hlength
      exact Nat.eq_of_mul_eq_mul_right (Nat.succ_pos _) hlength
    · intro hturns
      rw [hturns] at htrace
      exact ⟨st, hexecute, htrace⟩
  · obtain ⟨hflist, heintr⟩ := not_or.mp hquiet
    rw [not_not] at heintr
    by_cases hiter : txn.iter = 0
    · -- nothing is executed, and nothing should be
      have hrun : (txnIterations (observed M) txn).runFrom { strand := s } =
          (some .success, { strand := s }) := by
        rw [txnIterations, hiter]
        rfl
      refine iff_of_true ⟨_, runFrom_txnExecute hduration hrun, ?_⟩ ⟨.inl hiter, ?_⟩
      · rw [hiter]
        rfl
      · rw [hiter]
        decide
    · obtain ⟨error, st, hrun, rfl⟩ :=
        (hcalm.txnIterations_interrupted hflist heintr hiter).exists_result hseen
      refine iff_of_false ?_ ?_
      · rintro ⟨st', hrun', -⟩
        rw [runFrom_txnExecute hduration hrun] at hrun'
        cases hrun'
      · rintro ⟨hzero | hnil | hne, -⟩
        · exact hiter hzero
        · exact hflist hnil
        · exact hne heintr

end

/-! ## Two machines -/

/-- A machine whose flowops return 8 and leave `errno` as it is. -/
def steadyMachine (errno : Int32) : Machine Unit where
  signalled := pure false
  errno := pure errno
  execute _ _ := pure 8
  flowopBegin _ := pure ()
  flowopEnd _ _ _ := pure ()
  txnBegin := pure ()
  txnEnd := pure ()

theorem steadyMachine_calm (errno : Int32) (txn : Txn) :
    (steadyMachine errno).Calm txn (fun _ => True) errno where
  signalled := Exec.Triple.pure fun _ _ => ⟨rfl, trivial⟩
  errno := Exec.Triple.pure fun _ _ => ⟨rfl, trivial⟩
  execute _ _ _ := Exec.Triple.pure fun _ _ => ⟨by decide, trivial⟩
  flowopBegin _ := Exec.Triple.pure fun _ _ => trivial
  flowopEnd _ _ _ := Exec.Triple.pure fun _ _ => trivial
  txnBegin := Exec.Triple.pure fun _ _ => trivial
  txnEnd := Exec.Triple.pure fun _ _ => trivial

/-- Three iterations of two reads. -/
def twoReads : Txn where
  nflowop := 1
  iter := 3
  flist := [{ type := .read, options := { count := 2 } }]

/-- Never used, as the transaction has no duration. -/
def idleTiming : Timing (Observed Unit) where
  txnBegin := pure 0
  calloutRegister _ := pure ()
  rateExecute _ once := once

theorem txnExecute_allExecuted_twoReads :
    AllExecuted (steadyMachine 0) idleTiming 0 twoReads () :=
  (txnExecute_allExecuted_iff rfl (steadyMachine_calm 0 twoReads) trivial).mpr
    ⟨.inr (.inr (by decide)), by decide⟩

/-- An earlier transaction was interrupted, so `errno` is still `EINTR`: the first read
is taken for the end of the transaction. -/
theorem not_allExecuted_leftErrno :
    (steadyMachine eintr).Calm twoReads (fun _ => True) eintr ∧
      ¬ AllExecuted (steadyMachine eintr) idleTiming 0 twoReads () := by
  refine ⟨steadyMachine_calm eintr twoReads, ?_⟩
  rintro ⟨st, hrun, -⟩
  have hexpired : ((txnExecute (observed (steadyMachine eintr)) idleTiming twoReads 0).runFrom
      { strand := () }).1 = some (some TxnResult.expired.code) := rfl
  rw [hrun] at hexpired
  cases hexpired

end Uperf
