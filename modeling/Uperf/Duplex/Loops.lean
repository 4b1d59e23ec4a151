import Mathlib.Algebra.BigOperators.Group.List.Basic
import Mathlib.Algebra.Group.Action.Prod
import Uperf.Duplex.Plays
import Uperf.Lib.Tables

/-!
# The loops of a strand

The functions of `execute.c`, from `flowop_execute` up to `group_execute`, over a
machine whose flowops make the calls of the book (`Machine.Performs`).  They make the
calls of the script, and what the ends of the flowops are recorded with adds up to
what the jobs are counted as (`countedAll`).
-/

namespace Uperf

open Lib

/-- What an execution of the flowop returns. -/
def Flowop.returned (f : Flowop) : Int32 :=
  if f.type.moves then Int32.ofNat f.options.size.toNat else 0

/-- What a job adds to the size and to the count of its strand. -/
def Job.counted : Job → UInt64 × UInt64
  | .barrier => 0
  | .flowop f => (intToUInt64 f.returned, 1)

/-- What some jobs add. -/
def countedAll (jobs : List Job) : UInt64 × UInt64 := (jobs.map Job.counted).sum

/-- A machine that makes the calls of the book when it executes the transaction.
`I b n` is what holds of a strand that has the connections of `b` and has counted
`n`. -/
structure Machine.Performs {σ : Type} (M : Machine σ) (env : σ → Dialogue) (txn : Txn)
    (I : Book → UInt64 × UInt64 → σ → Prop) : Prop where
  signalled : ∀ b n, Plays env M.signalled (I b n) [] fun signalled s => signalled = false ∧ I b n s
  errno : ∀ b n, Plays env M.errno (I b n) [] fun errno s => errno = 0 ∧ I b n s
  execute : ∀ {b b' : Book} {call : Option Call} {j : ℕ} {f : Flowop} (n : UInt64 × UInt64),
    txn.flist[j]? = some f → b.execute f = some (call, b') →
    Plays env (M.execute j f) (I b n) call.toList fun ret s => ret = f.returned ∧ I b' n s
  flowopBegin : ∀ {j : ℕ} {f : Flowop} (b : Book) (n : UInt64 × UInt64), txn.flist[j]? = some f →
    Plays env (M.flowopBegin j) (I b n) [] fun _ => I b n
  flowopEnd : ∀ {j : ℕ} {f : Flowop} (b : Book) (n : UInt64 × UInt64) (size count : UInt64),
    txn.flist[j]? = some f →
    Plays env (M.flowopEnd j size count) (I b n) [] fun _ => I b (n + (size * count, count))
  txnBegin : ∀ b n, Plays env M.txnBegin (I b n) [] fun _ => I b n
  txnEnd : ∀ b n, Plays env M.txnEnd (I b n) [] fun _ => I b n
  silent : ∀ d : Dialogue, d.asked ≠ none →
    M.Keeps txn.flist (fun _ s => env s = d) fun s => env s = d

/-! ## Counting -/

section

variable {f : Flowop} {b b' : Book} {call : Option Call}

@[simp] theorem countedAll_append (jobs jobs' : List Job) :
    countedAll (jobs ++ jobs') = countedAll jobs + countedAll jobs' := by
  rw [countedAll, List.map_append, List.sum_append]
  rfl

theorem countedAll_cons (job : Job) (jobs : List Job) :
    countedAll (job :: jobs) = job.counted + countedAll jobs := by
  rw [countedAll, List.map_cons, List.sum_cons]
  rfl

@[simp] theorem countedAll_barrier (jobs : List Job) :
    countedAll (.barrier :: jobs) = countedAll jobs := by
  rw [countedAll_cons, Job.counted, zero_add]

/-- A flowop that is executed as often as its count says. -/
theorem countedAll_repeated (f : Flowop) :
    countedAll (f.repeated.map .flowop) =
      (intToUInt64 f.returned * f.options.count, f.options.count) := by
  rw [countedAll, Flowop.repeated, List.map_replicate, List.map_replicate, List.sum_replicate,
    Job.counted, Prod.smul_mk, nsmul_eq_ofNat_mul, nsmul_eq_ofNat_mul, UInt64.ofNat_toNat, mul_one,
    mul_comm]

theorem Book.execute_returned (h : b.execute f = some (call, b')) : 0 ≤ f.returned := by
  have hdata : f.options.fixedSize = true → 0 ≤ Int32.ofNat f.options.size.toNat := by
    intro hsize
    simp only [FlowopOptions.fixedSize, Bool.and_eq_true, decide_eq_true_eq] at hsize
    rw [Int32.le_iff_toInt_le, Int32.toInt_ofNat_of_lt hsize.2.2]
    exact Int.natCast_nonneg _
  unfold Book.execute at h
  cases htype : f.type with
  | read | recv | write | send =>
      simp only [htype] at h
      obtain ⟨hsize, -⟩ := Option.ite_none_right_eq_some.mp h
      simpa [Flowop.returned, htype, FlowopType.moves] using hdata hsize
  | connect | accept | disconnect | nop | think =>
      simp [Flowop.returned, htype, FlowopType.moves]
  | error | sendfile | sendfilev | other =>
      simp only [htype] at h
      cases h

end

/-! ## Silence -/

section

variable {σ : Type} {M : Machine σ} {env : σ → Dialogue} {txn : Txn}
  {I : Book → UInt64 × UInt64 → σ → Prop} {f : Flowop} {j : ℕ}

namespace Machine.Performs

theorem silent_signalled (h : M.Performs env txn I) : Silent env M.signalled :=
  fun d hd => (h.silent d hd).signalled 0

theorem silent_flowopLoop (h : M.Performs env txn I) (hf : txn.flist[j]? = some f) (todo : ℕ)
    (i : UInt64) (ret : Int32) : Silent env (flowopLoop M j f todo i ret) :=
  fun d hd => (h.silent d hd).flowopLoop hf todo i ret

theorem silent_txnFlowops (h : M.Performs env txn I) {rest : List Flowop}
    (hrest : rest = txn.flist.drop j) (ret : TxnResult) :
    Silent env (txnFlowops M j rest ret) :=
  fun d hd => ((h.silent d hd).txnFlowops hrest ret).post fun _ _ hs => hs.elim fun _ hs => hs

theorem silent_txnExecuteOnce (h : M.Performs env txn I) : Silent env (txnExecuteOnce M txn) :=
  fun d hd => ((h.silent d hd).txnExecuteOnce (j := 0)).post fun _ _ hs => hs.elim fun _ hs => hs

theorem silent_txnRounds (h : M.Performs env txn I) (rounds : ℕ) (i : Int32) (error : TxnResult) :
    Silent env (txnRounds M txn rounds i error) := by
  induction rounds generalizing i error with
  | zero => exact Silent.pure _
  | succ rounds ih =>
      unfold txnRounds
      split_ifs
      · exact h.silent_txnExecuteOnce.bind fun error => ih _ _
      · exact Silent.pure _

theorem silent_txnExecute (h : M.Performs env txn I) (hduration : txn.duration = 0) (D : Timing σ)
    (rounds : ℕ) : Silent env (txnExecute M D txn rounds) := by
  unfold txnExecute
  rw [if_neg (by simp [hduration])]
  exact (h.silent_txnRounds _ 0 .success).bind fun _ => Silent.pure _

/-- What comes behind the loop of `flowop_execute`. -/
theorem silent_flowopResult (h : M.Performs env txn I) (ret : Int32) :
    Silent env (do
      if ← M.signalled then pure TxnResult.expired
      else pure (if 0 ≤ ret then .success else .failure)) := by
  refine h.silent_signalled.bind fun signalled => ?_
  split
  · exact Silent.pure _
  · exact Silent.pure _

@[inherit_doc silent_flowopResult]
theorem silent_flowopEnd (h : M.Performs env txn I) (ret : Int32) (i : UInt64)
    (saveErrno : Int32) :
    Silent env (do
      M.flowopEnd j (intToUInt64 ret) i
      if saveErrno = eintr then pure TxnResult.expired
      else if ← M.signalled then pure .expired
      else pure (if 0 ≤ ret then .success else .failure)) := by
  refine Silent.bind (fun d hd => (h.silent d hd).flowopEnd j _ _) fun _ => ?_
  by_cases heintr : saveErrno = eintr
  · rw [if_pos heintr]
    exact Silent.pure _
  · rw [if_neg heintr]
    exact h.silent_flowopResult ret

/-! ## The loops -/

variable {b b' : Book} {calls : List Call}

/-- The loop of `flowop_execute`. -/
theorem flowopLoop (h : M.Performs env txn I) (hf : txn.flist[j]? = some f) {todo : ℕ}
    (i : UInt64) (ret : Int32) (n : UInt64 × UInt64)
    (hscript : b.script ((List.replicate todo f).map .flowop) = some (calls, b')) :
    Plays env (flowopLoop M j f todo i ret) (I b n) calls fun done s =>
      done = some (if todo = 0 then ret else f.returned, i + UInt64.ofNat todo) ∧ I b' n s := by
  induction todo generalizing b i ret calls with
  | zero =>
      cases hscript
      exact Plays.pure fun s hs => ⟨by simp, hs⟩
  | succ todo ih =>
      rw [List.replicate_succ, List.map_cons] at hscript
      obtain ⟨call, b₁, rest, hexecute, hrest, rfl⟩ := script_flowop_eq_some hscript
      -- a flowop of the book does not fail, so the loop comes to its end
      have hnot : ¬ f.returned < 0 := Int32.not_lt.mpr (Book.execute_returned hexecute)
      have hi : i + 1 + UInt64.ofNat todo = i + UInt64.ofNat (todo + 1) := by
        rw [UInt64.ofNat_add, add_assoc, add_comm 1]
        rfl
      unfold Uperf.flowopLoop
      refine (h.signalled b n).bind_nil (Plays.known ?_) fun signalled => ?_
      · rw [if_neg Bool.false_ne_true]
        refine (h.execute n hf hexecute).bind (Plays.known ?_) fun ret => ?_
        · simp only [hnot, and_false, if_false]
          refine (ih (i + 1) f.returned hrest).imp (fun _ hs => hs) fun done s hs => ?_
          rw [ite_self, hi] at hs
          rwa [if_neg (Nat.succ_ne_zero todo)]
        · split_ifs
          · exact h.silent_flowopLoop hf _ _ _
          · exact Silent.pure _
          · exact h.silent_flowopLoop hf _ _ _
      · split_ifs
        · exact Silent.pure _
        · refine Silent.bind (fun d hd => (h.silent d hd).execute j f hf) fun ret => ?_
          split_ifs
          · exact h.silent_flowopLoop hf _ _ _
          · exact Silent.pure _
          · exact h.silent_flowopLoop hf _ _ _

/-- What the loop returns is not negative. -/
theorem loop_nonneg (hscript : b.script (f.repeated.map .flowop) = some (calls, b')) :
    0 ≤ if f.options.count.toNat = 0 then 0 else f.returned := by
  split_ifs with hzero
  · decide
  · obtain ⟨todo, htodo⟩ : ∃ todo, f.options.count.toNat = todo + 1 :=
      ⟨f.options.count.toNat - 1, by omega⟩
    rw [Flowop.repeated, htodo, List.replicate_succ, List.map_cons] at hscript
    obtain ⟨call, b₁, rest, hexecute, -, -⟩ := script_flowop_eq_some hscript
    exact Book.execute_returned hexecute

/-- `flowop_execute`. -/
theorem flowopExecute (h : M.Performs env txn I) (hf : txn.flist[j]? = some f)
    (n : UInt64 × UInt64)
    (hscript : b.script (f.repeated.map .flowop) = some (calls, b')) :
    Plays env (flowopExecute M j f) (I b n) calls fun result s =>
      result = .success ∧ I b' (n + countedAll (f.repeated.map .flowop)) s := by
  set ret : Int32 := if f.options.count.toNat = 0 then 0 else f.returned with hret
  have hnonneg : 0 ≤ ret := loop_nonneg hscript
  have hcount : (0 : UInt64) + UInt64.ofNat f.options.count.toNat = f.options.count := by
    rw [zero_add, UInt64.ofNat_toNat]
  -- a flowop with the count 0 is recorded with the size 0 as often as it is executed
  have hadded : ((intToUInt64 ret * f.options.count, f.options.count) : UInt64 × UInt64) =
      countedAll (f.repeated.map .flowop) := by
    rw [countedAll_repeated]
    by_cases hzero : f.options.count.toNat = 0
    · have hnone : f.options.count = 0 := UInt64.toNat_inj.mp hzero
      rw [hnone, mul_zero, mul_zero]
    · rw [hret, if_neg hzero]
  unfold Uperf.flowopExecute
  refine (h.flowopBegin b n hf).bind_nil (fun _ => ?_) fun _ => ?_
  · refine (h.flowopLoop hf 0 0 n hscript).bind_pure (Plays.known ?_) fun done => ?_
    · rw [hcount, ← hret]
      refine (h.errno b' n).bind_nil (Plays.known ?_) (h.silent_flowopEnd ret _)
      rw [if_neg (by decide)]
      refine (h.flowopEnd b' n _ _ hf).bind_nil (fun _ => ?_) fun _ => h.silent_flowopResult ret
      rw [hadded]
      refine (h.signalled b' _).bind_nil (Plays.known (Plays.pure fun s hs => ⟨?_, hs⟩)) ?_
      · exact if_pos hnonneg
      · intro signalled
        split
        · exact Silent.pure _
        · exact Silent.pure _
    · rcases done with _ | ⟨ret, i⟩
      · exact Silent.pure _
      · exact Silent.bind (fun d hd => (h.silent d hd).errno j) (h.silent_flowopEnd ret i)
  · refine (h.silent_flowopLoop hf _ _ _).bind fun done => ?_
    rcases done with _ | ⟨ret, i⟩
    · exact Silent.pure _
    · exact Silent.bind (fun d hd => (h.silent d hd).errno j) (h.silent_flowopEnd ret i)

/-- The loop of `txn_execute_once`. -/
theorem txnFlowops (h : M.Performs env txn I) {rest : List Flowop} (hrest : rest = txn.flist.drop j)
    (n : UInt64 × UInt64)
    (hscript : b.script ((rest.flatMap Flowop.repeated).map .flowop) = some (calls, b')) :
    Plays env (txnFlowops M j rest .success) (I b n) calls fun result s =>
      result = .success ∧ I b' (n + countedAll ((rest.flatMap Flowop.repeated).map .flowop)) s := by
  induction rest generalizing j b n calls with
  | nil =>
      cases hscript
      exact Plays.pure fun s hs => ⟨rfl, by simpa [countedAll] using hs⟩
  | cons f rest ih =>
      have hf : txn.flist[j]? = some f := by
        rw [← List.head?_drop, ← hrest, List.head?_cons]
      have htail : rest = txn.flist.drop (j + 1) := by
        rw [← List.tail_drop, ← hrest, List.tail_cons]
      rw [List.flatMap_cons, List.map_append] at hscript ⊢
      obtain ⟨first, later, b₁, hfirst, hlater, rfl⟩ := script_append_eq_some hscript
      unfold Uperf.txnFlowops
      rw [if_pos rfl, countedAll_append, ← add_assoc]
      exact (h.flowopExecute hf n hfirst).bind (Plays.known (ih htail _ hlater))
        fun result => h.silent_txnFlowops htail result

/-- `txn_execute_once`. -/
theorem txnExecuteOnce (h : M.Performs env txn I) (n : UInt64 × UInt64)
    (hscript : b.script (txn.once.map .flowop) = some (calls, b')) :
    Plays env (txnExecuteOnce M txn) (I b n) calls fun result s =>
      result = .success ∧ I b' (n + countedAll (txn.once.map .flowop)) s := by
  have hsilent : ∀ result : TxnResult, Silent env (do
      M.txnEnd
      pure result) := fun result =>
    Silent.bind (fun d hd => (h.silent d hd).txnEnd 0) fun _ => Silent.pure result
  unfold Uperf.txnExecuteOnce
  refine (h.txnBegin b n).bind_nil (fun _ => ?_) fun _ => ?_
  · refine (h.txnFlowops List.drop_zero.symm n hscript).bind_pure (fun result => ?_) hsilent
    refine Plays.const fun hresult => ?_
    exact (h.txnEnd b' _).bind_nil (fun _ => Plays.pure fun s hs => ⟨hresult, hs⟩)
      fun _ => Silent.pure result
  · exact (h.silent_txnFlowops List.drop_zero.symm _).bind hsilent

/-- The loop of `txn_iterations`. -/
theorem txnRounds (h : M.Performs env txn I) (rounds : ℕ) (i : Int32) (n : UInt64 × UInt64)
    (hscript : b.script ((List.replicate (turns txn.iter rounds i) txn.once).flatten.map
      .flowop) = some (calls, b')) :
    Plays env (txnRounds M txn rounds i .success) (I b n) calls fun result s =>
      result = .success ∧ I b' (n + countedAll
        ((List.replicate (turns txn.iter rounds i) txn.once).flatten.map .flowop)) s := by
  induction rounds generalizing i b n calls with
  | zero =>
      cases hscript
      exact Plays.pure fun s hs => ⟨rfl, by simpa [countedAll, turns] using hs⟩
  | succ rounds ih =>
      unfold Uperf.txnRounds
      by_cases hlt : intToUInt64 i < txn.iter
      · rw [turns, if_pos hlt, List.replicate_succ, List.flatten_cons, List.map_append]
          at hscript ⊢
        obtain ⟨first, later, b₁, hfirst, hlater, rfl⟩ := script_append_eq_some hscript
        rw [if_pos ⟨hlt, rfl⟩, countedAll_append, ← add_assoc]
        exact (h.txnExecuteOnce n hfirst).bind (Plays.known (ih (i + 1) _ hlater))
          fun error => h.silent_txnRounds rounds (i + 1) error
      · rw [turns, if_neg hlt] at hscript ⊢
        cases hscript
        rw [if_neg fun h => hlt h.1]
        exact Plays.pure fun s hs => ⟨rfl, by simpa [countedAll] using hs⟩

/-- `txn_execute`, by iterations. -/
theorem txnExecute (h : M.Performs env txn I) (hduration : txn.duration = 0) (D : Timing σ)
    (rounds : ℕ) (n : UInt64 × UInt64)
    (hscript : b.script (txn.flowops.map .flowop) = some (calls, b')) :
    Plays env (txnExecute M D txn rounds) (I b n) calls fun ret s =>
      ret = some 0 ∧ I b' (n + countedAll (txn.flowops.map .flowop)) s := by
  unfold Uperf.txnExecute
  rw [if_neg (by simp [hduration])]
  refine (h.txnRounds _ 0 n hscript).bind_pure (Plays.known ?_) fun _ => Silent.pure _
  exact Plays.pure fun s hs => ⟨rfl, hs⟩

end Machine.Performs

end

/-! ## The group -/

section

variable {σ : Type} {M : ℕ → ℕ → Machine σ} {env : σ → Dialogue}
  {I : List Flowop → Book → UInt64 × UInt64 → σ → Prop} {barrier : Exec σ Unit}
  {tlist : List Txn} {b b' : Book} {calls : List Call}

/-- Each of the machines makes the calls of its transaction, which comes after `t`
transactions and `k` flowops. -/
def PerformAll (M : ℕ → ℕ → Machine σ) (env : σ → Dialogue)
    (I : List Flowop → Book → UInt64 × UInt64 → σ → Prop) (tlist : List Txn) : Prop :=
  ∀ before txn behind, tlist = before ++ txn :: behind →
    (M before.length (before.flatMap Txn.flist).length).Performs env txn (I txn.flist)

theorem PerformAll.silent (h : PerformAll M env I tlist) (hbarrier : Silent env barrier)
    (hduration : ∀ txn ∈ tlist, txn.duration = 0) (D : Timing σ) (rounds : ℕ)
    {before behind : List Txn} (hsplit : tlist = before ++ behind) (error : Int32) :
    Silent env (groupTxns M D barrier rounds before.length (before.flatMap Txn.flist).length behind
      error) := by
  induction behind generalizing before error with
  | nil => exact Silent.pure _
  | cons txn behind ih =>
      have hmem : txn ∈ tlist := by
        rw [hsplit]
        exact List.mem_append_right _ List.mem_cons_self
      refine hbarrier.bind fun _ =>
        ((h before txn behind hsplit).silent_txnExecute (hduration txn hmem) D rounds).bind
          fun result => ?_
      cases result with
      | none => exact Silent.pure _
      | some error =>
          dsimp only
          split_ifs
          · exact Silent.pure _
          · have hrest : tlist = (before ++ [txn]) ++ behind := by simpa using hsplit
            have hnext := ih hrest error
            simpa using hnext

/-- `group_execute` makes the calls of all transactions, and succeeds. -/
theorem PerformAll.plays (h : PerformAll M env I tlist) (hsilent : Silent env barrier)
    (hbarrier : ∀ flist flist' b n,
      Plays env barrier (I flist b n) [.barrier] fun _ => I flist' b n)
    (hduration : ∀ txn ∈ tlist, txn.duration = 0) (D : Timing σ) (rounds : ℕ)
    {before behind : List Txn} (hsplit : tlist = before ++ behind) (flist : List Flowop)
    (n : UInt64 × UInt64) (hscript : b.script (behind.flatMap Txn.jobs) = some (calls, b')) :
    Plays env (groupTxns M D barrier rounds before.length (before.flatMap Txn.flist).length behind
      0) (I flist b n) calls fun ret s =>
      ret = some 0 ∧ ∃ flist', I flist' b' (n + countedAll (behind.flatMap Txn.jobs)) s := by
  induction behind generalizing before b n calls flist with
  | nil =>
      cases hscript
      exact Plays.pure fun s hs => ⟨rfl, flist, by simpa [countedAll] using hs⟩
  | cons txn behind ih =>
      rw [List.flatMap_cons, Txn.jobs, List.cons_append] at hscript ⊢
      obtain ⟨⟨rest, b₁⟩, hrest, heq⟩ := Option.map_eq_some_iff.mp hscript
      cases heq
      obtain ⟨first, later, b₂, hfirst, hlater, rfl⟩ := script_append_eq_some hrest
      have hmem : txn ∈ tlist := by
        rw [hsplit]
        exact List.mem_append_right _ List.mem_cons_self
      have hperforms := h before txn behind hsplit
      have hsplit' : tlist = (before ++ [txn]) ++ behind := by simpa using hsplit
      have hnext : ∀ error : Int32, Silent env (if error = TxnResult.failure.code then
          pure (some error)
        else
          groupTxns M D barrier rounds (before.length + 1)
            ((before.flatMap Txn.flist).length + txn.flist.length) behind error) := by
        intro error
        split_ifs
        · exact Silent.pure _
        · simpa using h.silent hsilent hduration D rounds hsplit' error
      rw [← List.singleton_append, countedAll_barrier, countedAll_append, ← add_assoc]
      refine (hbarrier flist txn.flist b n).bind (fun _ => ?_) fun _ => ?_
      · refine (hperforms.txnExecute (hduration txn hmem) D rounds n hfirst).bind
          (Plays.known ?_) fun result => ?_
        · have hgoes : ¬ (0 : Int32) = TxnResult.failure.code := by decide
          simpa [hgoes] using ih hsplit' txn.flist _ hlater
        · cases result with
          | none => exact Silent.pure _
          | some error => exact hnext error
      · refine (hperforms.silent_txnExecute (hduration txn hmem) D rounds).bind fun result => ?_
        cases result with
        | none => exact Silent.pure _
        | some error => exact hnext error

end

end Uperf
