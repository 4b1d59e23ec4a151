import Uperf.Lib.Exec
import Uperf.Logging
import Uperf.Run.Execute

/-!
# Executing transactions

`execute.c` calls the `execute` functions of the flowops of a transaction, each
as often as its count says, in every iteration, until one of them fails or the
strand is signalled.  What the flowops and the statistics do is left to a
`Machine`.
-/

namespace Uperf

open Lib

/-- What `execute.c` calls.  A flowop is known by its position in the transaction. -/
structure Machine (σ : Type) where
  /-- `SIGNALLED` -/
  signalled : Exec σ Bool
  errno : Exec σ Int32
  /-- `fp->execute` -/
  execute : ℕ → Flowop → Exec σ Int32
  /-- `STATS_RECORD_FLOWOP` with `FLOWOP_BEGIN` -/
  flowopBegin : ℕ → Exec σ Unit
  /-- `STATS_RECORD_FLOWOP` with `FLOWOP_END`, a size and a count -/
  flowopEnd : ℕ → UInt64 → UInt64 → Exec σ Unit
  /-- `stats_update` with `TXN_BEGIN` -/
  txnBegin : Exec σ Unit
  /-- `stats_update` with `TXN_END` -/
  txnEnd : Exec σ Unit

/-- The conversion of an `int` to `uint64_t`. -/
def intToUInt64 (n : Int32) : UInt64 := n.toInt64.toUInt64

section

variable {σ : Type} (M : Machine σ)

/-- The loop of `flowop_execute`: `i` executions are done and `todo` are left.  It
returns `ret` and `i`, or nothing when it finds the strand signalled. -/
def flowopLoop (j : ℕ) (fp : Flowop) : ℕ → UInt64 → Int32 → Exec σ (Option (Int32 × UInt64))
  | 0, i, ret => pure (some (ret, i))
  | todo + 1, i, _ => do
      if ← M.signalled then pure none
      else
        let ret ← M.execute j fp
        if fp.options.foCanfail ∧ ret < 0 then flowopLoop j fp todo (i + 1) 0
        else if ret < 0 then pure (some (ret, i))
        else flowopLoop j fp todo (i + 1) ret

/-- `flowop_execute`. -/
def flowopExecute (j : ℕ) (fp : Flowop) : Exec σ TxnResult := do
  M.flowopBegin j
  match ← flowopLoop M j fp fp.options.count.toNat 0 0 with
  | none => pure .expired
  | some (ret, i) =>
      let saveErrno ← M.errno
      M.flowopEnd j (intToUInt64 ret) i
      if saveErrno = eintr then pure .expired
      else if ← M.signalled then pure .expired
      else pure (if 0 ≤ ret then .success else .failure)

/-- The loop of `txn_execute_once`, from the flowop at `j` on. -/
def txnFlowops : ℕ → List Flowop → TxnResult → Exec σ TxnResult
  | _, [], ret => pure ret
  | j, f :: rest, ret =>
      if ret = .success then do
        let ret ← flowopExecute M j f
        txnFlowops (j + 1) rest ret
      else pure ret

/-- `txn_execute_once`. -/
def txnExecuteOnce (txn : Txn) : Exec σ TxnResult := do
  M.txnBegin
  let ret ← txnFlowops M 0 txn.flist .success
  M.txnEnd
  pure ret

/-- The loop of `txn_iterations`.  The counter is an `int`, and the loop is done at
most `rounds` times. -/
def txnRounds (txn : Txn) : ℕ → Int32 → TxnResult → Exec σ TxnResult
  | 0, _, error => pure error
  | rounds + 1, i, error =>
      if intToUInt64 i < txn.iter ∧ error = .success then do
        let error ← txnExecuteOnce M txn
        txnRounds txn rounds (i + 1) error
      else pure error

/-- `txn_iterations`.  The counter takes another value below `iter` in every
round. -/
def txnIterations (txn : Txn) : Exec σ TxnResult := txnRounds M txn txn.iter.toNat 0 .success

/-- The value of `UPERF_SUCCESS`, `UPERF_FAILURE` and `UPERF_DURATION_EXPIRED`. -/
def TxnResult.code : TxnResult → Int32
  | .success => 0
  | .failure => -1
  | .expired => 4

/-- What `txn_duration` and `duration_execute` call. -/
structure Timing (σ : Type) where
  /-- `shmptr->txn_begin` -/
  txnBegin : Exec σ UInt64
  /-- `shm_callout_register`, if the strand is the leader of its group -/
  calloutRegister : UInt64 → Exec σ Unit
  /-- `rate_execute_1s` on the master and `rate_execute_1s_busywait` on a slave -/
  rateExecute : UInt32 → Exec σ Int32 → Exec σ Int32

/-- The loop of `duration_execute`, unless it is done more than `rounds` times. -/
def durationLoop (callback : Exec σ Int32) : ℕ → Exec σ (Option Int32)
  | 0 => pure none
  | rounds + 1 => do
      let error ← callback
      if error = 0 then durationLoop callback rounds else pure (some error)

/-- `txn_duration`. -/
def txnDuration (D : Timing σ) (txn : Txn) (rounds : ℕ) : Exec σ (Option Int32) := do
  let txnBegin ← D.txnBegin
  D.calloutRegister (txnBegin + txn.duration)
  let once := TxnResult.code <$> txnExecuteOnce M txn
  durationLoop (if txn.rateCount = 0 then once else D.rateExecute txn.rateCount once) rounds

/-- `txn_execute`. -/
def txnExecute (D : Timing σ) (txn : Txn) (rounds : ℕ) : Exec σ (Option Int32) :=
  if txn.duration > 0 then txnDuration M D txn rounds
  else do
    let error ← txnIterations M txn
    pure (some error.code)

end

/-- The loop of `group_execute`, in a process without errors.  `M t k` is the machine
for transaction `t`, before which the group has `k` flowops. -/
def groupTxns {σ : Type} (M : ℕ → ℕ → Machine σ) (D : Timing σ) (waitBarrier : Exec σ Unit)
    (rounds : ℕ) : ℕ → ℕ → List Txn → Int32 → Exec σ (Option Int32)
  | _, _, [], error => pure (some error)
  | t, k, txn :: rest, _ => do
      waitBarrier
      match ← txnExecute (M t k) D txn rounds with
      | none => pure none
      | some error =>
          if error = TxnResult.failure.code then pure (some error)
          else groupTxns M D waitBarrier rounds (t + 1) (k + txn.flist.length) rest error

section

variable {σ : Type} (M : Machine σ)

/-! ## Invariants

`I j` is what holds while the flowop at `j` is executed, and `A` when the program
is stopped. -/

/-- What the parts of a machine preserve. -/
structure Machine.Keeps (flist : List Flowop) (I : ℕ → σ → Prop) (A : σ → Prop) : Prop where
  next : ∀ j s, I j s → I (j + 1) s
  signalled : ∀ j, Exec.Triple (I j) M.signalled (fun _ => I j) A
  errno : ∀ j, Exec.Triple (I j) M.errno (fun _ => I j) A
  execute : ∀ j f, flist[j]? = some f → Exec.Triple (I j) (M.execute j f) (fun _ => I j) A
  flowopBegin : ∀ j, Exec.Triple (I j) (M.flowopBegin j) (fun _ => I j) A
  flowopEnd : ∀ j size count, Exec.Triple (I j) (M.flowopEnd j size count) (fun _ => I j) A
  txnBegin : ∀ j, Exec.Triple (I j) M.txnBegin (fun _ => I 0) A
  txnEnd : ∀ j, Exec.Triple (I j) M.txnEnd (fun _ => I j) A

variable {M}

section

variable {txn : Txn} {I : ℕ → σ → Prop} {A : σ → Prop} {j : ℕ}

theorem Machine.Keeps.flowopLoop (h : M.Keeps txn.flist I A) {f : Flowop}
    (hf : txn.flist[j]? = some f) (todo : ℕ) (i : UInt64) (ret : Int32) :
    Exec.Triple (I j) (flowopLoop M j f todo i ret) (fun _ => I j) A := by
  induction todo generalizing i ret with
  | zero => exact Exec.Triple.pure fun _ hs => hs
  | succ todo ih =>
      refine (h.signalled j).bind fun signalled => ?_
      split
      · exact Exec.Triple.pure fun _ hs => hs
      · refine (h.execute j f hf).bind fun ret => ?_
        split_ifs
        · exact ih _ _
        · exact Exec.Triple.pure fun _ hs => hs
        · exact ih _ _

theorem Machine.Keeps.flowopExecute (h : M.Keeps txn.flist I A) {f : Flowop}
    (hf : txn.flist[j]? = some f) :
    Exec.Triple (I j) (flowopExecute M j f) (fun _ => I j) A := by
  refine (h.flowopBegin j).bind fun _ => ?_
  refine (h.flowopLoop hf _ _ _).bind fun done => ?_
  rcases done with _ | ⟨ret, i⟩
  · exact Exec.Triple.pure fun _ hs => hs
  · refine (h.errno j).bind fun saveErrno => ?_
    refine (h.flowopEnd j _ _).bind fun _ => ?_
    by_cases heintr : saveErrno = eintr
    · rw [if_pos heintr]
      exact Exec.Triple.pure fun _ hs => hs
    · rw [if_neg heintr]
      refine (h.signalled j).bind fun signalled => ?_
      split
      · exact Exec.Triple.pure fun _ hs => hs
      · exact Exec.Triple.pure fun _ hs => hs

theorem Machine.Keeps.txnFlowops (h : M.Keeps txn.flist I A) {rest : List Flowop}
    (hrest : rest = txn.flist.drop j) (ret : TxnResult) :
    Exec.Triple (I j) (txnFlowops M j rest ret) (fun _ s => ∃ j, I j s) A := by
  induction rest generalizing j ret with
  | nil => exact Exec.Triple.pure fun s hs => ⟨j, hs⟩
  | cons f rest ih =>
      have hf : txn.flist[j]? = some f := by
        rw [← List.head?_drop, ← hrest, List.head?_cons]
      have htail : rest = txn.flist.drop (j + 1) := by
        rw [← List.tail_drop, ← hrest, List.tail_cons]
      unfold Uperf.txnFlowops
      split_ifs
      · refine (h.flowopExecute hf).bind fun ret => ?_
        exact (ih htail ret).imp (h.next j) (fun _ _ hs => hs) fun _ hs => hs
      · exact Exec.Triple.pure fun s hs => ⟨j, hs⟩

theorem Machine.Keeps.txnExecuteOnce (h : M.Keeps txn.flist I A) :
    Exec.Triple (I j) (txnExecuteOnce M txn) (fun _ s => ∃ j, I j s) A := by
  refine (h.txnBegin j).bind fun _ => ?_
  refine (h.txnFlowops (by rw [List.drop_zero]) .success).bind fun ret => ?_
  intro s ⟨j, hs⟩
  exact ((h.txnEnd j).bind fun _ => Exec.Triple.pure fun s hs => ⟨j, hs⟩) s hs

/-- What the parts of the machine preserve holds after `txn_iterations`. -/
theorem Machine.Keeps.txnIterations (h : M.Keeps txn.flist I A) :
    Exec.Triple (I j) (txnIterations M txn) (fun _ s => ∃ j, I j s) A := by
  unfold Uperf.txnIterations
  generalize (TxnResult.success : TxnResult) = error
  generalize (0 : Int32) = i
  induction txn.iter.toNat generalizing i j error with
  | zero => exact Exec.Triple.pure fun s hs => ⟨j, hs⟩
  | succ rounds ih =>
      unfold txnRounds
      split_ifs
      · refine h.txnExecuteOnce.bind fun error => ?_
        intro s ⟨j, hs⟩
        exact ih _ _ s hs
      · exact Exec.Triple.pure fun s hs => ⟨j, hs⟩

end

/-! ## The number of rounds -/

theorem intToUInt64_ofNat {k : ℕ} (hk : k < 2 ^ 31) :
    (intToUInt64 (Int32.ofNat k)).toNat = k := by
  have hint : (Int32.ofNat k).toInt64.toInt = k := by
    rw [Int32.toInt_toInt64, Int32.toInt_ofNat_of_lt hk]
  have hnonneg : 0 ≤ (Int32.ofNat k).toInt64 := by
    rw [Int64.le_iff_toInt_le, hint]
    exact Int.natCast_nonneg k
  calc (intToUInt64 (Int32.ofNat k)).toNat = (Int32.ofNat k).toInt64.toNatClampNeg :=
        Int64.toNat_toUInt64_of_le hnonneg
    _ = ((Int32.ofNat k).toInt64.toInt).toNat := rfl
    _ = k := by rw [hint, Int.toNat_natCast]

/-- The counter gets to a value that ends the loop: to `iter`, or, if that is not
an `int`, to a negative number, and then too soon. -/
theorem exists_not_lt_iter (iter : UInt64) :
    ∃ k ≤ iter.toNat, ¬ intToUInt64 (0 + Int32.ofNat k) < iter ∧
      (2 ^ 31 < iter.toNat → k < iter.toNat) := by
  have hmax := iter.toNat_lt
  have hlt : ∀ k, k ≤ iter.toNat → iter.toNat ≤ (intToUInt64 (Int32.ofNat k)).toNat →
      (2 ^ 31 < iter.toNat → k < iter.toNat) →
      ∃ k ≤ iter.toNat, ¬ intToUInt64 (0 + Int32.ofNat k) < iter ∧
        (2 ^ 31 < iter.toNat → k < iter.toNat) := by
    intro k hk hle hsoon
    refine ⟨k, hk, ?_, hsoon⟩
    rw [Int32.zero_add, UInt64.lt_iff_toNat_lt]
    omega
  by_cases hsmall : iter.toNat < 2 ^ 31
  · exact hlt iter.toNat (le_refl _) (intToUInt64_ofNat hsmall).ge (by omega)
  · by_cases hmedium : iter.toNat < 2 ^ 32
    · have hvalue : (intToUInt64 (Int32.ofNat (2 ^ 31))).toNat = 2 ^ 64 - 2 ^ 31 := by decide
      exact hlt (2 ^ 31) (by omega) (by omega) id
    · have hvalue : (intToUInt64 (Int32.ofNat (2 ^ 32 - 1))).toNat = 2 ^ 64 - 1 := by decide
      exact hlt (2 ^ 32 - 1) (by omega) (by omega) (by omega)

end

end Uperf
