import Uperf.Opposite

/-!
# Messages of different sizes

With `rsize` the slave moves larger pieces than the master, so it has to do so
less often.  `optimize_txn_for_slave` divides the count of a flowop by the
ratio.  It means to divide the iterations of the transaction when the flowop has
no count, but takes the quotient of the sizes the wrong way round, which is 0,
and leaves the iterations as they are.
-/

namespace Uperf

/-- The bytes that a flowop moves in one iteration. -/
def FlowopOptions.bytes (o : FlowopOptions) : ℕ := o.size.toNat * o.count.toNat

/-- The bytes that a transaction moves in all its iterations. -/
def Txn.bytes (txn : Txn) : ℕ := (txn.flist.map fun f => f.options.bytes).sum * txn.iter.toNat

/-- When the slave's transaction moves as many bytes as the master's. -/
def Conserves (o : FlowopOptions) (iter : UInt64) : Prop :=
  iter = 0 ∨ o.count = 0 ∨ (o.count > 1 ∧ o.bytes < 2 ^ 64)

/-- The sizes divide the way the profile should have them. -/
def Divides (o : FlowopOptions) (iter : UInt64) : Prop :=
  (o.count > 1 → o.rsize.toNat ∣ o.bytes) ∧
    (o.count = 1 → o.rsize.toNat ∣ o.size.toNat * iter.toNat)

/-- A count above 1 is divided, up to the overflow of the product. -/
theorem bytes_optimizeForSlave_of_count {o : FlowopOptions} (hsize : o.rsize > o.size)
    (hcount : o.count > 1) (hdvd : o.rsize.toNat ∣ o.bytes) :
    (o.optimizeForSlave 0).1.bytes = o.bytes ↔ o.bytes < 2 ^ 64 := by
  have hslave : (o.optimizeForSlave 0).1.bytes =
      o.rsize.toNat * (o.bytes % 2 ^ 64 / o.rsize.toNat) := by
    simp only [FlowopOptions.optimizeForSlave, if_pos hsize, if_pos hcount, FlowopOptions.bytes,
      UInt64.toNat_div, UInt64.toNat_mul, UInt32.toNat_toUInt64]
  rw [hslave]
  constructor
  · intro heq
    calc o.bytes = o.rsize.toNat * (o.bytes % 2 ^ 64 / o.rsize.toNat) := heq.symm
      _ ≤ o.bytes % 2 ^ 64 := Nat.mul_div_le _ _
      _ < 2 ^ 64 := Nat.mod_lt _ (by decide)
  · intro hlt
    rw [Nat.mod_eq_of_lt hlt, Nat.mul_div_cancel' hdvd]

/-- A single execution is made larger, and nothing makes up for it. -/
theorem bytes_optimizeForSlave_of_once {o : FlowopOptions} (hsize : o.rsize > o.size)
    (hcount : ¬ o.count > 1) : (o.optimizeForSlave 0).1.bytes = o.bytes ↔ o.count = 0 := by
  have hslave : (o.optimizeForSlave 0).1.bytes = o.rsize.toNat * o.count.toNat := by
    simp only [FlowopOptions.optimizeForSlave, if_pos hsize, if_neg hcount, FlowopOptions.bytes]
  have hlt : o.size.toNat < o.rsize.toNat := UInt32.lt_iff_toNat_lt.mp hsize
  rw [hslave, FlowopOptions.bytes]
  constructor
  · intro heq
    apply UInt64.toNat_inj.mp
    rcases mul_eq_mul_right_iff.mp heq with hsame | hzero
    · omega
    · exact hzero
  · intro hzero
    rw [hzero]
    rfl

section

variable {txn : Txn} {f : Flowop}

/-- The transactions conserve bytes when their flowops do, or never run. -/
theorem bytes_eq_iff {txn' : Txn} {f' : Flowop} (hflist : txn.flist = [f])
    (hflist' : txn'.flist = [f']) (hiter : txn'.iter = txn.iter) :
    txn'.bytes = txn.bytes ↔ txn.iter = 0 ∨ f'.options.bytes = f.options.bytes := by
  have hzero : txn.iter.toNat = 0 ↔ txn.iter = 0 := by
    rw [← UInt64.toNat_inj]
    rfl
  simp only [Txn.bytes, hflist, hflist', hiter, List.map_cons, List.map_nil, List.sum_cons,
    List.sum_nil, Nat.add_zero]
  rw [mul_eq_mul_right_iff, hzero, or_comm]

theorem conserves_iff {o : FlowopOptions} {iter : UInt64} (hsize : o.rsize > o.size)
    (hdivides : Divides o iter) :
    (iter = 0 ∨ (o.optimizeForSlave 0).1.bytes = o.bytes) ↔ Conserves o iter := by
  unfold Conserves
  by_cases hcount : o.count > 1
  · rw [bytes_optimizeForSlave_of_count hsize hcount (hdivides.1 hcount)]
    have hpos : o.count ≠ 0 := fun hzero => by simp [hzero] at hcount
    simp [hcount, hpos]
  · rw [bytes_optimizeForSlave_of_once hsize hcount]
    simp [hcount]

/-- For a transaction of one flowop with a larger `rsize`, the slave moves the
bytes of the master exactly when the flowop has a count that is divided without
overflow, or nothing is moved at all. -/
theorem bytes_optimizeTxnForSlave_iff (hflist : txn.flist = [f])
    (hsize : f.options.rsize > f.options.size) (hdivides : Divides f.options txn.iter) :
    ((optimizeTxnForSlave txn).bytes = txn.bytes ↔ Conserves f.options txn.iter) ∧
      (f.type ≠ .sendfile → f.type ≠ .sendfilev →
        (txn.opposite.bytes = txn.bytes ↔ Conserves f.options txn.iter)) := by
  have hslave : optimizeTxnForSlave txn =
      { txn with flist := [{ f with options := (f.options.optimizeForSlave 0).1 }] } := by
    simp [optimizeTxnForSlave, hflist, optimizeFlowops_eq]
  constructor
  · rw [hslave]
    exact (bytes_eq_iff hflist (by rfl) (by rfl)).trans (conserves_iff hsize hdivides)
  · intro hsendfile hsendfilev
    have hopposite : f.forSlave.options.bytes = (f.options.optimizeForSlave 0).1.bytes := by
      simp only [Flowop.forSlave, Flowop.opposite, hsendfile, hsendfilev, or_self, if_false,
        FlowopOptions.optionOposite, FlowopOptions.optimizeForSlave]
      split_ifs <;> rfl
    rw [Txn.opposite_eq, hflist, ← conserves_iff hsize hdivides, ← hopposite]
    exact bytes_eq_iff hflist (by rfl) (by rfl)

end

/-! ## Sixteen small writes -/

/-- A transaction that executes a flowop of 8k, with `rsize=128k`, `iter` times,
`count` times each. -/
def sizedTxn (count iter : UInt64) : Txn where
  nflowop := 1
  iter := iter
  flist := [{ type := .write, options := { size := 8192, rsize := 131072, count := count } }]

theorem bytes_optimizeTxnForSlave_sized :
    (optimizeTxnForSlave (sizedTxn 16 3)).bytes = (sizedTxn 16 3).bytes :=
  ((bytes_optimizeTxnForSlave_iff rfl (by decide) (by unfold Divides; decide)).1).mpr
    (.inr (.inr ⟨by decide, by decide⟩))

/-- With iterations in the place of the count, the slave waits for sixteen times
as much. -/
theorem bytes_optimizeTxnForSlave_iterations :
    Divides { size := 8192, rsize := 131072, count := 1 } 16 ∧
      (sizedTxn 1 16).bytes = 131072 ∧
      (optimizeTxnForSlave (sizedTxn 1 16)).bytes = 16 * 131072 ∧
      (sizedTxn 1 16).opposite.bytes = 16 * 131072 :=
  ⟨by unfold Divides; decide, by decide, by decide, by decide⟩

end Uperf
