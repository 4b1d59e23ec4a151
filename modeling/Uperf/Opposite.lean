import Uperf.Workorder

/-!
# What the slave does while the master runs a group

`group_opposite` turns the master's group into the slave's: each flowop becomes
its opposite and `optimize_txn_for_slave` enlarges the slave's reads where the
profile asks for it.  The loop over the flowops turns out to treat each of them
alike (`Txn.opposite_eq`), so the slave's group has the shape of the master's
with `Flowop.forSlave` in the place of each flowop.
-/

namespace Uperf

/-- `option_oposite`. -/
def FlowopOptions.optionOposite (option : FlowopOptions) : FlowopOptions :=
  { option with sctpInStreams := option.sctpOutStreams, sctpOutStreams := option.sctpInStreams }

/-- The body of the loop of `optimize_txn_for_slave`, with the local variable
`optimized`. -/
def FlowopOptions.optimizeForSlave (o : FlowopOptions) (optimized : Int32) :
    FlowopOptions × Int32 :=
  if o.rsize > o.size then
    if o.count > 1 then
      ({ o with count := o.size.toUInt64 * o.count / o.rsize.toUInt64, size := o.rsize },
        optimized)
    else
      ({ o with size := o.rsize }, (o.size / o.rsize).toInt32)
  else
    (o, optimized)

/-- The loop of `optimize_txn_for_slave` over the flowops. -/
def optimizeFlowops : List Flowop → Int32 → List Flowop × Int32
  | [], optimized => ([], optimized)
  | f :: rest, optimized =>
      let (options, optimized) := f.options.optimizeForSlave optimized
      let (rest, optimized) := optimizeFlowops rest optimized
      ({ f with options := options } :: rest, optimized)

/-- `optimize_txn_for_slave`.  The division of the `uint64_t` iteration count by
the `int` converts the latter with its sign. -/
def optimizeTxnForSlave (txn : Txn) : Txn :=
  let (flist, optimized) := optimizeFlowops txn.flist 0
  if optimized = 0 ∨ txn.duration > 0 then { txn with flist := flist }
  else { txn with flist := flist, iter := txn.iter / optimized.toInt64.toUInt64 }

/-- What `group_opposite` does to one flowop. -/
def Flowop.opposite (f : Flowop) : Flowop :=
  let size := if f.type = .sendfilev ∨ f.type = .sendfile then uperfSlaveReadSize
    else f.options.size
  { f with
    type := flowopOpposite f.type
    options := { f.options with size := size }.optionOposite }

/-- What `group_opposite` does to one transaction. -/
def Txn.opposite (txn : Txn) : Txn :=
  optimizeTxnForSlave { txn with flist := txn.flist.map Flowop.opposite }

/-- `group_opposite`. -/
def groupOpposite (grp : Group) : Group :=
  { grp with tlist := grp.tlist.map Txn.opposite }

/-! ## The transformation as a map -/

/-- The slave's flowop in the place of the master's. -/
def Flowop.forSlave (f : Flowop) : Flowop :=
  { f.opposite with options := (f.opposite.options.optimizeForSlave 0).1 }

theorem optimizeForSlave_snd (o : FlowopOptions) : (o.optimizeForSlave 0).2 = 0 := by
  unfold FlowopOptions.optimizeForSlave
  split_ifs with hsize hcount
  · rfl
  · -- the quotient is taken only when the divisor is larger
    have hdiv : o.size / o.rsize = 0 := by
      apply UInt32.toNat_inj.mp
      rw [UInt32.toNat_div]
      exact Nat.div_eq_of_lt (UInt32.lt_iff_toNat_lt.mp hsize)
    simp [hdiv]
  · rfl

theorem optimizeFlowops_eq (flist : List Flowop) :
    optimizeFlowops flist 0 =
      (flist.map fun f => { f with options := (f.options.optimizeForSlave 0).1 }, 0) := by
  induction flist with
  | nil => rfl
  | cons f rest ih =>
      have hstep : f.options.optimizeForSlave 0 = ((f.options.optimizeForSlave 0).1, 0) :=
        Prod.ext rfl (optimizeForSlave_snd f.options)
      rw [optimizeFlowops, hstep]
      simp only [ih, List.map_cons]

/-- `group_opposite` works flowop by flowop and never changes the iteration
count of a transaction. -/
theorem Txn.opposite_eq (txn : Txn) :
    txn.opposite = { txn with flist := txn.flist.map Flowop.forSlave } := by
  simp [Txn.opposite, optimizeTxnForSlave, optimizeFlowops_eq, Flowop.forSlave,
    Function.comp_def]

@[simp] theorem flowops_groupOpposite (g : Group) :
    (groupOpposite g).flowops = g.flowops.map Flowop.forSlave := by
  simp [Group.flowops, groupOpposite, List.flatMap_map, List.map_flatMap, Txn.opposite_eq]

/-! ## What becomes of a flowop -/

section

variable (f : Flowop)

/-- Of the options only the size, the count and the stream counts change. -/
theorem Flowop.options_forSlave : ∃ size count,
    f.forSlave.options =
      { f.options with
        size := size
        count := count
        sctpInStreams := f.options.sctpOutStreams
        sctpOutStreams := f.options.sctpInStreams } := by
  unfold forSlave FlowopOptions.optimizeForSlave
  by_cases hsize : f.opposite.options.rsize > f.opposite.options.size
  · by_cases hcount : f.opposite.options.count > 1
    · simp only [if_pos hsize, if_pos hcount]
      exact ⟨_, _, rfl⟩
    · simp only [if_pos hsize, if_neg hcount]
      exact ⟨_, _, rfl⟩
  · simp only [if_neg hsize]
    exact ⟨_, _, rfl⟩

@[simp] theorem Flowop.pId_forSlave : f.forSlave.pId = f.pId := rfl

@[simp] theorem Flowop.protocol_forSlave :
    f.forSlave.options.protocol = f.options.protocol := by
  obtain ⟨size, count, h⟩ := f.options_forSlave
  rw [h]

@[simp] theorem Flowop.bblog_forSlave : f.forSlave.options.bblog = f.options.bblog := by
  obtain ⟨size, count, h⟩ := f.options_forSlave
  rw [h]

@[simp] theorem Flowop.remotehost_forSlave :
    f.forSlave.options.remotehost = f.options.remotehost := by
  obtain ⟨size, count, h⟩ := f.options_forSlave
  rw [h]

@[simp] theorem Flowop.localhost_forSlave :
    f.forSlave.options.localhost = f.options.localhost := by
  obtain ⟨size, count, h⟩ := f.options_forSlave
  rw [h]

end

end Uperf
