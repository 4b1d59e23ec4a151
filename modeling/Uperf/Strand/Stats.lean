import Mathlib.Algebra.BigOperators.Group.Finset.Piecewise
import Mathlib.Data.UInt
import Uperf.Lib.Transition
import Uperf.Strand.Execute

/-!
# Statistics

Each flowop of a strand has a record of its own, and the strand has one.  The end
of a flowop is entered in both by `stats_update`: in the strand's with the size
times the count, in the flowop's with the size.  `stats_agree_iff` says when the
two come to the same.
-/

namespace Uperf

open Lib

/-- `FLOWOP_STATS`, `TXN_STATS`, `HISTORY_STATS`, `GROUP_STATS`, `UTILIZATION_STATS`
and `NO_STATS`. -/
def flowopStats : UInt32 := 1

@[inherit_doc flowopStats]
def txnStats : UInt32 := (1 : UInt32) <<< 1

@[inherit_doc flowopStats]
def historyStats : UInt32 := (1 : UInt32) <<< 8

@[inherit_doc flowopStats]
def groupStats : UInt32 := (1 : UInt32) <<< 9

@[inherit_doc flowopStats]
def utilizationStats : UInt32 := (1 : UInt32) <<< 11

@[inherit_doc flowopStats]
def noStats : UInt32 := (1 : UInt32) <<< 12

/-- The bit is set in `options.copt`. -/
def enabled (copt bit : UInt32) : Bool := copt &&& bit ≠ 0

/-- `ULONG_MAX`. -/
def ulongMax : UInt64 := 0xffffffffffffffff

/-- Counters hold numbers modulo `2 ^ 64`. -/
theorem ofNat_eq_iff (m n : ℕ) : UInt64.ofNat m = UInt64.ofNat n ↔ m ≡ n [MOD 2 ^ 64] := by
  rw [← UInt64.toNat_inj, UInt64.toNat_ofNat', UInt64.toNat_ofNat']
  rfl

/-- The counters of `newstats_t`. -/
structure Newstats where
  startTime : UInt64 := 0
  endTime : UInt64 := 0
  timeUsedStart : UInt64 := 0
  cpuTimeStart : UInt64 := 0
  max : UInt64 := 0
  min : UInt64 := 0
  size : UInt64 := 0
  count : UInt64 := 0
  timeUsed : UInt64 := 0
  cpuTime : UInt64 := 0

/-- The records that the flowops, the transactions and the group of a strand point
to.  The flowops of the group are numbered in the order of the program. -/
inductive StatRef
  | flowop (k : ℕ)
  | txn (t : ℕ)
  | group
deriving DecidableEq

/-- `history_t`; only flowops are recorded. -/
structure History where
  etime : UInt64
  delta : UInt64

/-- `HISTORY_PER_STRAND`. -/
def historyPerStrand : ℕ := 8192

/-- The statistics of a strand: its own record, the others, where there are any,
and the history, which goes to a file when it is full. -/
structure StrandStats where
  nstats : Newstats := {}
  entry : StatRef → Option Newstats := fun _ => none
  history : List History := []
  historyFile : List History := []

def StrandStats.setEntry (s : StrandStats) (ref : StatRef) (ns : Newstats) : StrandStats :=
  { s with entry := Function.update s.entry ref (some ns) }

/-- `history_record`. -/
def historyRecord (s : StrandStats) (h : History) : StrandStats :=
  if s.history.length ≥ historyPerStrand then
    { s with history := [h], historyFile := s.historyFile ++ s.history }
  else { s with history := s.history ++ [h] }

/-- `GETHRTIME` and `GETHRVTIME`. -/
structure Clock (σ : Type) where
  hrtime : Exec σ UInt64
  hrvtime : Exec σ UInt64

/-- A strand with its statistics. -/
structure StatState (σ : Type) where
  strand : σ
  stats : StrandStats := {}

section

variable {σ : Type}

/-- `newstat_begin`. -/
def newstatBegin (C : Clock σ) (copt : UInt32) (ns : Newstats) : Exec σ Newstats := do
  let startTime ← (if ns.startTime = 0 then C.hrtime else pure ns.startTime)
  let timeUsedStart ← C.hrtime
  let cpuTimeStart ← (if enabled copt utilizationStats then C.hrvtime else pure ns.cpuTimeStart)
  pure
    { ns with
      startTime
      min := if ns.min = 0 then ulongMax else ns.min
      timeUsedStart
      cpuTimeStart }

/-- `newstat_end`. -/
def newstatEnd (C : Clock σ) (copt : UInt32) (ns : Newstats) (size count : UInt64) :
    Exec σ Newstats := do
  let endTime ← C.hrtime
  let cpuTimeStart ← (if enabled copt utilizationStats then C.hrvtime else pure ns.cpuTimeStart)
  let delta := endTime - ns.timeUsedStart
  pure
    { ns with
      endTime
      cpuTimeStart
      size := ns.size + size
      count := ns.count + count
      timeUsed := ns.timeUsed + delta
      max := if ns.max > delta then ns.max else delta
      min := if ns.min < delta then ns.min else delta }

/-- A program on the strand alone. -/
def onStrand {α : Type} (x : Exec σ α) : Exec (StatState σ) α :=
  Exec.zoom StatState.strand (fun strand st => { st with strand }) x

/-- A call of `newstat_begin` or `newstat_end` on a record; nothing is done for a
null pointer. -/
def onEntry (ref : StatRef) (x : Newstats → Exec σ Newstats) : Exec (StatState σ) Unit := do
  match (← Exec.state).stats.entry ref with
  | none => pure ()
  | some ns =>
      let ns ← onStrand (x ns)
      Exec.change fun st => { st with stats := st.stats.setEntry ref ns }

/-- The test of `stats_update` whether the records of flowops are kept. -/
def flowopsRecorded (copt : UInt32) : Bool :=
  enabled copt flowopStats || enabled copt groupStats || enabled copt historyStats

/-- `stats_update` with `FLOWOP_BEGIN`. -/
def statsFlowopBegin (C : Clock σ) (copt : UInt32) (ref : StatRef) : Exec (StatState σ) Unit :=
  if enabled copt noStats then pure ()
  else if flowopsRecorded copt then onEntry ref (newstatBegin C copt)
  else pure ()

/-- `stats_update` with `FLOWOP_END`. -/
def statsFlowopEnd (C : Clock σ) (copt : UInt32) (ref : StatRef) (size count : UInt64) :
    Exec (StatState σ) Unit :=
  if enabled copt noStats then pure ()
  else do
    Exec.change fun st =>
      { st with stats.nstats.size := st.stats.nstats.size + size * count
                stats.nstats.count := st.stats.nstats.count + count }
    if flowopsRecorded copt then
      onEntry ref fun ns => newstatEnd C copt ns size count
      if enabled copt historyStats then
        match (← Exec.state).stats.entry ref with
        | none => failure
        | some ns =>
            let h : History := { etime := ns.endTime, delta := ns.endTime - ns.timeUsedStart }
            Exec.change fun st => { st with stats := historyRecord st.stats h }

/-- `stats_update` with `TXN_BEGIN` and `TXN_END`. -/
def statsTxnBegin (C : Clock σ) (copt : UInt32) (ref : StatRef) : Exec (StatState σ) Unit :=
  if enabled copt noStats then pure ()
  else if enabled copt txnStats then onEntry ref (newstatBegin C copt)
  else pure ()

@[inherit_doc statsTxnBegin]
def statsTxnEnd (C : Clock σ) (copt : UInt32) (ref : StatRef) : Exec (StatState σ) Unit :=
  if enabled copt noStats then pure ()
  else if enabled copt txnStats then onEntry ref fun ns => newstatEnd C copt ns 0 1
  else pure ()

/-- The machine with the statistics of transaction `t`, whose flowops are those of
the group from `base` on. -/
def withStats (M : Machine σ) (C : Clock σ) (copt : UInt32) (t base : ℕ) :
    Machine (StatState σ) where
  signalled := onStrand M.signalled
  errno := onStrand M.errno
  execute j f := onStrand (M.execute j f)
  flowopBegin j := statsFlowopBegin C copt (.flowop (base + j))
  flowopEnd j size count := statsFlowopEnd C copt (.flowop (base + j)) size count
  txnBegin := statsTxnBegin C copt (.txn t)
  txnEnd := statsTxnEnd C copt (.txn t)

end

/-! ## Totals -/

/-- What a record says was done: a size and a count. -/
def Newstats.totals (ns : Newstats) : UInt64 × UInt64 := (ns.size, ns.count)

/-- The totals of a strand, and those of the other records. -/
abbrev Totals := (UInt64 × UInt64) × (StatRef → Option (UInt64 × UInt64))

def StrandStats.totals (s : StrandStats) : Totals :=
  (s.nstats.totals, fun ref => (s.entry ref).map Newstats.totals)

/-- The totals after `add` on the record `ref`. -/
def Totals.onEntry (T : Totals) (ref : StatRef) (add : UInt64 × UInt64 → UInt64 × UInt64) :
    Totals :=
  (T.1, Function.update T.2 ref ((T.2 ref).map add))

/-- The totals after the end of a flowop. -/
def Totals.flowopEnd (T : Totals) (ref : StatRef) (size count : UInt64) : Totals :=
  Totals.onEntry ((T.1.1 + size * count, T.1.2 + count), T.2) ref
    fun total => (total.1 + size, total.2 + count)

@[simp] theorem Totals.onEntry_id (T : Totals) (ref : StatRef) : T.onEntry ref id = T := by
  simp [Totals.onEntry]

section

variable {σ : Type} {C : Clock σ} {copt : UInt32} {ref : StatRef} {T : Totals}

/-- The strand has these totals. -/
def HasTotals (T : Totals) (st : StatState σ) : Prop := st.stats.totals = T

theorem historyRecord_totals (s : StrandStats) (h : History) :
    (historyRecord s h).totals = s.totals := by
  unfold historyRecord
  split_ifs
  · rfl
  · rfl

theorem StrandStats.totals_setEntry (s : StrandStats) (ns : Newstats) :
    (s.setEntry ref ns).totals =
      (s.totals.1, Function.update s.totals.2 ref (some ns.totals)) := by
  refine Prod.ext rfl (funext fun ref' => ?_)
  by_cases hsame : ref' = ref
  · subst hsame
    simp [StrandStats.totals, StrandStats.setEntry]
  · simp [StrandStats.totals, StrandStats.setEntry, hsame]

theorem newstatBegin_totals (C : Clock σ) (copt : UInt32) (ns : Newstats) :
    Exec.Triple (fun _ => True) (newstatBegin C copt ns) (fun ns' _ => ns'.totals = ns.totals)
      fun _ => True := by
  unfold newstatBegin
  refine Exec.Triple.trivial.bind fun startTime => ?_
  refine Exec.Triple.trivial.bind fun timeUsedStart => ?_
  refine Exec.Triple.trivial.bind fun cpuTimeStart => ?_
  exact Exec.Triple.pure fun _ _ => rfl

theorem newstatEnd_totals (C : Clock σ) (copt : UInt32) (ns : Newstats) (size count : UInt64) :
    Exec.Triple (fun _ => True) (newstatEnd C copt ns size count)
      (fun ns' _ => ns'.totals = (ns.size + size, ns.count + count)) fun _ => True := by
  unfold newstatEnd
  refine Exec.Triple.trivial.bind fun endTime => ?_
  refine Exec.Triple.trivial.bind fun cpuTimeStart => ?_
  exact Exec.Triple.pure fun _ _ => rfl

theorem HasTotals.onStrand {α : Type} {x : Exec σ α} {R : α → Prop}
    (hx : Exec.Triple (fun _ => True) x (fun a _ => R a) fun _ => True) :
    Exec.Triple (HasTotals T) (onStrand x) (fun a st => HasTotals T st ∧ R a) fun _ => True := by
  unfold Uperf.onStrand
  refine (Exec.Triple.zoom hx ?_).imp (fun _ h => h) (fun _ _ h => h) fun _ _ => trivial
  exact fun _ _ h => h

theorem HasTotals.onEntry (ref : StatRef) (add : UInt64 × UInt64 → UInt64 × UInt64)
    {x : Newstats → Exec σ Newstats}
    (hx : ∀ ns, Exec.Triple (fun _ => True) (x ns) (fun ns' _ => ns'.totals = add ns.totals)
      fun _ => True) :
    Exec.Triple (HasTotals T) (onEntry ref x) (fun _ => HasTotals (T.onEntry ref add))
      fun _ => True := by
  intro st h
  have hrecord : T.2 ref = (st.stats.entry ref).map Newstats.totals := by rw [← h]; rfl
  simp only [Uperf.onEntry, Exec.runFrom_bind, Exec.runFrom_state]
  cases hentry : st.stats.entry ref with
  | none =>
      rw [hentry] at hrecord
      show st.stats.totals = T.onEntry ref add
      rw [Option.map_none] at hrecord
      rw [Totals.onEntry, hrecord, Option.map_none, ← hrecord, Function.update_eq_self]
      exact h
  | some ns =>
      have hpost := hx ns st.strand trivial
      simp only [Uperf.onStrand, Exec.runFrom_bind, Exec.runFrom_zoom, Exec.runFrom_change]
      generalize (x ns).runFrom st.strand = result at hpost ⊢
      rcases result with ⟨_ | ns', strand⟩
      · trivial
      · show (st.stats.setEntry ref ns').totals = T.onEntry ref add
        have hpost' : ns'.totals = add ns.totals := hpost
        rw [StrandStats.totals_setEntry, Totals.onEntry, hrecord, hentry, hpost', ← h]
        rfl

theorem HasTotals.flowopBegin :
    Exec.Triple (HasTotals T) (statsFlowopBegin C copt ref) (fun _ => HasTotals T)
      fun _ => True := by
  unfold statsFlowopBegin
  split_ifs
  · exact Exec.Triple.pure fun _ h => h
  · have hentry := HasTotals.onEntry (T := T) ref id
      (newstatBegin_totals C copt)
    rwa [Totals.onEntry_id] at hentry
  · exact Exec.Triple.pure fun _ h => h

/-- With flowop statistics the end of a flowop is entered twice. -/
theorem HasTotals.flowopEnd (hstats : enabled copt noStats = false)
    (hflowops : enabled copt flowopStats = true) (size count : UInt64) :
    Exec.Triple (HasTotals T) (statsFlowopEnd C copt ref size count)
      (fun _ => HasTotals (T.flowopEnd ref size count)) fun _ => True := by
  have hrecorded : flowopsRecorded copt = true := by simp [flowopsRecorded, hflowops]
  have hown : Exec.Triple (HasTotals (σ := σ) T)
      (Exec.change fun st =>
        { st with stats.nstats.size := st.stats.nstats.size + size * count
                  stats.nstats.count := st.stats.nstats.count + count })
      (fun _ => HasTotals ((T.1.1 + size * count, T.1.2 + count), T.2)) fun _ => True := by
    refine Exec.Triple.change fun st h => ?_
    rw [← h]
    rfl
  unfold statsFlowopEnd
  rw [hstats, hrecorded]
  refine hown.bind fun _ => ?_
  have hentry := HasTotals.onEntry (T := ((T.1.1 + size * count, T.1.2 + count), T.2)) ref
    (fun total => (total.1 + size, total.2 + count))
    fun ns => newstatEnd_totals C copt ns size count
  refine hentry.bind fun _ => ?_
  split
  · refine (Exec.Triple.state fun _ h => h).bind fun st => ?_
    cases st.stats.entry ref with
    | none => exact Exec.Triple.failure fun _ _ => trivial
    | some ns =>
        refine Exec.Triple.change fun st h => ?_
        show (historyRecord st.stats _).totals = _
        rw [historyRecord_totals]
        exact h
  · exact Exec.Triple.pure fun _ h => h

/-! ## One flowop -/

/-- Flowop `k` of the group moves `bytes k` bytes each time, or fails; it does not
fail where it may. -/
def FixedSize (M : Machine σ) (g : Group) (bytes : ℕ → Int32) : Prop :=
  ∀ k f, g.flowops[k]? = some f → 0 ≤ bytes k ∧
    Exec.Triple (fun _ => True) (M.execute k f)
      (fun ret _ => ret = bytes k ∨ (ret < 0 ∧ f.options.foCanfail = false)) fun _ => True

variable {M : Machine σ} {g : Group} {bytes : ℕ → Int32} {k t : ℕ} {f : Flowop}

/-- The loop ends early, or with the size and the count of the flowop. -/
theorem HasTotals.flowopLoop (hsize : FixedSize M g bytes) (hf : g.flowops[k]? = some f)
    (todo : ℕ) (i : UInt64) (start : Int32) :
    Exec.Triple (HasTotals T) (flowopLoop (withStats M C copt t 0) k f todo i start)
      (fun done st => HasTotals T st ∧ ∀ ret i', done = some (ret, i') → ret < 0 ∨
        (i' = i + UInt64.ofNat todo ∧ ret = if todo = 0 then start else bytes k))
      fun _ => True := by
  obtain ⟨hbytes, hexecute⟩ := hsize k f hf
  induction todo generalizing i start with
  | zero =>
      refine Exec.Triple.pure fun st h => ⟨h, fun ret i' hdone => .inr ?_⟩
      cases hdone
      simp
  | succ todo ih =>
      refine (HasTotals.onStrand (R := fun _ => True) Exec.Triple.trivial).bind fun signalled => ?_
      refine Exec.Triple.and_const fun _ => ?_
      split
      · exact Exec.Triple.pure fun st h => ⟨h, fun _ _ hdone => nomatch hdone⟩
      · refine (HasTotals.onStrand hexecute).bind fun ret => ?_
        refine Exec.Triple.and_const fun hret => ?_
        -- the count and the size after the rest of the loop
        have hrest : ret = bytes k → Exec.Triple (HasTotals T)
            (Uperf.flowopLoop (withStats M C copt t 0) k f todo (i + 1) ret)
            (fun done st => HasTotals T st ∧ ∀ ret i', done = some (ret, i') → ret < 0 ∨
              (i' = i + UInt64.ofNat (todo + 1) ∧
                ret = if todo + 1 = 0 then start else bytes k)) fun _ => True := by
          intro hret
          refine (ih (i + 1) ret).post fun done st h => ⟨h.1, fun ret' i' hdone => ?_⟩
          refine (h.2 ret' i' hdone).imp_right fun hcount => ⟨?_, ?_⟩
          · rw [hcount.1, UInt64.ofNat_add, add_assoc, add_comm 1]
            rfl
          · rw [hcount.2, hret, if_neg (Nat.succ_ne_zero todo), ite_self]
        have hcanfail : ¬ (f.options.foCanfail = true ∧ ret < 0) := by
          rintro ⟨hcanfail, hneg⟩
          rcases hret with rfl | ⟨-, hnever⟩
          · exact absurd hbytes (Int32.not_le.mpr hneg)
          · rw [hcanfail] at hnever
            cases hnever
        rw [if_neg hcanfail]
        by_cases hneg : ret < 0
        · rw [if_pos hneg]
          refine Exec.Triple.pure fun st h => ⟨h, fun ret' i' hdone => ?_⟩
          cases hdone
          exact .inl hneg
        · rw [if_neg hneg]
          exact hrest (hret.resolve_right fun hfail => hneg hfail.1)

/-- How often a flowop of the group is executed in a row. -/
def Group.flowopCount (g : Group) (k : ℕ) : UInt64 :=
  (g.flowops[k]?).elim 0 fun f => f.options.count

/-- The size that the end of the flowop is recorded with: that of its last
execution. -/
def Group.flowopSize (g : Group) (bytes : ℕ → Int32) (k : ℕ) : UInt64 :=
  if g.flowopCount k = 0 then 0 else intToUInt64 (bytes k)

/-- What a successful flowop adds to the totals. -/
theorem HasTotals.flowopExecute (hstats : enabled copt noStats = false)
    (hflowops : enabled copt flowopStats = true) (hsize : FixedSize M g bytes)
    (hf : g.flowops[k]? = some f) :
    Exec.Triple (HasTotals T) (flowopExecute (withStats M C copt t 0) k f)
      (fun result st => result = .success →
        HasTotals (T.flowopEnd (.flowop k) (g.flowopSize bytes k) (g.flowopCount k)) st)
      fun _ => True := by
  have hcount : g.flowopCount k = f.options.count := by simp [Group.flowopCount, hf]
  have hbegin : Exec.Triple (HasTotals T) ((withStats M C copt t 0).flowopBegin k)
      (fun _ => HasTotals T) fun _ => True := HasTotals.flowopBegin
  unfold Uperf.flowopExecute
  refine hbegin.bind fun _ => ?_
  refine (HasTotals.flowopLoop hsize hf _ _ _).bind fun done => ?_
  rcases done with _ | ⟨ret, i⟩
  · exact Exec.Triple.pure fun _ _ hresult => nomatch hresult
  · refine Exec.Triple.and_const fun hdone => ?_
    refine (HasTotals.onStrand (R := fun _ => True) Exec.Triple.trivial).bind fun saveErrno => ?_
    refine Exec.Triple.and_const fun _ => ?_
    have hend : Exec.Triple (HasTotals T)
        ((withStats M C copt t 0).flowopEnd k (intToUInt64 ret) i)
        (fun _ => HasTotals (T.flowopEnd (.flowop (0 + k)) (intToUInt64 ret) i)) fun _ => True :=
      HasTotals.flowopEnd hstats hflowops _ _
    rw [Nat.zero_add] at hend
    refine hend.bind fun _ => ?_
    by_cases heintr : saveErrno = eintr
    · rw [if_pos heintr]
      exact Exec.Triple.pure fun _ _ hresult => nomatch hresult
    · rw [if_neg heintr]
      refine (HasTotals.onStrand (R := fun _ => True) Exec.Triple.trivial).bind fun signalled => ?_
      refine Exec.Triple.and_const fun _ => ?_
      split
      · exact Exec.Triple.pure fun _ _ hresult => nomatch hresult
      · refine Exec.Triple.pure fun st h hresult => ?_
        have hret : 0 ≤ ret := by
          by_contra hneg
          rw [if_neg hneg] at hresult
          cases hresult
        obtain ⟨hi, hlast⟩ := (hdone ret i rfl).resolve_left (Int32.not_lt.mpr hret)
        have hi' : i = g.flowopCount k := by simp [hi, hcount]
        have hlast' : intToUInt64 ret = g.flowopSize bytes k := by
          rw [hlast, Group.flowopSize, hcount]
          by_cases hzero : f.options.count = 0
          · rw [if_pos hzero, if_pos (by simp [hzero])]
            rfl
          · have hpos : f.options.count.toNat ≠ 0 := fun h => hzero (UInt64.toNat_inj.mp h)
            rw [if_neg hzero, if_neg hpos]
        rw [← hi', ← hlast']
        exact h

/-! ## Sequences of flowops -/

/-- The strand executes flowop `k` of its group, with success. -/
def executeSuccessfully (M : Machine σ) (C : Clock σ) (copt : UInt32) (g : Group)
    (st : StatState σ) (k : ℕ) : Option (StatState σ) :=
  match g.flowops[k]? with
  | none => none
  | some f =>
      match (flowopExecute (withStats M C copt 0 0) k f).runFrom st with
      | (some .success, st') => some st'
      | _ => none

/-- What the records of the first `n` flowops add up to. -/
def StrandStats.flowopSum (s : StrandStats) (n : ℕ) : UInt64 × UInt64 :=
  ∑ k ∈ Finset.range n, (s.entry (.flowop k)).elim 0 Newstats.totals

/-- The records of the flowops have grown by as much as that of the strand. -/
def StatsAgree (g : Group) (s s' : StrandStats) : Prop :=
  s'.flowopSum g.flowops.length - s.flowopSum g.flowops.length =
    s'.nstats.totals - s.nstats.totals

instance (g : Group) (s s' : StrandStats) : Decidable (StatsAgree g s s') :=
  inferInstanceAs (Decidable (_ = _))

theorem executeSuccessfully_cases {st st' : StatState σ}
    (hstep : executeSuccessfully M C copt g st k = some st') :
    ∃ f, g.flowops[k]? = some f ∧
      (flowopExecute (withStats M C copt 0 0) k f).runFrom st = (some .success, st') := by
  unfold executeSuccessfully at hstep
  cases hf : g.flowops[k]? with
  | none =>
      rw [hf] at hstep
      cases hstep
  | some f =>
      refine ⟨f, rfl, ?_⟩
      simp only [hf] at hstep
      split at hstep
      · rename_i hrun
        rw [hrun, Option.some_inj.mp hstep]
      · cases hstep

theorem StrandStats.flowopSum_eq (s : StrandStats) (n : ℕ) :
    s.flowopSum n = ∑ k ∈ Finset.range n, (s.totals.2 (.flowop k)).getD 0 := by
  refine Finset.sum_congr rfl fun k _ => ?_
  simp only [StrandStats.totals]
  cases s.entry (.flowop k) with
  | none => rfl
  | some ns => rfl

/-- What the end of flowop `k` adds to the records of the flowops. -/
theorem Totals.sum_flowopEnd {n : ℕ} (hk : k < n) (hassigned : T.2 (.flowop k) ≠ none)
    (size count : UInt64) :
    ∑ i ∈ Finset.range n, ((T.flowopEnd (.flowop k) size count).2 (.flowop i)).getD 0 =
      ∑ i ∈ Finset.range n, (T.2 (.flowop i)).getD 0 + (size, count) := by
  obtain ⟨total, htotal⟩ := Option.ne_none_iff_exists'.mp hassigned
  have hentry : ∀ i, ((T.flowopEnd (.flowop k) size count).2 (.flowop i)).getD 0 =
      (T.2 (.flowop i)).getD 0 + if i = k then (size, count) else 0 := by
    intro i
    by_cases hik : i = k
    · subst hik
      simp only [Totals.flowopEnd, Totals.onEntry, Function.update_self, htotal, Option.map_some,
        Option.getD_some, if_true]
      rfl
    · simp [Totals.flowopEnd, Totals.onEntry, hik]
  simp only [hentry, Finset.sum_add_distrib, Finset.sum_ite_eq', Finset.mem_range, if_pos hk]

theorem Totals.flowopEnd_ne_none {i : ℕ} (hassigned : T.2 (.flowop i) ≠ none)
    {size count : UInt64} : (T.flowopEnd (.flowop k) size count).2 (.flowop i) ≠ none := by
  by_cases hik : i = k
  · subst hik
    simpa [Totals.flowopEnd, Totals.onEntry] using hassigned
  · simpa [Totals.flowopEnd, Totals.onEntry, hik] using hassigned

theorem sum_map_pair (calls : List ℕ) (a b : ℕ → UInt64) :
    (calls.map fun k => (a k, b k)).sum = ((calls.map a).sum, (calls.map b).sum) := by
  induction calls with
  | nil => rfl
  | cons k rest ih =>
      rw [List.map_cons, List.sum_cons, ih]
      rfl

/-- What a sequence of flowops adds to the records. -/
theorem run_totals (hstats : enabled copt noStats = false)
    (hflowops : enabled copt flowopStats = true) (hsize : FixedSize M g bytes) {calls : List ℕ}
    {st st' : StatState σ} (hrun : run (executeSuccessfully M C copt g) st calls = some st')
    (hassigned : ∀ k < g.flowops.length, st.stats.entry (.flowop k) ≠ none) :
    (st'.stats.flowopSum g.flowops.length = st.stats.flowopSum g.flowops.length +
      (calls.map fun k => (g.flowopSize bytes k, g.flowopCount k)).sum) ∧
    st'.stats.nstats.totals = st.stats.nstats.totals +
      (calls.map fun k => (g.flowopSize bytes k * g.flowopCount k, g.flowopCount k)).sum := by
  induction calls generalizing st with
  | nil =>
      cases hrun
      simp
  | cons k rest ih =>
      obtain ⟨mid, hstep, hrun⟩ := run_cons.mp hrun
      obtain ⟨f, hf, hexecute⟩ := executeSuccessfully_cases hstep
      have hk : k < g.flowops.length := (List.getElem?_eq_some_iff.mp hf).1
      have hpost := HasTotals.flowopExecute (C := C) (t := 0) hstats hflowops hsize hf st rfl
      rw [hexecute] at hpost
      have hmid : mid.stats.totals = st.stats.totals.flowopEnd (.flowop k)
          (g.flowopSize bytes k) (g.flowopCount k) := hpost rfl
      have hentry : ∀ s : StrandStats, ∀ i, s.totals.2 (.flowop i) ≠ none ↔
          s.entry (.flowop i) ≠ none := by
        intro s i
        simp [StrandStats.totals]
      have hassigned' : ∀ i < g.flowops.length, mid.stats.entry (.flowop i) ≠ none := by
        intro i hi
        rw [← hentry, hmid]
        exact Totals.flowopEnd_ne_none ((hentry _ _).mpr (hassigned i hi))
      have hsum : mid.stats.flowopSum g.flowops.length =
          st.stats.flowopSum g.flowops.length + (g.flowopSize bytes k, g.flowopCount k) := by
        rw [StrandStats.flowopSum_eq, hmid, StrandStats.flowopSum_eq]
        exact Totals.sum_flowopEnd hk ((hentry _ _).mpr (hassigned k hk)) _ _
      have hown : mid.stats.nstats.totals = st.stats.nstats.totals +
          (g.flowopSize bytes k * g.flowopCount k, g.flowopCount k) := congrArg Prod.fst hmid
      obtain ⟨hsum', hown'⟩ := ih hrun hassigned'
      constructor
      · rw [hsum', hsum, List.map_cons, List.sum_cons, add_assoc]
      · rw [hown', hown, List.map_cons, List.sum_cons, add_assoc]

/-- The records of the flowops and that of the strand grow by the same, exactly when
the sizes of the flowops add up to their sizes times their counts. -/
theorem stats_agree_iff (hstats : enabled copt noStats = false)
    (hflowops : enabled copt flowopStats = true) (hsize : FixedSize M g bytes) {calls : List ℕ}
    {st st' : StatState σ} (hrun : run (executeSuccessfully M C copt g) st calls = some st')
    (hassigned : ∀ k < g.flowops.length, st.stats.entry (.flowop k) ≠ none) :
    StatsAgree g st.stats st'.stats ↔
      (calls.map fun k => g.flowopSize bytes k).sum =
        (calls.map fun k => g.flowopSize bytes k * g.flowopCount k).sum := by
  obtain ⟨hsum, hown⟩ := run_totals hstats hflowops hsize hrun hassigned
  rw [StatsAgree, hsum, hown, add_sub_cancel_left, add_sub_cancel_left, sum_map_pair, sum_map_pair,
    Prod.mk.injEq]
  exact and_iff_left rfl

end

/-! ## A count of two -/

/-- A machine whose flowops all move 8 KiB. -/
def eightK : Machine Unit where
  signalled := pure false
  errno := pure 0
  execute _ _ := pure 8192
  flowopBegin _ := pure ()
  flowopEnd _ _ _ := pure ()
  txnBegin := pure ()
  txnEnd := pure ()

/-- A group with one flowop, which writes 8 KiB `count` times. -/
def writeGroup (count : UInt64) : Group where
  tlist := [{ iter := 1, flist := [{ type := .write, options := { size := 8192, count } }] }]

/-- A clock that stands still. -/
def stillClock : Clock Unit := ⟨pure 1, pure 1⟩

/-- A strand whose flowops have records. -/
def assigned : StatState Unit := { strand := (), stats := { entry := fun _ => some {} } }

theorem eightK_fixedSize (count : UInt64) : FixedSize eightK (writeGroup count) fun _ => 8192 := by
  have hnonneg : (0 : Int32) ≤ 8192 := by decide
  exact fun _ _ _ => ⟨hnonneg, Exec.Triple.pure fun _ _ => .inl rfl⟩

theorem stats_agree_once :
    ∃ st', run (executeSuccessfully eightK stillClock flowopStats (writeGroup 1)) assigned [0, 0] =
        some st' ∧ StatsAgree (writeGroup 1) assigned.stats st'.stats := by
  have hsome : (run (executeSuccessfully eightK stillClock flowopStats (writeGroup 1)) assigned
    [0, 0]).isSome := by decide +kernel
  obtain ⟨st', hrun⟩ := Option.isSome_iff_exists.mp hsome
  refine ⟨st', hrun, (stats_agree_iff (by decide) (by decide) (eightK_fixedSize 1) hrun ?_).mpr ?_⟩
  · exact fun _ _ => Option.some_ne_none _
  · decide +kernel

/-- The strand has moved twice as much as its only flowop. -/
theorem not_statsAgree_twice :
    FixedSize eightK (writeGroup 2) (fun _ => 8192) ∧
    ∃ st', run (executeSuccessfully eightK stillClock flowopStats (writeGroup 2)) assigned [0] =
        some st' ∧ st'.stats.nstats.size = 16384 ∧
      ((st'.stats.entry (.flowop 0)).map Newstats.size) = some 8192 ∧
      ¬ StatsAgree (writeGroup 2) assigned.stats st'.stats := by
  refine ⟨eightK_fixedSize 2, ?_⟩
  have hseen : (run (executeSuccessfully eightK stillClock flowopStats (writeGroup 2)) assigned
      [0]).map (fun st' => (st'.stats.nstats.size, (st'.stats.entry (.flowop 0)).map Newstats.size,
        decide (StatsAgree (writeGroup 2) assigned.stats st'.stats))) =
      some (16384, some 8192, false) := by decide +kernel
  obtain ⟨st', hrun, hseen⟩ := Option.map_eq_some_iff.mp hseen
  simp only [Prod.mk.injEq, decide_eq_false_iff_not] at hseen
  exact ⟨st', hrun, hseen⟩

end Uperf
