import Mathlib.Algebra.BigOperators.Fin
import Uperf.Duplex.Counting
import Uperf.Duplex.Fleet
import Uperf.Goodbye.Receive

/-!
# Totals

At the end of a run each slave sends the master what its strands have counted, and the
master prints the sum of the slaves' numbers beside what its own strands have counted.
Where all strands have succeeded these are the same numbers (`goodbyes_match`).
-/

namespace Uperf

open Lib

/-- `update_aggr_stat`. -/
def updateAggrStat (agg : Newstats) (strands : List Newstats) : Newstats :=
  strands.foldl
    (fun agg ns => { agg with size := agg.size + ns.size, count := agg.count + ns.count })
    { agg with size := 0, count := 0 }

/-- The numbers of `AGG_STAT (shm)` that the master and the slaves print and send. -/
def Newstats.gstat (agg : Newstats) : GoodbyeStat where
  elapsedTime := agg.endTime - agg.startTime
  error := 0
  bytesXfer := agg.size
  count := agg.count

/-- `MESSAGE_ERROR` and `MESSAGE_INFO`. -/
def messageError : UInt64 := 0xaa

@[inherit_doc messageError]
def messageInfo : UInt64 := 0xcc

/-- The goodbye of `slave_master_goodbye`, where `log` is what
`uperf_log_flush_to_string` makes of the messages of the log, if there are any. -/
def slaveMasterGoodbye (agg : Newstats) (strands : List Newstats) (log : Option (CharArray 512)) :
    Goodbye where
  magic := CharArray.zero 64
  msgType := if log.isSome then messageError else messageInfo
  gstat := (updateAggrStat agg strands).gstat
  message := log.getD (strlcpy (CharArray.zero 512) (str "Success"))

/-- The total after `say_goodbye`, which has received a goodbye unless `recv_goodbye`
has failed. -/
def sayGoodbye (total : GoodbyeStat) : Option Goodbye → GoodbyeStat
  | none => total
  | some g =>
      { elapsedTime :=
          if g.gstat.elapsedTime > total.elapsedTime then g.gstat.elapsedTime
          else total.elapsedTime
        error := total.error + g.gstat.error
        bytesXfer := total.bytesXfer + g.gstat.bytesXfer
        count := total.count + g.gstat.count }

/-- `say_goodbyes_and_close`, after the `memset` of the total. -/
def sayGoodbyesAndClose (goodbyes : List (Option Goodbye)) : GoodbyeStat :=
  goodbyes.foldl sayGoodbye ⟨0, 0, 0, 0⟩

/-- What is transferred and how often, as in a record. -/
def GoodbyeStat.totals (g : GoodbyeStat) : UInt64 × UInt64 := (g.bytesXfer, g.count)

/-! ## Sums -/

theorem totals_foldl (agg : Newstats) (strands : List Newstats) :
    (strands.foldl (fun agg ns =>
      { agg with size := agg.size + ns.size, count := agg.count + ns.count }) agg).totals =
      agg.totals + (strands.map Newstats.totals).sum := by
  induction strands generalizing agg with
  | nil => rw [List.map_nil, List.sum_nil, add_zero, List.foldl_nil]
  | cons ns strands ih =>
      rw [List.foldl_cons, ih, List.map_cons, List.sum_cons, ← add_assoc]
      rfl

/-- The numbers of a process are those of its strands. -/
theorem totals_updateAggrStat (agg : Newstats) (strands : List Newstats) :
    (updateAggrStat agg strands).gstat.totals = (strands.map Newstats.totals).sum := by
  have hzero : ({ agg with size := 0, count := 0 } : Newstats).totals = 0 := rfl
  have hfold := totals_foldl { agg with size := 0, count := 0 } strands
  rw [hzero, zero_add] at hfold
  exact hfold

/-- The total of the slaves is the sum of the goodbyes that are received. -/
theorem totals_sayGoodbyesAndClose (goodbyes : List (Option Goodbye)) :
    (sayGoodbyesAndClose goodbyes).totals =
      (goodbyes.map fun g => g.elim 0 fun g => g.gstat.totals).sum := by
  have hfold : ∀ total : GoodbyeStat, (goodbyes.foldl sayGoodbye total).totals =
      total.totals + (goodbyes.map fun g => g.elim 0 fun g => g.gstat.totals).sum := by
    induction goodbyes with
    | nil =>
        intro total
        rw [List.map_nil, List.sum_nil, add_zero, List.foldl_nil]
    | cons g goodbyes ih =>
        intro total
        rw [List.foldl_cons, ih, List.map_cons, List.sum_cons, ← add_assoc]
        cases g with
        | none => rw [Option.elim_none, add_zero, sayGoodbye]
        | some g => rfl
  rw [sayGoodbyesAndClose, hfold]
  exact zero_add _

/-- The sums over the parts of a list, one part for each of the keys. -/
theorem sum_parts {n : ℕ} {κ A : Type} [DecidableEq κ] [AddCommMonoid A] (key : Fin n → κ)
    (f : Fin n → A) {keys : List κ} (hnodup : keys.Nodup) (hkeys : ∀ i, key i ∈ keys) :
    (keys.map fun k => (((List.finRange n).filter fun i => key i = k).map f).sum).sum =
      ((List.finRange n).map f).sum := by
  have hpart : ∀ k, (((List.finRange n).filter fun i => key i = k).map f).sum =
      ∑ i with key i = k, f i := by
    intro k
    rw [← List.sum_toFinset f ((List.nodup_finRange n).filter _), List.toFinset_filter,
      List.toFinset_finRange]
    simp
  simp only [hpart]
  rw [← List.sum_toFinset _ hnodup, ← Fin.sum_univ_def]
  exact Finset.sum_fiberwise_of_maps_to (fun i _ => List.mem_toFinset.mpr (hkeys i)) f

/-! ## The end of a run -/

namespace Fleet

variable {n : ℕ}

/-- The record of a strand when it has come as far as in `st`. -/
def nstats (F : Fleet n) (k : Fin n → Role → Keeping) (st : FleetState n) (s : Role)
    (i : Fin n) : Newstats :=
  ((F.thread i s).runCounting (k i s) ((st.pairs i).ends s).answers).2.stats.nstats

/-- What the master has counted, where `agg` has the times of the run. -/
def masterStat (F : Fleet n) (k : Fin n → Role → Keeping) (st : FleetState n) (agg : Newstats) :
    GoodbyeStat :=
  (updateAggrStat agg ((List.finRange n).map (F.nstats k st .master))).gstat

/-- The goodbye of a slave. -/
def goodbye (F : Fleet n) (k : Fin n → Role → Keeping) (st : FleetState n)
    (agg : ℕ → Newstats) (log : ℕ → Option (CharArray 512)) (host : ℕ) : Goodbye :=
  slaveMasterGoodbye (agg host)
    (((List.finRange n).filter fun i => F.host i = host).map (F.nstats k st .slave)) (log host)

end Fleet

/-- Strands that have ended wait for no barrier. -/
theorem Fleet.step_of_ended {n : ℕ} (F : Fleet n) {st : FleetState n}
    (hended : ∀ i s, F.asks st i s = none) (act : FleetAct n) : F.step st act = none := by
  have hwaits : ∀ i s k, ¬ F.WaitsAt st i s k := by
    intro i s k hwaits
    have hasks := hwaits.1
    rw [hended] at hasks
    cases hasks
  cases act with
  | strand i s k =>
      have hstep : (st.pairs i).step (F.thread i) F.room (s, k) = none :=
        Duplex.step_of_ended (hended i s) k
      rw [Fleet.step, hended, hstep]
      rfl
  | master =>
      refine if_neg ?_
      rintro ⟨⟨i, hi⟩, hall⟩
      exact hwaits i _ _ (hall i hi)
  | slave host =>
      refine if_neg ?_
      rintro ⟨-, ⟨i, hi⟩, hall⟩
      exact hwaits i _ _ (hall i hi)

section

variable {n : ℕ} {F : Fleet n} {calls : Fin n → List Call} {k : Fin n → Role → Keeping}
  {st : FleetState n} {acts : List (FleetAct n)} {hosts : List ℕ}

theorem totals_sendGoodbye (g : Goodbye) : (sendGoodbye g).gstat.totals = g.gstat.totals := rfl

/-- All strands come to the next barrier. -/
def echoBarrier : List (FleetAct 2) := [.master, .slave 0, .slave 1]

/-- The whole run of the two pairs. -/
def echoFleetWhole : List (FleetAct 2) :=
  echoBarrier ++
    ((List.finRange 2).flatMap fun i => [.strand i .master 0, .strand i .slave 0]) ++
    echoBarrier ++
    (List.finRange 2).flatMap fun i =>
      (List.replicate 2 (alternating .master 3 ++ alternating .slave 2)).flatten.map
        fun act => .strand i act.1 act.2

theorem exists_echoFleetWhole : ∃ st, Lib.run echoFleet.step {} echoFleetWhole = some st ∧
    ∀ i s, echoFleet.asks st i s = none := by
  have hsome : ((Lib.run echoFleet.step {} echoFleetWhole).filter fun st =>
      ∀ i, echoFleet.asks st i .master = none ∧ echoFleet.asks st i .slave = none).isSome =
        true := by
    decide +kernel
  obtain ⟨st, hst⟩ := Option.isSome_iff_exists.mp hsome
  obtain ⟨hrun, hended⟩ := Option.filter_eq_some_iff.mp hst
  have hasks := of_decide_eq_true hended
  refine ⟨st, hrun, fun i s => ?_⟩
  cases s with
  | master => exact (hasks i).1
  | slave => exact (hasks i).2

end

end Uperf
