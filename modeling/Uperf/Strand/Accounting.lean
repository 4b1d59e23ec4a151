import Mathlib.Algebra.Order.BigOperators.Group.Finset
import Uperf.Strand.Stats

/-!
# The bytes of a flowop

The end of a flowop is entered in the record of the strand with the last value
that the flowop returned, times the number of executions that did not fail.
`flowopExecute_accounts_iff` says when this is the number of bytes that all of
them returned.
-/

namespace Uperf

open Lib

/-- What a flowop meets: the values its executions return, in order, the number of
the execution before which a signal comes, if one does, `errno` after each number
of executions, and the clocks. -/
structure Script where
  returns : ℕ → Int32
  signal : Option ℕ := none
  errno : ℕ → Int32 := fun _ => 0
  hrtime : ℕ → UInt64 := fun _ => 0
  hrvtime : ℕ → UInt64 := fun _ => 0

/-- How many executions are made, and how often the clocks were read. -/
structure ScriptState where
  made : ℕ := 0
  reads : ℕ := 0

namespace Script

variable (S : Script)

/-- The strand finds itself signalled before the execution `k`. -/
def SignalledAt (k : ℕ) : Prop := ∃ s, S.signal = some s ∧ s ≤ k

instance (k : ℕ) : Decidable (S.SignalledAt k) :=
  match h : S.signal with
  | none => isFalse (by simp [SignalledAt, h])
  | some s => decidable_of_iff (s ≤ k) (by simp [SignalledAt, h])

/-- The flowop as `execute.c` sees it, without statistics. -/
def machine : Machine ScriptState where
  signalled := do
    let s ← Exec.state
    pure (decide (S.SignalledAt s.made))
  errno := do
    let s ← Exec.state
    pure (S.errno s.made)
  execute _ _ := do
    let s ← Exec.state
    Exec.change fun s => { s with made := s.made + 1 }
    pure (S.returns s.made)
  flowopBegin _ := pure ()
  flowopEnd _ _ _ := pure ()
  txnBegin := pure ()
  txnEnd := pure ()

def readClock (time : ℕ → UInt64) : Exec ScriptState UInt64 := do
  let s ← Exec.state
  Exec.change fun s => { s with reads := s.reads + 1 }
  pure (time s.reads)

def clock : Clock ScriptState where
  hrtime := readClock S.hrtime
  hrvtime := readClock S.hrvtime

/-- The sum of the non-negative ones among the first `k` values. -/
def bytes (k : ℕ) : ℕ := ∑ i ∈ Finset.range k, (S.returns i).toNatClampNeg

/-- The strand after `flowop_execute`. -/
def after (copt : UInt32) (t base j : ℕ) (f : Flowop) (stats : StrandStats) :
    StatState ScriptState :=
  ((flowopExecute (withStats S.machine S.clock copt t base) j f).runFrom
    { strand := {}, stats }).2

/-- The size of the strand grows by the bytes of the executions that were made. -/
def Accounts (copt : UInt32) (t base j : ℕ) (f : Flowop) (stats : StrandStats) : Prop :=
  (S.after copt t base j f stats).stats.nstats.size =
    stats.nstats.size + UInt64.ofNat (S.bytes (S.after copt t base j f stats).strand.made)

/-- The first `k` executions are made, and the loop goes on after them. -/
def Runs (f : Flowop) (k : ℕ) : Prop :=
  ∀ i < k, ¬ S.SignalledAt i ∧ (f.options.foCanfail = true ∨ 0 ≤ S.returns i)

/-- The last of the first `k` values, or 0 if it is negative or there is none. -/
def lastBytes (k : ℕ) : ℕ := if k = 0 then 0 else (S.returns (k - 1)).toNatClampNeg

/-- What the bytes of a flowop must be for the record to be right: a multiple of
`2 ^ 64` when a signal comes before the last execution; a multiple of it together
with the product of the error and the number of executions before it when an
execution fails; and otherwise the last value times the count. -/
def Regular (f : Flowop) : Prop :=
  (∃ k < f.options.count.toNat, S.Runs f k ∧ S.SignalledAt k ∧ 2 ^ 64 ∣ S.bytes k) ∨
  (∃ k < f.options.count.toNat, S.Runs f k ∧ ¬ S.SignalledAt k ∧ f.options.foCanfail = false ∧
    S.returns k < 0 ∧ 2 ^ 64 ∣ S.bytes k + k * (S.returns k).toInt.natAbs) ∨
  (S.Runs f f.options.count.toNat ∧
    S.bytes f.options.count.toNat ≡
      f.options.count.toNat * S.lastBytes f.options.count.toNat [MOD 2 ^ 64])

/-! ## The loop -/

variable {S} {copt : UInt32} {t base j : ℕ} {f : Flowop} {st : StatState ScriptState}

/-- How the loop over `count` executions ends: with what it returns, and with how many
executions made. -/
inductive Ends (S : Script) (f : Flowop) (count : ℕ) : Option (Int32 × UInt64) → ℕ → Prop
  | signalled {k : ℕ} (hk : k < count) (hruns : S.Runs f k) (hsignal : S.SignalledAt k) :
      Ends S f count none k
  | failed {k : ℕ} (hk : k < count) (hruns : S.Runs f k) (hno : ¬ S.SignalledAt k)
      (hcanfail : f.options.foCanfail = false) (hneg : S.returns k < 0) :
      Ends S f count (some (S.returns k, UInt64.ofNat k)) (k + 1)
  | finished {ret : Int32} (hruns : S.Runs f count) (hret : 0 ≤ ret)
      (hlast : ret.toNatClampNeg = S.lastBytes count) :
      Ends S f count (some (ret, UInt64.ofNat count)) count

theorem runFrom_signalled :
    (withStats S.machine S.clock copt t base).signalled.runFrom st =
      (some (decide (S.SignalledAt st.strand.made)), st) := rfl

theorem runFrom_errno :
    (withStats S.machine S.clock copt t base).errno.runFrom st =
      (some (S.errno st.strand.made), st) := rfl

theorem runFrom_execute :
    ((withStats S.machine S.clock copt t base).execute j f).runFrom st =
      (some (S.returns st.strand.made),
        { st with strand.made := st.strand.made + 1 }) := rfl

theorem toNatClampNeg_of_neg {n : Int32} (hneg : n < 0) : n.toNatClampNeg = 0 :=
  Int.toNat_of_nonpos (Int32.lt_iff_toInt_lt.mp hneg).le

theorem Runs.succ {k : ℕ} (hruns : S.Runs f k) (hno : ¬ S.SignalledAt k)
    (hgo : f.options.foCanfail = true ∨ 0 ≤ S.returns k) : S.Runs f (k + 1) := by
  intro i hi
  rcases Nat.lt_succ_iff_lt_or_eq.mp hi with hlt | rfl
  · exact hruns i hlt
  · exact ⟨hno, hgo⟩

/-- From the execution `k` on, when the loop has got there. -/
theorem flowopLoop_ends (copt : UInt32) (t base j todo : ℕ) {k : ℕ}
    (hk : st.strand.made = k) (hruns : S.Runs f k) {ret : Int32} (hret : 0 ≤ ret)
    (hlast : ret.toNatClampNeg = S.lastBytes k) :
    ∃ done m, (flowopLoop (withStats S.machine S.clock copt t base) j f todo (UInt64.ofNat k)
        ret).runFrom st = (some done, { st with strand.made := m }) ∧
      Ends S f (k + todo) done m := by
  induction todo generalizing k ret st with
  | zero =>
      refine ⟨_, k, ?_, .finished hruns hret hlast⟩
      rw [← hk]
      rfl
  | succ todo ih =>
      have hlt : k < k + (todo + 1) := Nat.lt_add_of_pos_right (Nat.succ_pos todo)
      rw [flowopLoop, Exec.runFrom_bind, runFrom_signalled, hk]
      dsimp only
      by_cases hsignal : S.SignalledAt k
      · rw [if_pos (decide_eq_true hsignal)]
        refine ⟨none, k, ?_, .signalled hlt hruns hsignal⟩
        rw [← hk]
        rfl
      · rw [if_neg (by simpa using hsignal), Exec.runFrom_bind, runFrom_execute, hk]
        dsimp only
        have hcount : k + (todo + 1) = k + 1 + todo := by omega
        have hindex : UInt64.ofNat k + 1 = UInt64.ofNat (k + 1) := by
          rw [UInt64.ofNat_add]
          rfl
        have hnext : S.lastBytes (k + 1) = (S.returns k).toNatClampNeg := rfl
        have hmade : ({ st with strand.made := k + 1 } : StatState ScriptState).strand.made =
            k + 1 := rfl
        rw [hindex]
        by_cases hneg : S.returns k < 0
        · by_cases hcanfail : f.options.foCanfail = true
          · -- the failure is allowed, and counts as nothing
            rw [if_pos ⟨hcanfail, hneg⟩, hcount]
            refine ih hmade (hruns.succ hsignal (.inl hcanfail)) (Int32.le_refl 0) ?_
            rw [hnext, toNatClampNeg_of_neg hneg]
            rfl
          · rw [if_neg (fun h => hcanfail h.1), if_pos hneg]
            refine ⟨_, k + 1, rfl, .failed hlt hruns hsignal (by simpa using hcanfail) hneg⟩
        · rw [if_neg (fun h => hneg h.2), if_neg hneg, hcount]
          have hpos : 0 ≤ S.returns k := Int32.not_lt.mp hneg
          exact ih hmade (hruns.succ hsignal (.inr hpos)) hpos hnext.symm

/-! ## The record of the strand -/

/-- The strand has this size, after so many executions. -/
def Holds (size : UInt64) (m : ℕ) (st : StatState ScriptState) : Prop :=
  st.stats.nstats.size = size ∧ st.strand.made = m

section

variable {size : UInt64} {m : ℕ} {A : StatState ScriptState → Prop}

theorem readClock_made (time : ℕ → UInt64) :
    Exec.Triple (fun s => s.made = m) (readClock time) (fun _ s => s.made = m)
      fun _ => False := fun _ hs => hs

/-- A clock that is read only in some cases. -/
theorem ite_made (p : Prop) [Decidable p] (time : ℕ → UInt64) (value : UInt64) :
    Exec.Triple (fun s => s.made = m) (if p then readClock time else pure value)
      (fun _ s => s.made = m) fun _ => False := by
  split_ifs
  · exact readClock_made time
  · exact Exec.Triple.pure fun _ hs => hs

theorem newstatBegin_made (ns : Newstats) :
    Exec.Triple (fun s => s.made = m) (newstatBegin S.clock copt ns) (fun _ s => s.made = m)
      fun _ => False := by
  unfold newstatBegin
  refine (ite_made _ S.hrtime _).bind fun startTime => ?_
  refine (readClock_made S.hrtime).bind fun timeUsedStart => ?_
  refine (ite_made _ S.hrvtime _).bind fun cpuTimeStart => ?_
  exact Exec.Triple.pure fun _ hs => hs

theorem newstatEnd_made (ns : Newstats) (x count : UInt64) :
    Exec.Triple (fun s => s.made = m) (newstatEnd S.clock copt ns x count)
      (fun _ s => s.made = m) fun _ => False := by
  unfold newstatEnd
  refine (readClock_made S.hrtime).bind fun endTime => ?_
  refine (ite_made _ S.hrvtime _).bind fun cpuTimeStart => ?_
  exact Exec.Triple.pure fun _ hs => hs

theorem Holds.onStrand {α : Type} {x : Exec ScriptState α}
    (hx : Exec.Triple (fun s => s.made = m) x (fun _ s => s.made = m) fun _ => False) :
    Exec.Triple (Holds size m) (onStrand x) (fun _ => Holds size m) A :=
  Exec.Triple.zoom_part hx (fun _ h => h.2) fun _ _ ht h => ⟨h.1, ht⟩

theorem Holds.onEntry (ref : StatRef) {x : Newstats → Exec ScriptState Newstats}
    (hx : ∀ ns, Exec.Triple (fun s => s.made = m) (x ns) (fun _ s => s.made = m)
      fun _ => False) :
    Exec.Triple (Holds size m) (onEntry ref x) (fun _ => Holds size m) A := by
  unfold Uperf.onEntry
  refine (Exec.Triple.state fun _ h => h).bind fun st => ?_
  cases st.stats.entry ref with
  | none => exact Exec.Triple.pure fun _ h => h
  | some ns =>
      refine (Holds.onStrand (hx ns)).bind fun ns => ?_
      exact Exec.Triple.change fun _ h => h

theorem Holds.flowopBegin :
    Exec.Triple (Holds size m) ((withStats S.machine S.clock copt t base).flowopBegin j)
      (fun _ => Holds size m) A := by
  show Exec.Triple _ (statsFlowopBegin S.clock copt _) _ _
  unfold statsFlowopBegin
  split_ifs
  · exact Exec.Triple.pure fun _ h => h
  · exact Holds.onEntry _ fun ns => newstatBegin_made ns
  · exact Exec.Triple.pure fun _ h => h

theorem size_historyRecord (s : StrandStats) (h : History) :
    (historyRecord s h).nstats = s.nstats := by
  unfold historyRecord
  split_ifs
  · rfl
  · rfl

/-- The end of a flowop adds the value times the count. -/
theorem Holds.flowopEnd (hstats : enabled copt noStats = false) (x count : UInt64) :
    Exec.Triple (Holds size m) ((withStats S.machine S.clock copt t base).flowopEnd j x count)
      (fun _ => Holds (size + x * count) m) (Holds (size + x * count) m) := by
  show Exec.Triple _ (statsFlowopEnd S.clock copt _ x count) _ _
  unfold statsFlowopEnd
  rw [hstats, if_neg Bool.false_ne_true]
  have hadd : Exec.Triple (Holds size m)
      (Exec.change fun st =>
        { st with stats.nstats.size := st.stats.nstats.size + x * count
                  stats.nstats.count := st.stats.nstats.count + count })
      (fun _ => Holds (size + x * count) m) (Holds (size + x * count) m) :=
    Exec.Triple.change fun _ h => ⟨congrArg (· + x * count) h.1, h.2⟩
  refine hadd.bind fun _ => ?_
  split
  · refine (Holds.onEntry _ fun ns => newstatEnd_made ns x count).bind fun _ => ?_
    split
    · refine (Exec.Triple.state fun _ h => h).bind fun st => ?_
      cases st.stats.entry _ with
      | none => exact Exec.Triple.failure fun _ h => h
      | some ns =>
          refine Exec.Triple.change fun _ h => ⟨?_, h.2⟩
          rw [size_historyRecord]
          exact h.1
    · exact Exec.Triple.pure fun _ h => h
  · exact Exec.Triple.pure fun _ h => h

/-- What `flowop_execute` does after its loop. -/
theorem Holds.flowopResult (hstats : enabled copt noStats = false) (ret : Int32) (i : UInt64) :
    Exec.Triple (Holds size m)
      (do
        let saveErrno ← (withStats S.machine S.clock copt t base).errno
        (withStats S.machine S.clock copt t base).flowopEnd j (intToUInt64 ret) i
        if saveErrno = eintr then pure .expired
        else if ← (withStats S.machine S.clock copt t base).signalled then pure .expired
        else pure (if 0 ≤ ret then TxnResult.success else .failure))
      (fun _ => Holds (size + intToUInt64 ret * i) m)
      (Holds (size + intToUInt64 ret * i) m) := by
  have hsame : ∀ {size : UInt64} {A : StatState ScriptState → Prop} {α : Type}
      {x : Exec (StatState ScriptState) α} (value : StatState ScriptState → α),
      (∀ st, x.runFrom st = (some (value st), st)) →
      Exec.Triple (Holds size m) x (fun _ => Holds size m) A := by
    intro size A α x value hx st hst
    rw [hx]
    exact hst
  refine (hsame _ fun _ => runFrom_errno).bind fun saveErrno => ?_
  refine (Holds.flowopEnd hstats _ _).bind fun _ => ?_
  split
  · exact Exec.Triple.pure fun _ h => h
  · refine (hsame _ fun _ => runFrom_signalled).bind fun signalled => ?_
    split
    · exact Exec.Triple.pure fun _ h => h
    · exact Exec.Triple.pure fun _ h => h

end

/-- What the end of the loop adds to the size of the strand. -/
def added : Option (Int32 × UInt64) → UInt64
  | none => 0
  | some (ret, i) => intToUInt64 ret * i

theorem after_ends (hstats : enabled copt noStats = false) (S : Script) (t base j : ℕ)
    (f : Flowop) (stats : StrandStats) :
    ∃ done m, Ends S f f.options.count.toNat done m ∧
      Holds (stats.nstats.size + added done) m (S.after copt t base j f stats) := by
  have hstart : Holds stats.nstats.size 0
      ({ strand := {}, stats } : StatState ScriptState) := ⟨rfl, rfl⟩
  have hflowopBegin : Exec.Triple (Holds stats.nstats.size 0)
      ((withStats S.machine S.clock copt t base).flowopBegin j)
      (fun _ => Holds stats.nstats.size 0) fun _ => False := Holds.flowopBegin
  obtain ⟨_, st, hbegin, hsize, hmade⟩ := hflowopBegin.exists_result hstart
  obtain ⟨done, m, hloop, hends⟩ := flowopLoop_ends copt t base j
    f.options.count.toNat hmade (fun i hi => absurd hi (Nat.not_lt_zero i)) (Int32.le_refl 0) rfl
  rw [Nat.zero_add] at hends
  refine ⟨done, m, hends, ?_⟩
  have hst : Holds stats.nstats.size m { st with strand.made := m } := ⟨hsize, rfl⟩
  have hzero : UInt64.ofNat 0 = 0 := rfl
  rw [hzero] at hloop
  rw [after, flowopExecute, Exec.runFrom_bind, hbegin]
  dsimp only
  rw [Exec.runFrom_bind, hloop]
  rcases done with _ | ⟨ret, i⟩
  · rw [added, add_zero]
    exact hst
  · exact (Holds.flowopResult hstats ret i).left hst

/-! ## The sum of the values -/

section

variable {k m : ℕ}

theorem bytes_succ_of_neg (hneg : S.returns k < 0) : S.bytes (k + 1) = S.bytes k := by
  rw [bytes, Finset.sum_range_succ, toNatClampNeg_of_neg hneg, Nat.add_zero]
  rfl

theorem ofNat_eq_zero_iff (n : ℕ) : UInt64.ofNat n = 0 ↔ 2 ^ 64 ∣ n := by
  rw [← UInt64.toNat_inj, UInt64.toNat_ofNat', Nat.dvd_iff_mod_eq_zero]
  rfl

theorem intToUInt64_of_nonneg {n : Int32} (hn : 0 ≤ n) :
    intToUInt64 n = UInt64.ofNat n.toNatClampNeg := by
  have hwide : 0 ≤ n.toInt64 := by
    rw [Int64.le_iff_toInt_le, Int32.toInt_toInt64]
    exact Int32.le_iff_toInt_le.mp hn
  have hvalue : (intToUInt64 n).toNat = n.toNatClampNeg := by
    rw [intToUInt64, Int64.toNat_toUInt64_of_le hwide, Int32.toNatClampNeg_toInt64]
  rw [← hvalue, UInt64.ofNat_toNat]

theorem intToUInt64_of_neg {n : Int32} (hn : n < 0) :
    intToUInt64 n = -UInt64.ofNat n.toInt.natAbs := by
  have hbound := n.le_toInt
  have hneg : n.toInt < 0 := Int32.lt_iff_toInt_lt.mp hn
  have hwide : n.toInt64 = -Int64.ofNat n.toInt.natAbs := by
    rw [← Int64.toInt_inj, Int32.toInt_toInt64, Int64.toInt_neg_ofNat_of_le (by omega)]
    omega
  rw [intToUInt64, hwide, Int64.toUInt64_neg]
  rfl

/-- The loop is over before the execution `k`, or with it. -/
def Stops (S : Script) (f : Flowop) (k : ℕ) : Prop :=
  S.SignalledAt k ∨ (f.options.foCanfail = false ∧ S.returns k < 0)

theorem Runs.not_stops (hruns : S.Runs f m) (hk : k < m) : ¬ S.Stops f k := by
  rintro (hsignal | ⟨hcanfail, hneg⟩)
  · exact (hruns k hk).1 hsignal
  · rcases (hruns k hk).2 with hallowed | hpos
    · rw [hcanfail] at hallowed
      cases hallowed
    · exact Int32.not_lt.mpr hpos hneg

/-- The loop stops once. -/
theorem Stops.unique (hk : S.Stops f k) (hkruns : S.Runs f k) (hm : S.Stops f m)
    (hmruns : S.Runs f m) : k = m := by
  rcases Nat.lt_trichotomy k m with hlt | heq | hgt
  · exact absurd hk (hmruns.not_stops hlt)
  · exact heq
  · exact absurd hm (hkruns.not_stops hgt)

end

/-- The strand's record grows by the bytes of the flowop exactly if they are regular. -/
theorem flowopExecute_accounts_iff (hstats : enabled copt noStats = false) (S : Script)
    (t base j : ℕ) (f : Flowop) (stats : StrandStats) :
    S.Accounts copt t base j f stats ↔ S.Regular f := by
  obtain ⟨done, m, hends, hsize, hmade⟩ := after_ends hstats S t base j f stats
  rw [Accounts, hsize, hmade, add_right_inj, Regular]
  cases hends with
  | signalled hk hruns hsignal =>
      rw [added, eq_comm, ofNat_eq_zero_iff]
      constructor
      · exact fun hdvd => .inl ⟨m, hk, hruns, hsignal, hdvd⟩
      · rintro (⟨i, hi, hiruns, hisignal, hdvd⟩ | ⟨i, hi, hiruns, hno, hican, hineg, -⟩ | ⟨hall, -⟩)
        · rwa [Stops.unique (.inl hsignal) hruns (.inl hisignal) hiruns]
        · rw [Stops.unique (.inr ⟨hican, hineg⟩) hiruns (.inl hsignal) hruns] at hno
          exact absurd hsignal hno
        · exact absurd (.inl hsignal) (hall.not_stops hk)
  | @failed k hk hruns hno hcanfail hneg =>
      rw [added, intToUInt64_of_neg hneg, bytes_succ_of_neg hneg, neg_mul, ← UInt64.ofNat_mul,
        neg_eq_iff_add_eq_zero, ← UInt64.ofNat_add, ofNat_eq_zero_iff, add_comm,
        mul_comm (S.returns k).toInt.natAbs]
      constructor
      · exact fun hdvd => .inr (.inl ⟨k, hk, hruns, hno, hcanfail, hneg, hdvd⟩)
      · rintro (⟨i, hi, hiruns, hisignal, -⟩ | ⟨i, hi, hiruns, -, hican, hineg, hdvd⟩ | ⟨hall, -⟩)
        · rw [Stops.unique (.inl hisignal) hiruns (.inr ⟨hcanfail, hneg⟩) hruns] at hisignal
          exact absurd hisignal hno
        · rwa [Stops.unique (.inr ⟨hcanfail, hneg⟩) hruns (.inr ⟨hican, hineg⟩) hiruns]
        · exact absurd (.inr ⟨hcanfail, hneg⟩) (hall.not_stops hk)
  | @finished ret hruns hret hlast =>
      rw [added, intToUInt64_of_nonneg hret, hlast, ← UInt64.ofNat_mul, eq_comm, ofNat_eq_iff,
        mul_comm (S.lastBytes _)]
      constructor
      · exact fun hsum => .inr (.inr ⟨hruns, hsum⟩)
      · rintro (⟨i, hi, hiruns, hisignal, -⟩ | ⟨i, hi, hiruns, -, hican, hineg, -⟩ | ⟨-, hsum⟩)
        · exact absurd (.inl hisignal) (hruns.not_stops hi)
        · exact absurd (.inr ⟨hican, hineg⟩) (hruns.not_stops hi)
        · exact hsum

/-- A flowop that is not interrupted and returns the same number of bytes each time. -/
theorem regular_of_uniform (hsignal : S.signal = none) {size : Int32} (hsize : 0 ≤ size)
    (hreturns : ∀ k, S.returns k = size) (f : Flowop) : S.Regular f := by
  refine .inr (.inr ⟨fun k _ => ⟨?_, .inr (by rwa [hreturns])⟩, ?_⟩)
  · rintro ⟨s, hs, -⟩
    rw [hsignal] at hs
    cases hs
  · have hbytes : S.bytes f.options.count.toNat =
        f.options.count.toNat * size.toNatClampNeg := by
      simp [bytes, hreturns]
    rw [hbytes, lastBytes]
    split_ifs with hzero
    · rw [hzero, Nat.zero_mul]
    · rw [hreturns]

/-- Three reads of a flowop. -/
def threeReads : Flowop := { type := .read, options := { count := 3 } }

theorem flowopExecute_accounts_threeReads :
    ({ returns := fun _ => 8 } : Script).Accounts flowopStats 0 0 0 threeReads {} :=
  (flowopExecute_accounts_iff (by decide) _ 0 0 0 threeReads {}).mpr
    (regular_of_uniform rfl (by decide) (fun _ => rfl) threeReads)

/-- The second of three reads fails: the record of the strand goes down by 1, although
the first has returned 8. -/
theorem not_accounts_failing :
    ¬ ({ returns := fun k => if k = 1 then -1 else 8 } : Script).Accounts flowopStats 0 0 0
      threeReads {} := by
  unfold Accounts
  decide

end Script

end Uperf
