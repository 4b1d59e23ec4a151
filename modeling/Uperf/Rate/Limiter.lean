import Uperf.Doubles

/-!
# The rate limiter

`rate_delta` calls the transaction a number of times and sleeps for what is left of
half a second.  The clock, the transaction and `uperf_sleep` are given by what their
successive calls return.  The end of the interval is computed in `double`, and the
time left is a difference of unsigned numbers: `rateDelta_sleeps_iff` says for which
clock readings the sleep is no longer than the interval.
-/

namespace Uperf

open Lib

/-! ## The functions -/

/-- What the calls of `GETHRTIME`, of the callback and of `uperf_sleep` return, by
their number. -/
structure RateEnv where
  now : ℕ → UInt64
  callback : ℕ → Int32
  sleep : ℕ → Int32

/-- How often the clock and the callback were called, the times passed to
`uperf_sleep`, and how many intervals have expired before all their calls were made. -/
structure RateState where
  reads : ℕ := 0
  calls : ℕ := 0
  slept : List UInt64 := []
  early : ℕ := 0

/-- `INTERVALS_PER_SEC`. -/
def intervalsPerSec : ℕ := 2

/-- One interval in nanoseconds. -/
def interval : ℕ := 10 ^ 9 / intervalsPerSec

/-- `TIME_EXPIRED (A)` when the clock says `now`. -/
def timeExpired (now a : UInt64) : Bool := now.toNat >>> 10 > a.toNat >>> 10

/-- `local_stop`, a sum of doubles; there is none if the sum is too large for a
`hrtime_t`. -/
def localStop (now : UInt64) : Option UInt64 :=
  let stop := toDouble (toDouble now.toNat + toDouble (10 ^ 9 / intervalsPerSec))
  if stop < 2 ^ 64 then some (uint64OfFloat stop) else none

/-- `per_loop`. -/
def perLoop (rate : Int32) : ℕ :=
  let perLoop := rate.toInt / intervalsPerSec
  if perLoop = 0 then 1 else perLoop.toNat

/-- The loop of `rate_delta` with that many rounds to go. -/
def rateLoop (env : RateEnv) (stop : UInt64) : ℕ → RateState → Int32 × RateState
  | 0, st => (0, st)
  | n + 1, st =>
      let now := env.now st.reads
      let st := { st with reads := st.reads + 1 }
      if timeExpired now stop then (0, { st with early := st.early + 1 })
      else
        let ret := env.callback st.calls
        let st := { st with calls := st.calls + 1 }
        if ret ≠ 0 then (ret, st) else rateLoop env stop n st

/-- `uperf_sleep`. -/
def RateEnv.uperfSleep (env : RateEnv) (duration : UInt64) (st : RateState) : Int32 × RateState :=
  (env.sleep st.slept.length, { st with slept := st.slept ++ [duration] })

/-- `rate_delta`; there is no result if the assertion fails or a conversion is not
defined. -/
def rateDelta (env : RateEnv) (rate : Int32) (st : RateState) : Option (Int32 × RateState) :=
  if rate ≤ 0 then none
  else do
    let stop ← localStop (env.now st.reads)
    let (ret, st) := rateLoop env stop (perLoop rate) { st with reads := st.reads + 1 }
    if ret ≠ 0 then some (ret, st)
    else
      let sleepTime := stop - env.now st.reads
      let st := { st with reads := st.reads + 1 }
      if sleepTime > 2000 then some (env.uperfSleep sleepTime st) else some (0, st)

/-! ## The end of the interval -/

theorem toDouble_interval : toDouble (10 ^ 9 / intervalsPerSec) = (interval : ℚ) := by
  have hvalue : (10 ^ 9 / intervalsPerSec : ℚ) = ((500000000 : ℕ) : ℚ) := by
    norm_num [intervalsPerSec]
  rw [hvalue, toDouble, roundTo_natCast (by norm_num)]
  rfl

/-- A reading as a double, in the upper half of the range. -/
theorem toDouble_of_high {t : ℕ} (hhigh : 2 ^ 63 ≤ t) (hlt : t < 2 ^ 64) :
    ∃ n : ℤ, toDouble t = n * 2048 ∧ |toDouble t - t| ≤ 1024 := by
  have hpos : 0 < t := by omega
  have hne : (t : ℚ) ≠ 0 := Nat.cast_ne_zero.mpr hpos.ne'
  have habs : |(t : ℚ)| = t := abs_of_nonneg t.cast_nonneg
  have hlog : Int.log 2 |(t : ℚ)| = 63 := by
    rw [habs, Int.log_natCast]
    exact_mod_cast Nat.log_eq_of_pow_le_of_lt_pow hhigh hlt
  obtain ⟨n, hn, hle⟩ := exists_roundTo_eq 53 hne
  rw [hlog] at hn hle
  norm_num at hn hle
  exact ⟨n, hn, hle⟩

/-- The sum of doubles, if it is in the range of a `hrtime_t`. -/
theorem toDouble_sum_near {t : ℕ} (ht : t < 2 ^ 64)
    (hsum : toDouble (toDouble t + interval) < 2 ^ 64) :
    |toDouble (toDouble t + interval) - (t + interval)| ≤ 1792 := by
  have hinterval : (interval : ℚ) = 500000000 := by norm_num [interval, intervalsPerSec]
  rw [hinterval] at hsum ⊢
  rcases Nat.lt_or_ge t (2 ^ 63) with hlow | hhigh
  · -- both roundings are to numbers that are close
    have ht' : |(t : ℚ)| < 2 ^ (63 : ℤ) := by
      rw [abs_of_nonneg t.cast_nonneg]
      exact_mod_cast hlow
    have hfirst : |toDouble t - t| ≤ 512 :=
      (abs_roundTo_sub_le_of_lt ht').trans (by norm_num)
    have hbounds := abs_le.mp hfirst
    have hnonneg : (0 : ℚ) ≤ t := t.cast_nonneg
    have hlow' : (t : ℚ) < 2 ^ 63 := by exact_mod_cast hlow
    have hq : |toDouble t + 500000000| < 2 ^ (64 : ℤ) := by
      have hpow : (2 : ℚ) ^ (64 : ℤ) = 2 * 2 ^ 63 := by norm_num
      rw [hpow, abs_lt]
      constructor <;> linarith
    have hsecond : |toDouble (toDouble t + 500000000) - (toDouble t + 500000000)| ≤ 1024 :=
      (abs_roundTo_sub_le_of_lt hq).trans (by norm_num)
    have hbounds' := abs_le.mp hsecond
    rw [abs_le]
    constructor <;> linarith
  · -- both roundings are to multiples of 2048, and the interval is no such multiple
    obtain ⟨n, hn, hfirst⟩ := toDouble_of_high hhigh ht
    have hbounds := abs_le.mp hfirst
    have hge : (2 : ℚ) ^ (63 : ℤ) ≤ toDouble t :=
      zpow_le_roundTo (by norm_num) (by exact_mod_cast hhigh)
    have hpos : 0 < toDouble t + 500000000 := by
      have : (0 : ℚ) < 2 ^ (63 : ℤ) := by norm_num
      linarith
    have hlt : toDouble t + 500000000 < 2 ^ (64 : ℤ) := by
      by_contra hge'
      exact absurd (zpow_le_roundTo (by norm_num) (not_lt.mp hge')) (not_le.mpr hsum)
    have hlog : Int.log 2 |toDouble t + 500000000| = 63 := by
      rw [abs_of_pos hpos]
      apply le_antisymm
      · exact Int.lt_add_one_iff.mp ((Int.lt_zpow_iff_log_lt one_lt_two hpos).mp
          (by exact_mod_cast hlt))
      · refine (Int.zpow_le_iff_le_log one_lt_two hpos).mp ?_
        have : (2 : ℚ) ^ (63 : ℤ) ≤ toDouble t + 500000000 := by linarith
        exact_mod_cast this
    obtain ⟨m, hm, hsecond⟩ := exists_roundTo_eq 53 hpos.ne'
    rw [hlog] at hm hsecond
    rw [← toDouble] at hm hsecond
    norm_num at hm hsecond
    have hbounds' := abs_le.mp hsecond
    rw [hm, hn] at hbounds'
    have hm' : m = n + 244141 := by
      have hlow : (n : ℚ) * 2048 + 500000000 - 1024 ≤ m * 2048 := by linarith
      have hup : (m : ℚ) * 2048 ≤ n * 2048 + 500000000 + 1024 := by linarith
      have hlow' : n * 2048 + 500000000 - 1024 ≤ m * 2048 := by exact_mod_cast hlow
      have hup' : m * 2048 ≤ n * 2048 + 500000000 + 1024 := by exact_mod_cast hup
      omega
    rw [hm, hm']
    push_cast
    rw [hn] at hbounds
    rw [abs_le]
    constructor <;> linarith

/-- The end of the interval is the beginning and half a second, up to rounding. -/
theorem localStop_near {now stop : UInt64} (hstop : localStop now = some stop) :
    |(stop.toNat : ℤ) - (now.toNat + interval)| ≤ 1792 := by
  unfold localStop at hstop
  rw [toDouble_interval] at hstop
  dsimp only at hstop
  split at hstop
  · rename_i hlt
    cases hstop
    have hnear := abs_le.mp (toDouble_sum_near now.toNat_lt hlt)
    have hinterval : (interval : ℚ) = 500000000 := by norm_num [interval, intervalsPerSec]
    have hnonneg : (0 : ℚ) ≤ toDouble (toDouble now.toNat + interval) := by
      have : (0 : ℚ) ≤ now.toNat := now.toNat.cast_nonneg
      linarith
    rw [toNat_uint64OfFloat hnonneg hlt, abs_le]
    constructor
    · have hfloor : (now.toNat + interval : ℤ) - 1792 ≤
          ⌊toDouble (toDouble now.toNat + interval)⌋ := by
        rw [Int.le_floor]
        push_cast
        linarith
      omega
    · have hfloor := Int.floor_le (toDouble (toDouble now.toNat + interval))
      have hup : (⌊toDouble (toDouble now.toNat + interval)⌋ : ℚ) ≤
          ((now.toNat + interval + 1792 : ℤ) : ℚ) := by
        push_cast
        linarith
      have := Int.cast_le.mp hup
      omega
  · cases hstop

/-- A reading of less than `2 ^ 53` and its end are not rounded. -/
theorem localStop_of_small {now : UInt64} (hnow : now.toNat + interval < 2 ^ 53) :
    localStop now = some (UInt64.ofNat (now.toNat + interval)) := by
  have hfirst : toDouble now.toNat = now.toNat := roundTo_natCast (by omega)
  have hsecond : toDouble (now.toNat + interval) = (now.toNat + interval : ℕ) := by
    rw [← Nat.cast_add]
    exact roundTo_natCast hnow
  unfold localStop
  rw [toDouble_interval, hfirst, hsecond]
  dsimp only
  have hlt : ((now.toNat + interval : ℕ) : ℚ) < 2 ^ 64 := by
    have : now.toNat + interval < 2 ^ 64 := by omega
    exact_mod_cast this
  rw [if_pos hlt, uint64OfFloat, if_pos (Nat.cast_nonneg _), Int.floor_natCast]
  refine congrArg some (UInt64.toNat_inj.mp ?_)
  rw [UInt64.ofInt, UInt64.toNat_ofNat', UInt64.toNat_ofNat']
  generalize now.toNat + interval = n
  omega

/-! ## The time slept -/

/-- `rate_delta` asks for no more sleep than one interval, and for none if the last
reading of the clock, after the calls, is an interval or more behind the first. -/
def SleepsWithin (env : RateEnv) (rate : Int32) (st : RateState) : Prop :=
  ∃ ret st', rateDelta env rate st = some (ret, st') ∧
    (∀ duration ∈ st'.slept.drop st.slept.length, duration.toNat ≤ interval) ∧
    ((env.now st.reads).toNat + interval ≤ (env.now (st'.reads - 1)).toNat →
      st'.slept = st.slept)

/-- The calls of one interval are over in time: all are made and succeed, the clock
is then not past the end of the interval, and the end is no more than an interval
away; or one of them fails. -/
def CallsInTime (env : RateEnv) (rate : Int32) (stop : UInt64) (st : RateState) : Prop :=
  let (ret, after) := rateLoop env stop (perLoop rate) { st with reads := st.reads + 1 }
  ret = 0 → (env.now after.reads).toNat ≤ stop.toNat ∧
    stop.toNat ≤ (env.now after.reads).toNat + interval

variable {env : RateEnv} {rate : Int32} {st : RateState}

theorem slept_rateLoop (stop : UInt64) (n : ℕ) (st : RateState) :
    (rateLoop env stop n st).2.slept = st.slept := by
  induction n generalizing st with
  | zero => rfl
  | succ n ih =>
      rw [rateLoop]
      dsimp only
      split
      · rfl
      · split
        · rfl
        · exact ih _

/-- The difference of two readings is the time between them, or wraps. -/
theorem toNat_sub_cases (stop finish : UInt64) :
    (finish.toNat ≤ stop.toNat ∧ (stop - finish).toNat = stop.toNat - finish.toNat) ∨
      (stop.toNat < finish.toNat ∧
        (stop - finish).toNat = 2 ^ 64 + stop.toNat - finish.toNat) := by
  have hstop := stop.toNat_lt
  have hfinish := finish.toNat_lt
  rw [UInt64.toNat_sub]
  omega

theorem sleepsWithin_iff_of_result {ret : Int32} {st' : RateState}
    (hresult : rateDelta env rate st = some (ret, st')) :
    SleepsWithin env rate st ↔
      (∀ duration ∈ st'.slept.drop st.slept.length, duration.toNat ≤ interval) ∧
        ((env.now st.reads).toNat + interval ≤ (env.now (st'.reads - 1)).toNat →
          st'.slept = st.slept) := by
  constructor
  · rintro ⟨ret₁, st₁, hresult₁, hwithin⟩
    rw [hresult] at hresult₁
    cases hresult₁
    exact hwithin
  · exact fun hwithin => ⟨ret, st', hresult, hwithin⟩

theorem sleepsWithin_iff_of_stop (hrate : 0 < rate) {stop : UInt64}
    (hstop : localStop (env.now st.reads) = some stop) :
    SleepsWithin env rate st ↔ CallsInTime env rate stop st := by
  have hnear := abs_le.mp (localStop_near hstop)
  have hinterval : interval = 500000000 := rfl
  have hslept : (rateLoop env stop (perLoop rate) { st with reads := st.reads + 1 }).2.slept =
      st.slept := slept_rateLoop _ _ _
  have hdelta : rateDelta env rate st = _ := if_neg (Int32.not_le.mpr hrate)
  rw [hstop] at hdelta
  simp only [Option.bind_eq_bind, Option.bind_some] at hdelta
  unfold CallsInTime
  generalize rateLoop env stop (perLoop rate) { st with reads := st.reads + 1 } = result
    at hslept hdelta ⊢
  obtain ⟨ret, after⟩ := result
  dsimp only at hslept hdelta ⊢
  by_cases hret : ret = 0
  · rw [if_neg (not_not_intro hret)] at hdelta
    have hlimit : (2000 : UInt64).toNat = 2000 := rfl
    have hdiff := toNat_sub_cases stop (env.now after.reads)
    have hlast := (env.now after.reads).toNat_lt
    split at hdelta
    · rename_i hlong
      rw [gt_iff_lt, UInt64.lt_iff_toNat_lt, hlimit] at hlong
      rw [sleepsWithin_iff_of_result hdelta]
      simp only [hret, hslept, forall_const, List.drop_left, List.mem_singleton, forall_eq,
        Nat.add_sub_cancel, List.append_right_eq_self, List.cons_ne_nil, imp_false, not_le]
      omega
    · rename_i hshort
      rw [gt_iff_lt, UInt64.lt_iff_toNat_lt, hlimit] at hshort
      rw [sleepsWithin_iff_of_result hdelta]
      simp only [hret, hslept, forall_const, List.drop_length, List.not_mem_nil, false_implies,
        implies_true, true_and, true_iff]
      omega
  · rw [if_pos hret] at hdelta
    rw [sleepsWithin_iff_of_result hdelta]
    simp [hret, hslept]

/-- The limiter sleeps within its interval exactly if its end can be computed and the
calls are over by then. -/
theorem rateDelta_sleeps_iff (env : RateEnv) (rate : Int32) (hrate : 0 < rate) (st : RateState) :
    SleepsWithin env rate st ↔
      ∃ stop, localStop (env.now st.reads) = some stop ∧ CallsInTime env rate stop st := by
  cases hstop : localStop (env.now st.reads) with
  | none =>
      apply iff_of_false
      · rintro ⟨ret, st', hresult, -⟩
        rw [rateDelta, if_neg (Int32.not_le.mpr hrate), hstop] at hresult
        cases hresult
      · simp
  | some stop =>
      rw [sleepsWithin_iff_of_stop hrate hstop]
      simp

/-! ## Clocks -/

/-- A clock that stands still and calls that succeed. -/
def idleEnv : RateEnv where
  now _ := 0
  callback _ := 0
  sleep _ := 0

theorem localStop_zero : localStop 0 = some 500000000 := localStop_of_small (by decide)

theorem rateDelta_sleeps_idle : SleepsWithin idleEnv 2 {} :=
  (rateDelta_sleeps_iff idleEnv 2 (by decide) {}).mpr
    ⟨500000000, localStop_zero, fun _ => by decide⟩

/-- The only call of the interval takes 600 ms. -/
def slowEnv : RateEnv where
  now k := if k < 2 then 0 else 600000000
  callback _ := 0
  sleep _ := 0

/-- The interval is used up, and the limiter asks for a sleep of `2 ^ 64` ns less the
time that it is late. -/
theorem not_sleepsWithin_slow : ¬ SleepsWithin slowEnv 2 {} := by
  have hnow : slowEnv.now ({} : RateState).reads = 0 := rfl
  have hstop : localStop (slowEnv.now ({} : RateState).reads) = some 500000000 := by
    rw [hnow, localStop_zero]
  rw [sleepsWithin_iff_of_stop (by decide) hstop, CallsInTime]
  decide

end Uperf
