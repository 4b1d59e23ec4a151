import Uperf.Rate.Limiter

/-!
# How often the limiters call

`rate_execute_1s` splits the rate evenly over the intervals of a second and sleeps
between them; `rate_execute_1s_busywait` calls whenever the next multiple of the time
between two calls has passed.  Both round: the first makes an even number of calls
when nothing disturbs it, and the second takes a time that is too short unless the
rate divides the nanoseconds of a second.  `honoursRate_iff` says for which rates and
clocks neither shows.
-/

namespace Uperf

open Lib

/-! ## The functions -/

/-- The loop of `rate_execute_1s` with that many intervals to go. -/
def rateIntervals (env : RateEnv) (rate : Int32) : ℕ → RateState → Option (Int32 × RateState)
  | 0, st => some (0, st)
  | n + 1, st => do
      let (ret, st) ← rateDelta env rate st
      if ret ≠ 0 then some (ret, st) else rateIntervals env rate n st

/-- `rate_execute_1s`. -/
def rateExecute1s (env : RateEnv) (rate : Int32) (st : RateState) : Option (Int32 × RateState) :=
  if rate ≤ 0 then none
  else do
    let start := env.now st.reads
    let (ret, st) ← rateIntervals env rate intervalsPerSec { st with reads := st.reads + 1 }
    if ret ≠ 0 then some (ret, st)
    else
      let spent := toDouble (env.now st.reads - start).toNat
      let st := { st with reads := st.reads + 1 }
      if spent < 10 ^ 9 then some (env.uperfSleep (uint64OfFloat (toDouble (10 ^ 9 - spent))) st)
      else some (ret, st)

/-- The variable `interval` of `rate_execute_1s_busywait`. -/
def busyInterval (rate : Int32) : ℤ := intOfDouble (toDouble (10 ^ 9 / rate.toInt))

/-- The loop of `rate_execute_1s_busywait` for that many rounds; without a result it
is not over then.  The clock was last read as `now`. -/
def busywaitLoop (env : RateEnv) (rate : Int32) (start : UInt64) :
    ℕ → UInt64 → ℕ → RateState → Option Int32 × RateState
  | 0, _, _, st => (none, st)
  | rounds + 1, now, i, st =>
      if toDouble (now - start).toNat < 10 ^ 9 then
        if busyInterval rate * i ≤ (now - start).toNat then
          let ret := env.callback st.calls
          let st := { st with calls := st.calls + 1 }
          if ret ≠ 0 then (some ret, st)
          else
            busywaitLoop env rate start rounds (env.now st.reads) (i + 1)
              { st with reads := st.reads + 1 }
        else
          busywaitLoop env rate start rounds (env.now st.reads) i
            { st with reads := st.reads + 1 }
      else (some 0, st)

/-- `rate_execute_1s_busywait` up to that many rounds of its loop. -/
def rateExecute1sBusywait (env : RateEnv) (rate : Int32) (rounds : ℕ) (st : RateState) :
    Option Int32 × RateState :=
  busywaitLoop env rate (env.now st.reads) rounds (env.now (st.reads + 1)) 0
    { st with reads := st.reads + 2 }

/-! ## One interval -/

/-- All calls succeed. -/
def RateEnv.Succeeds (env : RateEnv) : Prop := ∀ k, env.callback k = 0

/-- An interval that begins with reading `base` expires before all its `n` calls. -/
def Expires (env : RateEnv) (base n : ℕ) : Prop :=
  ∃ stop, localStop (env.now base) = some stop ∧
    ∃ i < n, timeExpired (env.now (base + 1 + i)) stop = true

/-- The sleep after all the calls of such an interval is the `k`-th, and fails. -/
def Interrupted (env : RateEnv) (base n k : ℕ) : Prop :=
  ∃ stop, localStop (env.now base) = some stop ∧ stop - env.now (base + n + 1) > 2000 ∧
    env.sleep k ≠ 0

section

variable {env : RateEnv} (hok : env.Succeeds)
include hok

/-- The loop makes all its calls, or is left when the time has expired. -/
theorem rateLoop_cases (stop : UInt64) (n : ℕ) (st : RateState) :
    ((∀ i < n, timeExpired (env.now (st.reads + i)) stop = false) ∧
        rateLoop env stop n st =
          (0, { st with reads := st.reads + n, calls := st.calls + n })) ∨
      ∃ i < n, timeExpired (env.now (st.reads + i)) stop = true ∧
        rateLoop env stop n st =
          (0, { st with
            reads := st.reads + i + 1, calls := st.calls + i, early := st.early + 1 }) := by
  induction n generalizing st with
  | zero => exact .inl ⟨by simp, rfl⟩
  | succ n ih =>
      rw [rateLoop]
      dsimp only
      cases hexpired : timeExpired (env.now st.reads) stop with
      | true => exact .inr ⟨0, Nat.succ_pos n, hexpired, by simp⟩
      | false =>
          rw [if_neg Bool.false_ne_true, if_neg (not_not_intro (hok _))]
          rcases ih { st with reads := st.reads + 1, calls := st.calls + 1 } with
            ⟨hall, heq⟩ | ⟨i, hi, hi', heq⟩
          · refine .inl ⟨fun i hi => ?_, ?_⟩
            · cases i with
              | zero => exact hexpired
              | succ i =>
                  have := hall i (by omega)
                  rwa [Nat.add_assoc, Nat.add_comm 1 i] at this
            · rw [heq]
              simp only [Prod.mk.injEq, RateState.mk.injEq, and_true, true_and]
              omega
          · refine .inr ⟨i + 1, by omega, ?_, ?_⟩
            · rwa [show st.reads + (i + 1) = st.reads + 1 + i by omega]
            · rw [heq]
              simp only [Prod.mk.injEq, RateState.mk.injEq, and_true, true_and]
              omega

variable {rate : Int32} (hrate : 0 < rate)
include hrate

/-- What one interval does. -/
theorem rateDelta_cases {ret : Int32} {st st' : RateState}
    (hdelta : rateDelta env rate st = some (ret, st')) :
    (¬ Expires env st.reads (perLoop rate) ∧ st'.calls = st.calls + perLoop rate ∧
        st'.early = st.early ∧ st'.reads = st.reads + perLoop rate + 2 ∧
        (ret ≠ 0 ↔ Interrupted env st.reads (perLoop rate) st.slept.length)) ∨
      (Expires env st.reads (perLoop rate) ∧ st'.calls < st.calls + perLoop rate ∧
        st'.early = st.early + 1) := by
  rw [rateDelta, if_neg (Int32.not_le.mpr hrate)] at hdelta
  obtain ⟨stop, hstop, hdelta⟩ := Option.bind_eq_some_iff.mp hdelta
  rcases rateLoop_cases hok stop (perLoop rate) { st with reads := st.reads + 1 } with
    ⟨hall, hloop⟩ | ⟨i, hi, hexpired, hloop⟩
  · rw [hloop] at hdelta
    have hnot : ¬ Expires env st.reads (perLoop rate) := by
      rintro ⟨stop', hstop', i, hi, hexpired⟩
      rw [hstop] at hstop'
      cases hstop'
      exact absurd hexpired (by rw [hall i hi]; exact Bool.false_ne_true)
    have hreads : st.reads + 1 + perLoop rate = st.reads + perLoop rate + 1 := by omega
    dsimp only at hdelta
    rw [if_neg (not_not_intro rfl), hreads] at hdelta
    have hinterrupted : Interrupted env st.reads (perLoop rate) st.slept.length ↔
        stop - env.now (st.reads + perLoop rate + 1) > 2000 ∧
          env.sleep st.slept.length ≠ 0 := by
      simp [Interrupted, hstop]
    by_cases hlong : stop - env.now (st.reads + perLoop rate + 1) > 2000
    · rw [if_pos hlong] at hdelta
      cases hdelta
      refine .inl ⟨hnot, rfl, rfl, rfl, ?_⟩
      rw [hinterrupted]
      exact (and_iff_right hlong).symm
    · rw [if_neg hlong] at hdelta
      cases hdelta
      refine .inl ⟨hnot, rfl, rfl, rfl, ?_⟩
      rw [hinterrupted]
      exact iff_of_false (not_not_intro rfl) fun h => hlong h.1
  · rw [hloop] at hdelta
    have hexpires : Expires env st.reads (perLoop rate) := ⟨stop, hstop, i, hi, hexpired⟩
    dsimp only at hdelta
    rw [if_neg (not_not_intro rfl)] at hdelta
    split at hdelta
    · cases hdelta
      exact .inr ⟨hexpires, Nat.add_lt_add_left hi _, rfl⟩
    · cases hdelta
      exact .inr ⟨hexpires, Nat.add_lt_add_left hi _, rfl⟩

/-! ## A second with sleeps -/

omit hok in
/-- After its intervals `rate_execute_1s` makes no more calls. -/
theorem intervals_of_rateExecute1s {ret : Int32} {st' : RateState}
    (hexecute : rateExecute1s env rate {} = some (ret, st')) :
    ∃ ret' st, rateIntervals env rate intervalsPerSec { reads := 1 } = some (ret', st) ∧
      st'.calls = st.calls ∧ st'.early = st.early := by
  rw [rateExecute1s, if_neg (Int32.not_le.mpr hrate)] at hexecute
  obtain ⟨⟨ret', st⟩, hintervals, hexecute⟩ := Option.bind_eq_some_iff.mp hexecute
  refine ⟨ret', st, hintervals, ?_⟩
  dsimp only at hexecute
  split at hexecute
  · cases hexecute
    exact ⟨rfl, rfl⟩
  · split at hexecute
    · cases hexecute
      exact ⟨rfl, rfl⟩
    · cases hexecute
      exact ⟨rfl, rfl⟩

omit hok hrate in
/-- Two intervals, or one whose sleep fails. -/
theorem rateIntervals_two_cases {ret : Int32} {st st' : RateState}
    (hintervals : rateIntervals env rate intervalsPerSec st = some (ret, st')) :
    (ret ≠ 0 ∧ rateDelta env rate st = some (ret, st')) ∨
      ∃ st₁ ret₂, rateDelta env rate st = some (0, st₁) ∧
        rateDelta env rate st₁ = some (ret₂, st') := by
  rw [intervalsPerSec, rateIntervals] at hintervals
  obtain ⟨⟨ret₁, st₁⟩, hfirst, hintervals⟩ := Option.bind_eq_some_iff.mp hintervals
  dsimp only at hintervals
  split at hintervals
  · rename_i hret
    cases hintervals
    exact .inl ⟨hret, hfirst⟩
  · rename_i hret
    rw [not_not] at hret
    subst hret
    rw [rateIntervals] at hintervals
    obtain ⟨⟨ret₂, st₂⟩, hsecond, hintervals⟩ := Option.bind_eq_some_iff.mp hintervals
    dsimp only at hintervals
    split at hintervals
    · cases hintervals
      exact .inr ⟨st₁, ret, hfirst, hsecond⟩
    · cases hintervals
      exact .inr ⟨st₁, ret₂, hfirst, hsecond⟩

/-- `rate_execute_1s` makes the calls of two intervals, of which the second is left out
if the sleep of the first fails. -/
theorem rateExecute1s_cases {ret : Int32} {st' : RateState}
    (hexecute : rateExecute1s env rate {} = some (ret, st')) :
    (Expires env 1 (perLoop rate) ∧ 0 < st'.early ∧ st'.calls < 2 * perLoop rate) ∨
      (¬ Expires env 1 (perLoop rate) ∧ Interrupted env 1 (perLoop rate) 0 ∧
        st'.early = 0 ∧ st'.calls = perLoop rate) ∨
      (¬ Expires env 1 (perLoop rate) ∧ ¬ Interrupted env 1 (perLoop rate) 0 ∧
        Expires env (perLoop rate + 3) (perLoop rate) ∧ 0 < st'.early ∧
        st'.calls < 2 * perLoop rate) ∨
      (¬ Expires env 1 (perLoop rate) ∧ ¬ Interrupted env 1 (perLoop rate) 0 ∧
        ¬ Expires env (perLoop rate + 3) (perLoop rate) ∧ st'.early = 0 ∧
        st'.calls = 2 * perLoop rate) := by
  obtain ⟨ret', st, hintervals, hcalls, hearly⟩ := intervals_of_rateExecute1s hrate hexecute
  rw [hcalls, hearly]
  rcases rateIntervals_two_cases hintervals with ⟨hret, hfirst⟩ | ⟨st₁, ret₂, hfirst, hsecond⟩
  · rcases rateDelta_cases hok hrate hfirst with
      ⟨hnot, hcalls₁, hearly₁, -, hinterrupted⟩ | ⟨hexpires, hcalls₁, hearly₁⟩
    · dsimp only at hcalls₁ hearly₁
      exact .inr (.inl ⟨hnot, hinterrupted.mp hret, hearly₁, by omega⟩)
    · dsimp only at hcalls₁ hearly₁
      exact .inl ⟨hexpires, by omega, by omega⟩
  · have hcases₂ := rateDelta_cases hok hrate hsecond
    rcases rateDelta_cases hok hrate hfirst with
      ⟨hnot, hcalls₁, hearly₁, hreads₁, hinterrupted⟩ | ⟨hexpires, hcalls₁, hearly₁⟩
    · have hsleep : ¬ Interrupted env 1 (perLoop rate) 0 := fun h => hinterrupted.mpr h rfl
      have hbase : st₁.reads = perLoop rate + 3 := by
        rw [hreads₁]
        dsimp only
        omega
      rw [hbase] at hcases₂
      dsimp only at hcalls₁ hearly₁
      rcases hcases₂ with ⟨hnot₂, hcalls₂, hearly₂, -⟩ | ⟨hexpires₂, hcalls₂, hearly₂⟩
      · exact .inr (.inr (.inr ⟨hnot, hsleep, hnot₂, by omega, by omega⟩))
      · exact .inr (.inr (.inl ⟨hnot, hsleep, hexpires₂, by omega, by omega⟩))
    · dsimp only at hcalls₁ hearly₁
      refine .inl ⟨hexpires, ?_⟩
      rcases hcases₂ with ⟨-, hcalls₂, hearly₂, -⟩ | ⟨-, hcalls₂, hearly₂⟩ <;> omega

end

/-! ## The rate per interval -/

theorem perLoop_one : perLoop 1 = 1 := rfl

theorem perLoop_of_two_le {rate : Int32} (hrate : 2 ≤ rate.toInt) :
    (perLoop rate : ℤ) = rate.toInt / 2 := by
  have hne : rate.toInt / (intervalsPerSec : ℤ) ≠ 0 := by
    simp only [intervalsPerSec]
    omega
  rw [perLoop, if_neg hne]
  simp only [intervalsPerSec]
  omega

/-- `rate_execute_1s` has made no more calls than the rate says, and as many if no
interval has expired. -/
def SleepingHonours (env : RateEnv) (rate : Int32) : Prop :=
  ∃ ret st', rateExecute1s env rate {} = some (ret, st') ∧ (st'.calls : ℤ) ≤ rate.toInt ∧
    (st'.early = 0 → (st'.calls : ℤ) = rate.toInt)

/-- The first interval expires before all its calls; or its sleep fails, and the rate is
one; or it does not fail, and the rate is even or the second interval expires. -/
def SleepingFits (env : RateEnv) (rate : Int32) : Prop :=
  Expires env 1 (perLoop rate) ∨
    (Interrupted env 1 (perLoop rate) 0 ∧ rate.toInt = 1) ∨
    (¬ Interrupted env 1 (perLoop rate) 0 ∧
      (2 ∣ rate.toInt ∨ Expires env (perLoop rate + 3) (perLoop rate)))

theorem sleepingHonours_iff {env : RateEnv} (hok : env.Succeeds) {rate : Int32}
    (hrate : 0 < rate) :
    SleepingHonours env rate ↔ rateExecute1s env rate {} ≠ none ∧ SleepingFits env rate := by
  have hpos : 1 ≤ rate.toInt := Int32.lt_iff_toInt_lt.mp hrate
  have hloop : (rate.toInt = 1 ∧ perLoop rate = 1) ∨
      (2 ≤ rate.toInt ∧ (perLoop rate : ℤ) = rate.toInt / 2) := by
    rcases hpos.eq_or_lt with hone | htwo
    · left
      have : rate = 1 := Int32.toInt_inj.mp hone.symm
      rw [this]
      exact ⟨rfl, perLoop_one⟩
    · exact .inr ⟨htwo, perLoop_of_two_le htwo⟩
  cases hexecute : rateExecute1s env rate {} with
  | none => simp [SleepingHonours, hexecute]
  | some result =>
  obtain ⟨ret, st⟩ := result
  have hcases := rateExecute1s_cases hok hrate hexecute
  have honours : SleepingHonours env rate ↔
      (st.calls : ℤ) ≤ rate.toInt ∧ (st.early = 0 → (st.calls : ℤ) = rate.toInt) := by
    constructor
    · rintro ⟨ret', st', hexecute', hcalls⟩
      rw [hexecute] at hexecute'
      cases hexecute'
      exact hcalls
    · exact fun hcalls => ⟨ret, st, hexecute, hcalls⟩
  rw [honours, SleepingFits, and_iff_right (Option.some_ne_none _)]
  rcases hcases with ⟨hexpires, hearly, hcalls⟩ | ⟨hnot, hsleep, hearly, hcalls⟩ |
    ⟨hnot, hsleep, hexpires, hearly, hcalls⟩ | ⟨hnot, hsleep, hnot', hearly, hcalls⟩
  · simp only [hexpires, true_or, iff_true]
    omega
  · simp only [hnot, hsleep, true_and, not_true_eq_false, false_and, or_false, false_or]
    omega
  · simp only [hnot, hsleep, hexpires, false_and, not_false_eq_true, or_true, and_self, iff_true]
    omega
  · simp only [hnot, hsleep, hnot', false_and, false_or, not_false_eq_true, true_and, or_false]
    omega

/-! ## The time between two calls -/

theorem busyInterval_eq {rate : Int32} (hrate : 0 < rate) :
    busyInterval rate = 10 ^ 9 / rate.toInt := by
  have hpos : 0 < rate.toInt := Int32.lt_iff_toInt_lt.mp hrate
  unfold busyInterval
  generalize rate.toInt = r at hpos
  have hr : (0 : ℚ) < r := Int.cast_pos.mpr hpos
  have hone : (1 : ℚ) ≤ r := by exact_mod_cast hpos
  set q : ℚ := 10 ^ 9 / r with hq
  have hmul : q * r = 10 ^ 9 := div_mul_cancel₀ _ hr.ne'
  have hqpos : 0 < q := by positivity
  have herror : |toDouble q - q| ≤ q / 2 ^ 53 := by
    have := abs_roundTo_sub_le 53 q
    rwa [abs_of_pos hqpos] at this
  -- the error is less than the step between two quotients
  have hsmall : q / 2 ^ 53 * r < 1 := by
    rw [div_mul_eq_mul_div, hmul]
    norm_num
  have hk := Int.ediv_mul_add_emod (10 ^ 9) r
  have hmod := Int.emod_nonneg (10 ^ 9) hpos.ne'
  have hmodlt := Int.emod_lt_of_pos (10 ^ 9) hpos
  set k : ℤ := 10 ^ 9 / r with hkdef
  have hknonneg : 0 ≤ k := Int.ediv_nonneg (by norm_num) hpos.le
  have hkle : k ≤ 10 ^ 9 := Int.ediv_le_self _ (by norm_num)
  generalize (10 : ℤ) ^ 9 % r = m at hk hmod hmodlt
  have hsplit : q * r = k * r + m := by
    rw [hmul]
    exact_mod_cast hk.symm
  have habove : toDouble q < k + 1 := by
    have hstep : q / 2 ^ 53 * r < (k + 1 - q) * r := by
      have hone' : (m : ℚ) + 1 ≤ r := by exact_mod_cast hmodlt
      linarith
    have hlt := lt_of_mul_lt_mul_right hstep hr.le
    linarith [(abs_le.mp herror).2]
  have hbelow : (k : ℚ) ≤ toDouble q := by
    rcases hmod.eq_or_lt with hzero | hmpos
    · -- an exact quotient is not rounded
      have hexact : q = k.toNat := by
        have hqk : q = k := by
          refine mul_right_cancel₀ hr.ne' (hsplit.trans ?_)
          rw [← hzero, Int.cast_zero, add_zero]
        rw [hqk]
        exact_mod_cast (Int.toNat_of_nonneg hknonneg).symm
      have hround : toDouble q = q := by
        rw [hexact]
        exact roundTo_natCast (by omega)
      rw [hround, hexact]
      exact_mod_cast (Int.toNat_of_nonneg hknonneg).ge
    · have hstep : q / 2 ^ 53 * r < (q - k) * r := by
        have hone' : (1 : ℚ) ≤ m := by exact_mod_cast hmpos
        linarith
      have hlt := lt_of_mul_lt_mul_right hstep hr.le
      linarith [(abs_le.mp herror).1]
  have hrange : toDouble q < 2 ^ 31 := by
    have hk' : (k : ℚ) ≤ 10 ^ 9 := by exact_mod_cast hkle
    linarith
  rw [intOfDouble, if_pos hrange]
  exact Int.floor_eq_iff.mpr ⟨hbelow, habove⟩

/-- The test of the loop against a second, in `double`. -/
theorem toDouble_lt_iff {n : ℕ} : toDouble n < 10 ^ 9 ↔ n < 10 ^ 9 := by
  rcases Nat.lt_or_ge n (2 ^ 53) with hsmall | hlarge
  · rw [toDouble, roundTo_natCast hsmall]
    exact_mod_cast Iff.rfl
  · have hge : (2 : ℚ) ^ (53 : ℤ) ≤ toDouble n :=
      zpow_le_roundTo (by norm_num) (by exact_mod_cast hlarge)
    have hpow : (10 : ℚ) ^ 9 < 2 ^ (53 : ℤ) := by norm_num
    refine iff_of_false (not_lt.mpr (hpow.le.trans hge)) ?_
    omega

/-! ## A second of busy waiting -/

/-- The readings of the clock do not decrease. -/
def RateEnv.NonDecreasing (env : RateEnv) : Prop := ∀ j k, j ≤ k → env.now j ≤ env.now k

/-- The time from the first reading of the clock to another one. -/
def elapsed (env : RateEnv) (k : ℕ) : ℕ := (env.now k - env.now 0).toNat

/-- The calls made when the next reading is the `k`-th and `i` calls have been made,
within that many rounds. -/
def busyCalls (env : RateEnv) (rate : Int32) : ℕ → ℕ → ℕ → ℕ
  | 0, _, i => i
  | rounds + 1, k, i =>
      if elapsed env k < 10 ^ 9 then
        busyCalls env rate rounds (k + 1)
          (if busyInterval rate * i ≤ elapsed env k then i + 1 else i)
      else i

variable {env : RateEnv} {rate : Int32}

theorem calls_busywaitLoop (hok : env.Succeeds) (rounds k i : ℕ) {st : RateState}
    (hreads : st.reads = k + 1) (hcalls : st.calls = i) :
    (busywaitLoop env rate (env.now 0) rounds (env.now k) i st).2.calls =
      busyCalls env rate rounds k i := by
  induction rounds generalizing k i st with
  | zero => exact hcalls
  | succ rounds ih =>
      rw [busywaitLoop, busyCalls, ← elapsed]
      by_cases hsecond : elapsed env k < 10 ^ 9
      · rw [if_pos hsecond, if_pos (toDouble_lt_iff.mpr hsecond), hreads]
        by_cases hdue : busyInterval rate * i ≤ elapsed env k
        · rw [if_pos hdue, if_pos hdue]
          dsimp only
          rw [if_neg (not_not_intro (hok _))]
          exact ih (k + 1) (i + 1) rfl (congrArg (· + 1) hcalls)
        · rw [if_neg hdue, if_neg hdue]
          exact ih (k + 1) i rfl hcalls
      · rw [if_neg hsecond, if_neg (mt toDouble_lt_iff.mp hsecond)]
        exact hcalls

/-- The readings of the clock are such that calls can be made at each of them: the
`i`-th comes no sooner than `i` times the time between two calls. -/
structure CallTimes (env : RateEnv) (rate : Int32) (readings : List ℕ) : Prop where
  sorted : readings.Pairwise (· < ·)
  within : ∀ j ∈ readings, 0 < j ∧ elapsed env j < 10 ^ 9
  due : ∀ (i : ℕ) (hi : i < readings.length),
    10 ^ 9 / rate.toInt * i ≤ elapsed env (readings.get ⟨i, hi⟩)

/-- The clock is read at more such times within the second than the rate says. -/
def Crowded (env : RateEnv) (rate : Int32) : Prop :=
  ∃ readings : List ℕ, rate.toInt < readings.length ∧ CallTimes env rate readings

/-- Calls are made at call times. -/
theorem exists_callTimes (hrate : 0 < rate) (rounds k i : ℕ) (hk : 0 < k) {before : List ℕ}
    (hbefore : CallTimes env rate before) (hlen : before.length = i)
    (hlt : ∀ j ∈ before, j < k) :
    ∃ readings, CallTimes env rate readings ∧
      readings.length = busyCalls env rate rounds k i := by
  induction rounds generalizing k i before with
  | zero => exact ⟨before, hbefore, hlen⟩
  | succ rounds ih =>
      have hlater : ∀ j ∈ before, j < k + 1 := fun j hj => (hlt j hj).trans (Nat.lt_succ_self k)
      rw [busyCalls]
      by_cases hsecond : elapsed env k < 10 ^ 9
      · rw [if_pos hsecond]
        by_cases hdue : busyInterval rate * i ≤ elapsed env k
        · rw [if_pos hdue]
          rw [busyInterval_eq hrate] at hdue
          have hnext : CallTimes env rate (before ++ [k]) := by
            refine ⟨?_, ?_, ?_⟩
            · rw [List.pairwise_append]
              exact ⟨hbefore.sorted, List.pairwise_singleton _ _, by simpa using hlt⟩
            · intro j hj
              rcases List.mem_append.mp hj with hj | hj
              · exact hbefore.within j hj
              · rw [List.mem_singleton.mp hj]
                exact ⟨hk, hsecond⟩
            · intro n hn
              rw [List.get_eq_getElem]
              rcases Nat.lt_or_ge n before.length with hn' | hn'
              · rw [List.getElem_append_left hn']
                exact hbefore.due n hn'
              · have hlast : n = before.length := by
                  rw [List.length_append, List.length_singleton] at hn
                  omega
                subst hlast
                rw [List.getElem_append_right (le_refl _)]
                simpa [hlen] using hdue
          refine ih (k + 1) (i + 1) (Nat.succ_pos k) hnext (by simp [hlen]) ?_
          intro j hj
          rcases List.mem_append.mp hj with hj | hj
          · exact hlater j hj
          · rw [List.mem_singleton.mp hj]
            exact Nat.lt_succ_self k
        · rw [if_neg hdue]
          exact ih (k + 1) i (Nat.succ_pos k) hbefore hlen hlater
      · rw [if_neg hsecond]
        exact ⟨before, hbefore, hlen⟩

/-- There are as many calls as call times that have come. -/
theorem lt_busyCalls (hrate : 0 < rate) {readings : List ℕ} (htimes : CallTimes env rate readings)
    (rounds k i : ℕ) (hsecond : ∀ j < rounds, elapsed env (k + j) < 10 ^ 9)
    (hcalled : ∀ (n : ℕ) (hn : n < readings.length), readings.get ⟨n, hn⟩ < k → n < i) :
    ∀ (n : ℕ) (hn : n < readings.length), readings.get ⟨n, hn⟩ < k + rounds →
      n < busyCalls env rate rounds k i := by
  induction rounds generalizing k i with
  | zero => exact hcalled
  | succ rounds ih =>
      have hnow : elapsed env k < 10 ^ 9 := hsecond 0 (Nat.succ_pos _)
      rw [busyCalls, if_pos hnow, ← Nat.succ_add_eq_add_succ]
      refine ih (k + 1) _ (fun j hj => ?_) (fun n hn hlt => ?_)
      · have := hsecond (j + 1) (by omega)
        rwa [Nat.add_right_comm]
      · -- the `n`-th time has come, so the calls before it have been made
        rcases Nat.lt_succ_iff_lt_or_eq.mp hlt with hlt | heq
        · have hn' := hcalled n hn hlt
          split <;> omega
        · have hle : n ≤ i := by
            cases n with
            | zero => exact Nat.zero_le i
            | succ n =>
                have hprev : readings.get ⟨n, by omega⟩ < readings.get ⟨n + 1, hn⟩ :=
                  List.pairwise_iff_get.mp htimes.sorted _ _ (Nat.lt_succ_self n)
                exact hcalled n (by omega) (heq ▸ hprev)
          rcases hle.lt_or_eq with hlt' | rfl
          · split <;> omega
          · have hdue := htimes.due n hn
            rw [heq] at hdue
            rw [busyInterval_eq hrate, if_pos hdue]
            exact Nat.lt_succ_self n

/-- `rate_execute_1s_busywait` makes no more calls than the rate says, however long its
loop goes on. -/
def BusyHonours (env : RateEnv) (rate : Int32) : Prop :=
  ∀ rounds, ((rateExecute1sBusywait env rate rounds {}).2.calls : ℤ) ≤ rate.toInt

theorem elapsed_mono (hmono : env.NonDecreasing) {j k : ℕ} (hjk : j ≤ k) :
    elapsed env j ≤ elapsed env k := by
  have hj := hmono 0 j (Nat.zero_le j)
  have hk := hmono 0 k (Nat.zero_le k)
  have hle := UInt64.le_iff_toNat_le.mp (hmono j k hjk)
  rw [elapsed, elapsed, UInt64.toNat_sub_of_le _ _ hj, UInt64.toNat_sub_of_le _ _ hk]
  omega

theorem busyHonours_iff (hmono : env.NonDecreasing) (hok : env.Succeeds)
    (hrate : 0 < rate) : BusyHonours env rate ↔ ¬ Crowded env rate := by
  have hcalls : ∀ rounds, (rateExecute1sBusywait env rate rounds {}).2.calls =
      busyCalls env rate rounds 1 0 :=
    fun rounds => calls_busywaitLoop hok rounds 1 0 rfl rfl
  constructor
  · rintro honours ⟨readings, hmany, htimes⟩
    have hpos : 0 < rate.toInt := Int32.lt_iff_toInt_lt.mp hrate
    have hlen : readings.length - 1 < readings.length := by omega
    set last := readings.get ⟨readings.length - 1, hlen⟩ with hlast
    obtain ⟨hlastPos, hlastSecond⟩ := htimes.within last (List.get_mem _ _)
    have hcount := lt_busyCalls hrate htimes last 1 0
      (fun j hj => (elapsed_mono hmono (by omega)).trans_lt hlastSecond)
      (fun n hn hlt =>
        absurd (htimes.within (readings.get ⟨n, hn⟩) (List.get_mem _ _)).1 (by omega))
      (readings.length - 1) hlen (Nat.lt_add_of_pos_left Nat.one_pos)
    have hle := honours last
    rw [hcalls] at hle
    omega
  · intro hnot rounds
    rw [hcalls]
    by_contra hmore
    have hnone : CallTimes env rate [] := ⟨.nil, by simp, by simp⟩
    obtain ⟨readings, htimes, hlen⟩ := exists_callTimes hrate rounds 1 0 Nat.one_pos hnone rfl
      (by simp)
    exact hnot ⟨readings, by rw [hlen]; omega, htimes⟩

/-- A rate that divides the nanoseconds of a second is met by every clock. -/
theorem not_crowded_of_dvd (hrate : 0 < rate) (hdvd : rate.toInt ∣ 10 ^ 9) :
    ¬ Crowded env rate := by
  rintro ⟨readings, hmany, htimes⟩
  have hpos : 0 < rate.toInt := Int32.lt_iff_toInt_lt.mp hrate
  have hlen : rate.toInt.toNat < readings.length := by omega
  have hdue := htimes.due rate.toInt.toNat hlen
  rw [Int.toNat_of_nonneg hpos.le, Int.ediv_mul_cancel hdvd] at hdue
  have hsecond := (htimes.within _ (List.get_mem readings ⟨_, hlen⟩)).2
  omega

/-! ## Both limiters -/

/-- Both limiters honour the rate. -/
def HonoursRate (env : RateEnv) (rate : Int32) : Prop :=
  SleepingHonours env rate ∧ BusyHonours env rate

/-- Both limiters honour a rate on a clock exactly if what the first computes from the
clock is defined, its intervals fit, and the readings of the clock are not too many for
the second. -/
theorem honoursRate_iff (env : RateEnv) (hmono : env.NonDecreasing) (hok : env.Succeeds)
    (rate : Int32) (hrate : 0 < rate) :
    HonoursRate env rate ↔
      rateExecute1s env rate {} ≠ none ∧ SleepingFits env rate ∧ ¬ Crowded env rate := by
  rw [HonoursRate, sleepingHonours_iff hok hrate, busyHonours_iff hmono hok hrate, and_assoc]

theorem rateIntervals_ne_none (hrate : 0 < rate) (hdefined : ∀ j, localStop (env.now j) ≠ none)
    (n : ℕ) (st : RateState) : rateIntervals env rate n st ≠ none := by
  induction n generalizing st with
  | zero => exact Option.some_ne_none _
  | succ n ih =>
      obtain ⟨stop, hstop⟩ := Option.ne_none_iff_exists'.mp (hdefined st.reads)
      have hdelta : ∃ ret st', rateDelta env rate st = some (ret, st') := by
        rw [rateDelta, if_neg (Int32.not_le.mpr hrate), hstop]
        simp only [Option.bind_eq_bind, Option.bind_some]
        split
        · exact ⟨_, _, rfl⟩
        · split <;> exact ⟨_, _, rfl⟩
      obtain ⟨ret, st', hdelta⟩ := hdelta
      rw [rateIntervals, hdelta]
      simp only [Option.bind_eq_bind, Option.bind_some]
      split
      · exact Option.some_ne_none _
      · exact ih st'

theorem rateExecute1s_ne_none (hrate : 0 < rate)
    (hdefined : ∀ j, localStop (env.now j) ≠ none) : rateExecute1s env rate {} ≠ none := by
  obtain ⟨result, hintervals⟩ := Option.ne_none_iff_exists'.mp
    (rateIntervals_ne_none hrate hdefined intervalsPerSec { reads := 1 })
  rw [rateExecute1s, if_neg (Int32.not_le.mpr hrate)]
  simp only [Nat.zero_add, hintervals, Option.bind_eq_bind, Option.bind_some]
  split
  · exact Option.some_ne_none _
  · split <;> exact Option.some_ne_none _

/-! ## A clock on which the calls take no time -/

/-- The second interval begins half a second after the first. -/
def halvesEnv (rate : Int32) : RateEnv where
  now k := if k < perLoop rate + 3 then 0 else 500000000
  callback _ := 0
  sleep _ := 0

theorem halvesEnv_nonDecreasing (rate : Int32) : (halvesEnv rate).NonDecreasing := by
  intro j k hjk
  unfold halvesEnv
  dsimp only
  split
  · split <;> decide
  · rw [if_neg (by omega)]
    exact UInt64.le_refl _

theorem localStop_half : localStop 500000000 = some 1000000000 := localStop_of_small (by decide)

theorem localStop_halvesEnv (rate : Int32) (j : ℕ) : localStop ((halvesEnv rate).now j) ≠ none := by
  unfold halvesEnv
  dsimp only
  split
  · rw [localStop_zero]
    exact Option.some_ne_none _
  · rw [localStop_half]
    exact Option.some_ne_none _

theorem halvesEnv_not_interrupted (rate : Int32) (base n k : ℕ) :
    ¬ Interrupted (halvesEnv rate) base n k := by
  rintro ⟨-, -, -, hsleep⟩
  exact hsleep rfl

theorem honoursRate_two : HonoursRate (halvesEnv 2) 2 :=
  (honoursRate_iff (halvesEnv 2) (halvesEnv_nonDecreasing 2) (fun _ => rfl) 2 (by decide)).mpr
    ⟨rateExecute1s_ne_none (by decide) (localStop_halvesEnv 2),
      .inr (.inr ⟨halvesEnv_not_interrupted 2 1 _ 0, .inl (by decide)⟩),
      not_crowded_of_dvd (by decide) (by decide)⟩

/-- One transaction each second: both intervals make their one call. -/
theorem not_honoursRate_one :
    (halvesEnv 1).NonDecreasing ∧ (halvesEnv 1).Succeeds ∧ ¬ HonoursRate (halvesEnv 1) 1 := by
  refine ⟨halvesEnv_nonDecreasing 1, fun _ => rfl, fun honours => ?_⟩
  obtain ⟨-, hfits⟩ := (sleepingHonours_iff (fun _ => rfl) (by decide)).mp honours.1
  rcases hfits with ⟨stop, hstop, i, hi, hexpired⟩ | ⟨hsleep, -⟩ | ⟨-, heven | hexpires⟩
  · have hzero : (halvesEnv 1).now 1 = 0 := rfl
    rw [hzero, localStop_zero] at hstop
    cases hstop
    rw [perLoop_one] at hi
    obtain rfl : i = 0 := by omega
    revert hexpired
    decide
  · exact halvesEnv_not_interrupted 1 1 _ 0 hsleep
  · revert heven
    decide
  · obtain ⟨stop, hstop, i, hi, hexpired⟩ := hexpires
    have hhalf : (halvesEnv 1).now (perLoop 1 + 3) = 500000000 := rfl
    rw [hhalf, localStop_half] at hstop
    cases hstop
    rw [perLoop_one] at hi
    obtain rfl : i = 0 := by omega
    revert hexpired
    decide

end Uperf
