import Uperf.Accepts
import Uperf.Doubles
import Uperf.Lib.Transition

/-!
# The deadline of `safe_read`

`safe_read` promises to return within a timeout.  It computes a time to stop at, and
from that, with the clock, how long each poll may take; but it goes back to the poll
without looking at the clock again when a read would block.  Here is the loop, with
the clock and the results of the calls as its input, and when its polls end in time
(`inTime_iff_punctual`).
-/

namespace Uperf

open Lib

/-- The results of the calls in one turn of the loop, and the nanoseconds that they take:
what `poll` returns, what `read` returns at most, and whether `errno` is `EAGAIN` when it
fails. -/
structure Round where
  poll : ℤ
  pollTime : ℕ
  read : ℤ
  eagain : Bool
  readTime : ℕ

/-- The local variables of `safe_read` with the bytes that it has put into the buffer, what
the descriptor still holds, and the clock.  `refreshed` is the reading of the clock that
`poll_timeout` comes from. -/
structure SafeRead where
  now : ℕ
  stream : List UInt8
  buffer : List UInt8
  remain : ℕ
  pollTimeout : ℤ
  refreshed : ℕ

/-- `stop`, when the clock says `now`. -/
def stopTime (now : ℕ) (timeout : Int32) : ℚ :=
  toDouble (toDouble now + toDouble (timeout.toInt * 10 ^ 6))

/-- `(int) ((stop - GETHRTIME()) / 1.0e+6)` when the clock says `now`. -/
def pollTimeoutAt (stop : ℚ) (now : ℕ) : ℤ :=
  truncToInt (toDouble (toDouble (stop - toDouble now) / 10 ^ 6))

namespace SafeRead

/-- The condition of the loop: there will be another poll. -/
def Polls (st : SafeRead) : Prop := 0 < st.remain ∧ 0 < st.pollTimeout

instance (st : SafeRead) : Decidable st.Polls := inferInstanceAs (Decidable (_ ∧ _))

/-- What `read` returns. -/
def got (st : SafeRead) (r : Round) : ℤ := min r.read (min st.remain st.stream.length)

/-- The body of the loop: the state at the end of it, or what `safe_read` returns. -/
def turn (stop : ℚ) (st : SafeRead) (r : Round) : Int32 ⊕ SafeRead :=
  if r.poll < 0 then .inl uperfFailure
  else if r.poll = 0 then .inl uperfFailure
  else
    let ret := st.got r
    let now := st.now + r.pollTime + r.readTime
    if ret ≤ 0 then
      if ret = 0 then .inl 0
      else if r.eagain then .inr { st with now := now }
      else .inl uperfFailure
    else
      .inr
        { now := now
          stream := st.stream.drop ret.toNat
          buffer := st.buffer ++ st.stream.take ret.toNat
          remain := st.remain - ret.toNat
          pollTimeout := pollTimeoutAt stop now
          refreshed := now }

/-- A turn of the loop that another one may follow. -/
def step (stop : ℚ) (st : SafeRead) (r : Round) : Option SafeRead :=
  if st.Polls then (st.turn stop r).getRight? else none

end SafeRead

/-- The loop of `safe_read`; there is no result yet when the rounds are used up. -/
def safeReadLoop (stop : ℚ) : SafeRead → List Round → Option (Int32 × SafeRead)
  | st, rounds =>
      if st.Polls then
        match rounds with
        | [] => none
        | r :: rest =>
            match st.turn stop r with
            | .inl ret => some (ret, st)
            | .inr st' => safeReadLoop stop st' rest
      else some (if st.remain = 0 then 0 else uperfFailure, st)

/-- The variables before the loop, for `size` bytes of `stream`. -/
def safeReadStart (size : ℕ) (timeout : Int32) (now : ℕ) (stream : List UInt8) : SafeRead where
  now := now
  stream := stream
  buffer := []
  remain := size
  pollTimeout := pollTimeoutAt (stopTime now timeout) now
  refreshed := now

/-- `safe_read`, where `generic_setfd_nonblock` returns `nonblock`. -/
def safeRead (nonblock : Int32) (size : ℕ) (timeout : Int32) (now : ℕ) (stream : List UInt8)
    (rounds : List Round) : Option (Int32 × SafeRead) :=
  let st := safeReadStart size timeout now stream
  if nonblock ≠ 0 then some (uperfFailure, st)
  else safeReadLoop (stopTime now timeout) st rounds

/-! ## Polls in time -/

namespace SafeRead

/-- The poll is not later than the time to stop, and may not take longer than what is left
until then, by the clock as the program reads it. -/
structure InTime (stop : ℚ) (st : SafeRead) : Prop where
  before : (st.now : ℚ) ≤ stop
  within : st.pollTimeout * 10 ^ 6 ≤ stop - toDouble st.now

/-- The turn leaves `poll_timeout` as it is: the descriptor was readable, and the read would
have blocked. -/
def Spurious (st : SafeRead) (r : Round) : Prop :=
  st.Polls ∧ 0 < r.poll ∧ st.got r < 0 ∧ r.eagain = true

/-- If the turn leaves `poll_timeout` as it is, then it ends no later after the last look at
the clock than by the part of a millisecond that the conversion to `int` cut off there. -/
def Punctual (stop : ℚ) (st : SafeRead) (r : Round) : Prop :=
  st.Spurious r → toDouble (st.now + r.pollTime + r.readTime : ℕ) - toDouble st.refreshed ≤
    10 ^ 6 * Int.fract ((stop - toDouble st.refreshed) / 10 ^ 6)

/-- What is true of the variables at the head of the loop. -/
structure Timely (entry : ℕ) (timeout : Int32) (st : SafeRead) : Prop where
  entry_le : entry ≤ st.refreshed
  pollTimeout : st.pollTimeout = pollTimeoutAt (stopTime entry timeout) st.refreshed

end SafeRead

/-! ## Times as doubles -/

section

variable {entry now : ℕ} {timeout : Int32}

theorem toDouble_timeout (hpos : 0 < timeout.toInt) :
    toDouble (timeout.toInt * 10 ^ 6) = (timeout.toInt.toNat * 10 ^ 6 : ℕ) := by
  have hlt : timeout.toInt < 2 ^ 31 := timeout.toInt_lt
  have hcast : (timeout.toInt : ℚ) * 10 ^ 6 = (timeout.toInt.toNat * 10 ^ 6 : ℕ) := by
    push_cast
    congr 1
    exact_mod_cast (Int.toNat_of_nonneg hpos.le).symm
  rw [hcast]
  apply toDouble_natCast
  omega

/-- Without a positive timeout there is nothing left from the start. -/
theorem stopTime_le (hle : timeout.toInt ≤ 0) : stopTime entry timeout ≤ toDouble entry := by
  have hentry : 0 ≤ toDouble entry := roundTo_nonneg entry.cast_nonneg
  have htimeout : toDouble (timeout.toInt * 10 ^ 6) ≤ 0 := by
    apply roundTo_nonpos
    have hcast : (timeout.toInt : ℚ) ≤ 0 := by exact_mod_cast hle
    linarith
  unfold stopTime
  obtain hneg | hpos := le_or_gt (toDouble entry + toDouble (timeout.toInt * 10 ^ 6)) 0
  · exact (roundTo_nonpos hneg).trans hentry
  · exact roundTo_le (by norm_num) hpos (representable_roundTo entry.cast_nonneg) (by linarith)

/-- What is left until the time to stop is a whole number of nanoseconds, or nothing. -/
theorem exists_stopTime_sub (timeout : Int32) (hle : entry ≤ now) :
    stopTime entry timeout - toDouble now ≤ 0 ∨
      ∃ left : ℕ, left < 2 ^ 53 ∧ stopTime entry timeout - toDouble now = left := by
  have hmono : toDouble entry ≤ toDouble now :=
    roundTo_mono (by norm_num) entry.cast_nonneg (by exact_mod_cast hle)
  obtain hneg | hpos := le_or_gt timeout.toInt 0
  · left
    have hstop : stopTime entry timeout ≤ toDouble entry := stopTime_le hneg
    linarith
  · obtain ⟨d, hd⟩ := exists_roundTo_natCast 53 now
    obtain ⟨d₀, hd₀⟩ := exists_roundTo_natCast 53 entry
    have hlt : timeout.toInt < 2 ^ 31 := timeout.toInt_lt
    set span : ℕ := timeout.toInt.toNat * 10 ^ 6 with hspan
    have hspanPos : 0 < span := by omega
    have hstop : stopTime entry timeout = toDouble ((d₀ + span : ℕ) : ℚ) := by
      rw [stopTime, toDouble_timeout hpos, ← hspan, toDouble, hd₀, ← Nat.cast_add]
    obtain ⟨s, hs⟩ := exists_roundTo_natCast 53 (d₀ + span)
    -- the sum is rounded by no more than the timeout, since the start is a double
    have hnear : |toDouble ((d₀ + span : ℕ) : ℚ) - (d₀ + span : ℕ)| ≤ span := by
      have hrep : Representable 53 (d₀ : ℚ) := hd₀ ▸ representable_roundTo entry.cast_nonneg
      have hsum : (0 : ℚ) < (d₀ + span : ℕ) := by exact_mod_cast Nat.add_pos_right d₀ hspanPos
      refine (abs_roundTo_sub_le_of_representable (by norm_num) hsum hrep).trans_eq ?_
      push_cast
      rw [sub_add_cancel_left, abs_neg, Nat.abs_cast]
    have hsum : toDouble ((d₀ + span : ℕ) : ℚ) = s := hs
    have hread : toDouble now = d := hd
    rw [hsum] at hnear
    rw [hstop, hsum, hread]
    have hle₀ : d₀ ≤ d := by
      rw [hread, show toDouble entry = d₀ from hd₀] at hmono
      exact_mod_cast hmono
    have hbound : s ≤ d₀ + span + span := by
      have := (abs_le.mp hnear).2
      have hcast : (s : ℚ) ≤ ((d₀ + span + span : ℕ) : ℚ) := by
        push_cast at this ⊢
        linarith
      exact_mod_cast hcast
    obtain hsd | hds := le_or_gt s d
    · left
      have hcast : (s : ℚ) ≤ d := by exact_mod_cast hsd
      linarith
    · right
      refine ⟨s - d, by omega, ?_⟩
      rw [Nat.cast_sub hds.le]

/-- A positive timeout is what is left, in whole milliseconds. -/
theorem pollTimeoutAt_of_pos (hle : entry ≤ now)
    (hpos : 0 < pollTimeoutAt (stopTime entry timeout) now) :
    pollTimeoutAt (stopTime entry timeout) now =
      ⌊(stopTime entry timeout - toDouble now) / 10 ^ 6⌋ := by
  obtain ⟨hfloor, hq⟩ := truncToInt_of_pos hpos
  rw [pollTimeoutAt, hfloor]
  obtain hnone | ⟨left, hlt, hleft⟩ := exists_stopTime_sub timeout hle
  · have hzero : toDouble (stopTime entry timeout - toDouble now) ≤ 0 := roundTo_nonpos hnone
    have hdiv : toDouble (toDouble (stopTime entry timeout - toDouble now) / 10 ^ 6) ≤ 0 :=
      roundTo_nonpos (div_nonpos_of_nonpos_of_nonneg hzero (by norm_num))
    exact absurd hq (not_lt.mpr hdiv)
  · rw [hleft, toDouble_natCast hlt, floor_toDouble_div hlt]
    exact (Rat.floor_natCast_div_natCast left (10 ^ 6)).symm

/-- A time at which something is left has not passed. -/
theorem le_stopTime_of_pos (hpos : 0 < stopTime entry timeout - toDouble now) :
    (now : ℚ) ≤ stopTime entry timeout := by
  by_contra! hlt
  have hnow : 0 ≤ toDouble now := roundTo_nonneg now.cast_nonneg
  have hstop : 0 < stopTime entry timeout := by linarith
  have hsum : 0 ≤ toDouble entry + toDouble (timeout.toInt * 10 ^ 6) := by
    by_contra! hneg
    exact absurd hstop (not_lt.mpr (roundTo_nonpos hneg.le))
  have hle : stopTime entry timeout ≤ toDouble now :=
    le_roundTo (by norm_num) (hstop.trans hlt) (representable_roundTo hsum) hlt.le
  linarith

end

/-! ## The loop -/

namespace SafeRead

section

variable {stop : ℚ} {st st' : SafeRead} {r : Round} {entry : ℕ} {timeout : Int32}

/-- The ways in which the loop goes on. -/
theorem step_cases (hstep : st.step stop r = some st') :
    st.Polls ∧ 0 < r.poll ∧
      ((st.got r < 0 ∧ r.eagain = true ∧
          st' = { st with now := st.now + r.pollTime + r.readTime }) ∨
        (0 < st.got r ∧ st' =
          { now := st.now + r.pollTime + r.readTime
            stream := st.stream.drop (st.got r).toNat
            buffer := st.buffer ++ st.stream.take (st.got r).toNat
            remain := st.remain - (st.got r).toNat
            pollTimeout := pollTimeoutAt stop (st.now + r.pollTime + r.readTime)
            refreshed := st.now + r.pollTime + r.readTime })) := by
  obtain ⟨hpolls, hturn⟩ := Option.ite_none_right_eq_some.mp hstep
  rw [Sum.getRight?_eq_some_iff] at hturn
  simp only [turn] at hturn
  refine ⟨hpolls, ?_⟩
  split_ifs at hturn with hneg hzero hle hend heagain
  · have hlt : st.got r < 0 := lt_of_le_of_ne hle hend
    exact ⟨by omega, .inl ⟨hlt, heagain, (Sum.inr.inj hturn).symm⟩⟩
  · exact ⟨by omega, .inr ⟨not_le.mp hle, (Sum.inr.inj hturn).symm⟩⟩

theorem Timely.start (size : ℕ) (timeout : Int32) (now : ℕ) (stream : List UInt8) :
    (safeReadStart size timeout now stream).Timely now timeout := ⟨le_rfl, rfl⟩

theorem Timely.refreshed_le_of_step (hst : st.Timely entry timeout ∧ st.refreshed ≤ st.now)
    (hstep : st.step (stopTime entry timeout) r = some st') :
    st'.Timely entry timeout ∧ st'.refreshed ≤ st'.now := by
  obtain ⟨⟨hentry, htimeout⟩, hle⟩ := hst
  obtain ⟨-, -, ⟨-, -, rfl⟩ | ⟨-, rfl⟩⟩ := step_cases hstep
  · exact ⟨⟨hentry, htimeout⟩, by simp only; omega⟩
  · exact ⟨⟨by simp only; omega, rfl⟩, le_rfl⟩

/-- A poll is in time if the clock has not moved, since the last look at it, by more than
what was cut off there. -/
theorem Timely.inTime_iff (hst : st.Timely entry timeout) (hpolls : st.Polls) :
    st.InTime (stopTime entry timeout) ↔ toDouble st.now - toDouble st.refreshed ≤
      10 ^ 6 * Int.fract ((stopTime entry timeout - toDouble st.refreshed) / 10 ^ 6) := by
  have hpos := hpolls.2
  rw [hst.pollTimeout] at hpos
  have hfloor := pollTimeoutAt_of_pos hst.entry_le hpos
  rw [← hst.pollTimeout] at hfloor
  have hfract : (10 : ℚ) ^ 6 *
      Int.fract ((stopTime entry timeout - toDouble st.refreshed) / 10 ^ 6) =
        stopTime entry timeout - toDouble st.refreshed - st.pollTimeout * 10 ^ 6 := by
    rw [Int.fract, ← hfloor]
    ring
  rw [hfract]
  constructor
  · intro h
    linarith [h.within]
  · intro h
    have hwithin : st.pollTimeout * 10 ^ 6 ≤ stopTime entry timeout - toDouble st.now := by
      linarith
    have hcast : (0 : ℚ) < st.pollTimeout := by exact_mod_cast hpolls.2
    exact ⟨le_stopTime_of_pos (by linarith), hwithin⟩

/-- Right after a look at the clock the poll is in time. -/
theorem Timely.inTime_of_eq (hst : st.Timely entry timeout) (hpolls : st.Polls)
    (heq : st.now = st.refreshed) : st.InTime (stopTime entry timeout) := by
  rw [hst.inTime_iff hpolls, heq, sub_self]
  exact mul_nonneg (by norm_num) (Int.fract_nonneg _)

/-- A turn is punctual exactly if it does not lead to a poll that is late. -/
theorem Timely.punctual_iff (hst : st.Timely entry timeout) (hle : st.refreshed ≤ st.now) :
    st.Punctual (stopTime entry timeout) r ↔
      ∀ st', st.step (stopTime entry timeout) r = some st' →
        st'.Polls → st'.InTime (stopTime entry timeout) := by
  constructor
  · intro hpunctual st' hstep hpolls'
    have hst' := (Timely.refreshed_le_of_step ⟨hst, hle⟩ hstep).1
    obtain ⟨hpolls, hpoll, ⟨hlt, heagain, rfl⟩ | ⟨-, rfl⟩⟩ := step_cases hstep
    · exact (hst'.inTime_iff hpolls').mpr (hpunctual ⟨hpolls, hpoll, hlt, heagain⟩)
    · exact hst'.inTime_of_eq hpolls' rfl
  · rintro hall ⟨hpolls, hpoll, hlt, heagain⟩
    -- nothing but the clock has changed, so there is another poll
    set st' : SafeRead := { st with now := st.now + r.pollTime + r.readTime } with hst'
    have hturn : st.turn (stopTime entry timeout) r = .inr st' := by
      rw [turn, if_neg (by omega), if_neg (by omega)]
      simp only
      rw [if_pos hlt.le, if_neg hlt.ne, if_pos heagain]
    have hstep : st.step (stopTime entry timeout) r = some st' := by
      rw [step, if_pos hpolls, hturn]
      rfl
    have htimely := (Timely.refreshed_le_of_step ⟨hst, hle⟩ hstep).1
    exact (htimely.inTime_iff hpolls).mp (hall st' hstep hpolls)

end

end SafeRead

/-- In every run of the loop, all polls are in time exactly if all turns are punctual: if
those that end with `EAGAIN` do not last longer, since the last look at the clock, than by
what was cut off there. -/
theorem inTime_iff_punctual (size : ℕ) (timeout : Int32) (now : ℕ) (stream : List UInt8)
    (rounds : List Round) :
    (∀ done st, done <+: rounds →
      run (SafeRead.step (stopTime now timeout)) (safeReadStart size timeout now stream) done =
        some st → st.Polls → st.InTime (stopTime now timeout)) ↔
      Along (SafeRead.step (stopTime now timeout)) (SafeRead.Punctual (stopTime now timeout))
        (safeReadStart size timeout now stream) rounds := by
  apply reached_iff_along fun st => st.Timely now timeout ∧ st.refreshed ≤ st.now
  · intro st r hst _
    exact hst.1.punctual_iff hst.2
  · intro st r st' hst hstep
    exact SafeRead.Timely.refreshed_le_of_step hst hstep
  · exact ⟨.start size timeout now stream, le_rfl⟩
  · intro hpolls
    exact (SafeRead.Timely.start size timeout now stream).inTime_of_eq hpolls rfl

/-- The descriptor becomes readable after five milliseconds, and the read would block. -/
def spuriousRound : Round where
  poll := 1
  pollTime := 5000000
  read := -1
  eagain := true
  readTime := 0

theorem stopTime_zero_two : stopTime 0 2 = 2000000 := by
  have htimeout : toDouble ((2 : Int32).toInt * 10 ^ 6) = (2000000 : ℕ) :=
    toDouble_timeout (by decide)
  have hzero : toDouble ((0 : ℕ) : ℚ) = 0 := rfl
  rw [stopTime, htimeout, hzero, zero_add, toDouble_natCast (by norm_num)]
  norm_num

theorem pollTimeoutAt_zero_two : pollTimeoutAt (stopTime 0 2) 0 = 2 := by
  rw [stopTime_zero_two]
  decide +kernel

/-- With a timeout of two milliseconds there is a poll after five. -/
theorem not_inTime_spurious :
    ¬ ∀ (size : ℕ) (timeout : Int32) (now : ℕ) (stream : List UInt8) (rounds : List Round),
      ∀ done st, done <+: rounds →
        run (SafeRead.step (stopTime now timeout)) (safeReadStart size timeout now stream) done =
          some st → st.Polls → st.InTime (stopTime now timeout) := by
  intro h
  have hsize := pollTimeoutAt_zero_two
  have hlate := h 1 2 0 [] [spuriousRound] [spuriousRound]
    { safeReadStart 1 2 0 [] with now := 5000000 } List.prefix_rfl
    (by simp [run, SafeRead.step, SafeRead.Polls, SafeRead.turn, SafeRead.got, safeReadStart,
      spuriousRound, hsize])
    ⟨by decide, by simp [safeReadStart, hsize]⟩
  have hbefore := hlate.before
  rw [stopTime_zero_two] at hbefore
  norm_num at hbefore

end Uperf
