import Mathlib.Data.List.Basic
import Mathlib.Tactic.Ring
import Uperf.Workorder

/-!
# Batches of messages over SCTP

`protocol_sctp_write` passes an array of `batch_size` messages to `sendmmsg`, as often as
the flowop is repeated, and where only some of them are accepted it goes on with the others.
The result of `sendmmsg` is kept in an unsigned variable, so that the test for an error does
not see the `-1`: the number of messages that remain goes up by one instead, and the loop
calls again.

`Progress` is what holds between two calls.  A batch then either gets through
(`sendBatch_cases`), or goes on behind a call that has failed; `handled_iff` says that the
first case is the one in which the function does what it should.
-/

namespace Uperf

open Lib

namespace Sctp

/-- `SCTP_MMSG_STACK_SIZE`. -/
def sctpMmsgStackSize : UInt64 := 16

/-- `sizeof (struct mmsghdr)`. -/
def mmsghdrSize : ℕ := 64

/-- A call of `sendmmsg`, or of `sendmsg` with one message: where the messages that are
passed begin in the array, how many there are, and what the call returns. -/
structure MmsgCall where
  index : UInt64
  offered : UInt64
  result : Int64
deriving DecidableEq

section

variable (results : ℕ → Int64) (batchSize : UInt64) (size : Int32)

/-- The loop over the messages of a batch that remain: the calls made, and whether it gets
to its end.  Without a result it needs more rounds. -/
def sendBatch : ℕ → UInt64 → List MmsgCall → Option (Bool × List MmsgCall)
  | 0, _, _ => none
  | fuel + 1, remaining, calls =>
      if 0 < remaining then
        let result := results calls.length
        let msgsSent := result.toUInt64
        let calls := calls ++ [⟨batchSize - remaining, remaining, result⟩]
        -- the variable is unsigned, and this is never so
        if msgsSent < 0 then some (false, calls)
        else sendBatch fuel (remaining - msgsSent) calls
      else some (true, calls)

/-- The loop over the repetitions: what is returned, and the calls made. -/
def sendRepeats (fuel : ℕ) : ℕ → Int64 → List MmsgCall → Option (Int64 × List MmsgCall)
  | 0, total, calls => some (total, calls)
  | n + 1, total, calls =>
      if batchSize ≤ 1 then
        let len := results calls.length
        let calls := calls ++ [⟨0, 1, len⟩]
        if len < 0 then some (-1, calls) else sendRepeats fuel n (total + len) calls
      else
        match sendBatch results batchSize fuel batchSize calls with
        | none => none
        | some (false, calls) => some (-1, calls)
        | some (true, calls) =>
            let sent := size.toInt64.toUInt64 * batchSize
            sendRepeats fuel n (total.toUInt64 + sent).toInt64 calls

end

/-- `batch_size`. -/
def batchSize (options : Option FlowopOptions) : UInt64 := options.elim 1 (·.batchSize)

/-- `repeat`. -/
def repetitions (options : Option FlowopOptions) : ℕ := options.elim 1 (·.repeats.toNat)

/-- `protocol_sctp_write` with `sendmmsg`: what it returns, which is an `int`, and the calls
made.  `calloc` says for what numbers of headers there is memory, and `results` is what the
calls return. -/
def protocolSctpWrite (calloc : UInt64 → Bool) (results : ℕ → Int64) (size : Int32)
    (options : Option FlowopOptions) (fuel : ℕ) : Option (Int32 × List MmsgCall) :=
  if sctpMmsgStackSize < batchSize options ∧ ¬ calloc (batchSize options) then some (-1, [])
  else
    (sendRepeats results (batchSize options) size fuel (repetitions options) 0 []).map
      fun (total, calls) => (total.toInt32, calls)

/-! ## What the calls should do -/

/-- The messages that the calls have accepted, by their positions in the array. -/
def accepted (calls : List MmsgCall) : List ℕ :=
  calls.flatMap fun call => List.range' call.index.toNat call.result.toInt.toNat

/-- A batch of `n` messages, `m` times. -/
def batches (m n : ℕ) : List ℕ := (List.replicate m (List.range n)).flatten

/-- Only messages of the array are passed; a call that fails is the last one, and its error is
returned; and where none fails each message of each batch is accepted once, and their size is
returned, if it fits. -/
structure Handled (size : Int32) (batch repeats : ℕ) (out : Int32 × List MmsgCall) : Prop where
  inside : ∀ call ∈ out.2, call.index.toNat + call.offered.toNat ≤ batch
  failed : ∀ before call rest, out.2 = before ++ call :: rest → call.result = -1 →
    out.1 = -1 ∧ rest = []
  sent : (∀ call ∈ out.2, call.result ≠ -1) → accepted out.2 = batches repeats batch ∧
    (size.toInt * batch * repeats < 2 ^ 31 → out.1.toInt = size.toInt * batch * repeats)

/-- The sum of the first results. -/
def sentBefore (results : ℕ → Int64) (k : ℕ) : ℤ :=
  ((List.range k).map fun j => (results j).toInt).sum

/-- Up to the first error, each call accepts at least one message, and no more than are left
of its batch. -/
def Plausible (batch : ℕ) (results : ℕ → Int64) : Prop :=
  ∀ k, (∀ j < k, results j ≠ -1) → results k = -1 ∨
    1 ≤ (results k).toInt ∧ (results k).toInt ≤ batch - sentBefore results k % batch

/-- As many calls as it takes for all messages come before the first error. -/
def AllSent (batch repeats : ℕ) (results : ℕ → Int64) : Prop :=
  ∃ m, (∀ k < m, results k ≠ -1) ∧ sentBefore results m = batch * repeats

/-- What holds between two calls: no call has failed, `n` batches have been accepted, and all
but `r` messages of the next. -/
structure Progress (batch : ℕ) (results : ℕ → Int64) (calls : List MmsgCall) (n r : ℕ) :
    Prop where
  fits : r ≤ batch
  inside : ∀ call ∈ calls, call.index.toNat + call.offered.toNat ≤ batch
  recorded : calls.map (·.result) = (List.range calls.length).map results
  clean : ∀ k < calls.length, results k ≠ -1
  accepted : accepted calls = batches n batch ++ List.range (batch - r)
  sum : sentBefore results calls.length = (n * batch + (batch - r) : ℕ)

section

variable {batch n r : ℕ} {results : ℕ → Int64} {calls : List MmsgCall} {fuel : ℕ}

theorem accepted_append (calls calls' : List MmsgCall) :
    accepted (calls ++ calls') = accepted calls ++ accepted calls' :=
  List.flatMap_append ..

theorem batches_succ (n batch : ℕ) :
    batches (n + 1) batch = batches n batch ++ List.range batch := by
  simp [batches, List.replicate_succ']

theorem length_batches (n batch : ℕ) : (batches n batch).length = n * batch := by
  simp [batches]

theorem sentBefore_succ (results : ℕ → Int64) (k : ℕ) :
    sentBefore results (k + 1) = sentBefore results k + (results k).toInt := by
  simp [sentBefore, List.range_succ]

/-- Before the first error, the sum grows. -/
theorem Plausible.sentBefore_mono (hpossible : Plausible batch results) {m k : ℕ} (hle : m ≤ k)
    (hclean : ∀ j < k, results j ≠ -1) : sentBefore results m ≤ sentBefore results k := by
  induction k, hle using Nat.le_induction with
  | base => exact le_rfl
  | succ k hle ih =>
      have hbefore : ∀ j < k, results j ≠ -1 := fun j hj => hclean j (by omega)
      obtain hfail | ⟨hpos, -⟩ := hpossible k hbefore
      · exact absurd hfail (hclean k (Nat.lt_succ_self k))
      · have hsum := ih hbefore
        rw [sentBefore_succ]
        omega

theorem progress_nil (batch : ℕ) (results : ℕ → Int64) : Progress batch results [] 0 batch where
  fits := le_rfl
  inside := nofun
  recorded := rfl
  clean := nofun
  accepted := by simp [Sctp.accepted, batches]
  sum := by simp [sentBefore]

/-- A finished batch is one more. -/
theorem Progress.finish (h : Progress batch results calls n 0) :
    Progress batch results calls (n + 1) batch where
  fits := le_rfl
  inside := h.inside
  recorded := h.recorded
  clean := h.clean
  accepted := by simp [h.accepted, batches_succ]
  sum := by
    rw [h.sum]
    push_cast
    have hmul : ((n : ℤ) + 1) * batch = n * batch + batch := by ring
    omega

theorem Progress.result_ne (h : Progress batch results calls n r) {call : MmsgCall}
    (hcall : call ∈ calls) : call.result ≠ -1 := by
  have hmem : call.result ∈ (List.range calls.length).map results := by
    rw [← h.recorded]
    exact List.mem_map_of_mem hcall
  obtain ⟨k, hk, heq⟩ := List.mem_map.mp hmem
  rw [← heq]
  exact h.clean k (List.mem_range.mp hk)

/-- What a call accepts that does not fail is part of what was left. -/
theorem Progress.result_le (h : Progress batch results calls n r) (hr : 0 < r)
    (hpossible : Plausible batch results) (hok : results calls.length ≠ -1) :
    ∃ s, 1 ≤ s ∧ s ≤ r ∧ (results calls.length).toInt = (s : ℕ) := by
  obtain hfail | ⟨hpos, hle⟩ := hpossible calls.length h.clean
  · exact absurd hfail hok
  · have hmod : sentBefore results calls.length % batch = (batch - r : ℕ) := by
      have hlt : batch - r < batch := by
        have hfits := h.fits
        omega
      rw [h.sum, ← Int.natCast_mod, Nat.mul_comm, Nat.mul_add_mod, Nat.mod_eq_of_lt hlt]
    have hfits := h.fits
    obtain ⟨s, hs⟩ := Int.eq_ofNat_of_zero_le (show 0 ≤ (results calls.length).toInt by omega)
    exact ⟨s, by omega, by omega, hs⟩

/-- A call that accepts `s` of the messages that are left. -/
theorem Progress.step (h : Progress batch results calls n r) {s : ℕ} (call : MmsgCall)
    (hle : s ≤ r) (hok : results calls.length ≠ -1) (hindex : call.index.toNat = batch - r)
    (hoffered : call.offered.toNat = r) (hresult : call.result = results calls.length)
    (hs : (results calls.length).toInt = s) :
    Progress batch results (calls ++ [call]) n (r - s) := by
  have hfits := h.fits
  have hlength : (calls ++ [call]).length = calls.length + 1 := by simp
  constructor
  · omega
  · intro c hc
    obtain hc | hc := List.mem_append.mp hc
    · exact h.inside c hc
    · obtain rfl := List.mem_singleton.mp hc
      omega
  · rw [hlength, List.range_succ, List.map_append, List.map_append, h.recorded]
    simp [hresult]
  · intro k hk
    rw [hlength] at hk
    obtain hlt | rfl := Nat.lt_succ_iff_lt_or_eq.mp hk
    · exact h.clean k hlt
    · exact hok
  · -- the call takes the messages behind those that are taken
    have hcall : Sctp.accepted [call] = List.range' (batch - r) s := by
      have hnat : call.result.toInt.toNat = s := by
        rw [hresult, hs, Int.toNat_natCast]
      rw [Sctp.accepted, List.flatMap_singleton, hindex, hnat]
    have hrange : List.range (batch - r) ++ List.range' (batch - r) s =
        List.range (batch - (r - s)) := by
      rw [List.range_eq_range', List.range_eq_range', show batch - (r - s) = batch - r + s by omega,
        ← List.range'_append_1, Nat.zero_add]
    rw [accepted_append, h.accepted, hcall, List.append_assoc, hrange]
  · rw [hlength, sentBefore_succ, h.sum, hs]
    push_cast
    omega

/-! ## A batch -/

/-- A call fails, and there is another one behind it. -/
def GoesOn (calls : List MmsgCall) : Prop :=
  ∃ before call next, before ++ [call, next] <+: calls ∧ call.result = -1

/-- The first error comes while there are messages to be accepted. -/
def FailsEarly (batch repeats : ℕ) (results : ℕ → Int64) : Prop :=
  ∃ k, (∀ j < k, results j ≠ -1) ∧ results k = -1 ∧ sentBefore results k < batch * repeats

/-- One round: the result is subtracted, whether it is an error or not. -/
theorem sendBatch_succ {batchSize remaining : UInt64} (hmore : 0 < remaining) :
    sendBatch results batchSize (fuel + 1) remaining calls =
      sendBatch results batchSize fuel (remaining - (results calls.length).toUInt64)
        (calls ++ [⟨batchSize - remaining, remaining, results calls.length⟩]) := by
  rw [sendBatch, if_pos hmore]
  exact if_neg UInt64.not_lt_zero

theorem prefix_of_sendBatch {batchSize remaining : UInt64} {ok : Bool} {calls' : List MmsgCall}
    (hsend : sendBatch results batchSize fuel remaining calls = some (ok, calls')) :
    calls <+: calls' := by
  induction fuel generalizing remaining calls with
  | zero => cases hsend
  | succ fuel ih =>
      by_cases hmore : 0 < remaining
      · rw [sendBatch_succ hmore] at hsend
        exact (List.prefix_append _ _).trans (ih hsend)
      · rw [sendBatch, if_neg hmore] at hsend
        cases hsend
        exact List.prefix_rfl

/-- More fuel changes nothing. -/
theorem sendBatch_mono {batchSize remaining : UInt64} {out : Bool × List MmsgCall} {more : ℕ}
    (hsend : sendBatch results batchSize fuel remaining calls = some out) (hle : fuel ≤ more) :
    sendBatch results batchSize more remaining calls = some out := by
  induction fuel generalizing more remaining calls with
  | zero => cases hsend
  | succ fuel ih =>
      obtain ⟨more, rfl⟩ := Nat.exists_eq_succ_of_ne_zero (Nat.ne_zero_of_lt hle)
      by_cases hmore : 0 < remaining
      · rw [sendBatch_succ hmore] at hsend
        rw [Nat.succ_eq_add_one, sendBatch_succ hmore]
        exact ih hsend (Nat.le_of_succ_le_succ hle)
      · rw [sendBatch, if_neg hmore] at hsend ⊢
        exact hsend

theorem toUInt64_neg_one : (-1 : Int64).toUInt64.toNat = 2 ^ 64 - 1 := by decide

/-- An error in a batch comes early. -/
theorem Progress.failsEarly (h : Progress batch results calls n r) {repeats : ℕ}
    (hn : n < repeats) (hr : 0 < r) (hfail : results calls.length = -1) :
    FailsEarly batch repeats results := by
  refine ⟨calls.length, h.clean, hfail, ?_⟩
  have hfits := h.fits
  have hle : (n + 1) * batch ≤ repeats * batch := Nat.mul_le_mul_right batch hn
  rw [Nat.succ_mul, Nat.mul_comm repeats] at hle
  rw [h.sum]
  exact_mod_cast (show n * batch + (batch - r) < batch * repeats by omega)

/-- Behind an error in a batch one more message remains than before, and the loop calls
again. -/
theorem goesOn_of_failed {batchSize remaining : UInt64} (hr : 0 < remaining)
    (hlt : remaining.toNat < 2 ^ 64 - 1) (hfail : results calls.length = -1) {ok : Bool}
    {calls' : List MmsgCall}
    (hsend : sendBatch results batchSize fuel remaining calls = some (ok, calls')) :
    GoesOn calls' := by
  obtain _ | _ | fuel := fuel
  · cases hsend
  · rw [sendBatch_succ hr] at hsend
    cases hsend
  · rw [sendBatch_succ hr] at hsend
    have hnext : 0 < remaining - (results calls.length).toUInt64 := by
      rw [UInt64.lt_iff_toNat_lt, UInt64.toNat_sub, hfail, toUInt64_neg_one]
      show 0 < _
      omega
    rw [sendBatch_succ hnext] at hsend
    have hprefix := prefix_of_sendBatch hsend
    rw [List.append_assoc] at hprefix
    exact ⟨calls, _, _, hprefix, hfail⟩

/-- A batch gets through, after as many rounds as there are messages at most, or it goes on
behind a call that has failed. -/
theorem sendBatch_cases {batchSize remaining : UInt64} (h : Progress batch results calls n r)
    (hpossible : Plausible batch results) (repeats : ℕ) (hn : n < repeats)
    (hsize : batchSize.toNat = batch) (hremaining : remaining.toNat = r)
    (hbatch : batch < 2 ^ 64 - 1) :
    (∃ calls', Progress batch results calls' (n + 1) batch ∧
        ∀ fuel, r < fuel → sendBatch results batchSize fuel remaining calls = some (true, calls')) ∨
      FailsEarly batch repeats results ∧ ∀ fuel ok calls',
        sendBatch results batchSize fuel remaining calls = some (ok, calls') → GoesOn calls' := by
  induction r using Nat.strong_induction_on generalizing remaining calls with
  | _ r ih =>
      obtain rfl | hr := Nat.eq_zero_or_pos r
      · left
        refine ⟨calls, h.finish, fun fuel hfuel => ?_⟩
        obtain ⟨fuel, rfl⟩ := Nat.exists_eq_succ_of_ne_zero hfuel.ne'
        have hnone : ¬ 0 < remaining := by
          rw [UInt64.lt_iff_toNat_lt, hremaining]
          exact lt_irrefl 0
        rw [sendBatch, if_neg hnone]
      · have hfits := h.fits
        have hmore : 0 < remaining := by
          rw [UInt64.lt_iff_toNat_lt, hremaining]
          exact hr
        by_cases hfail : results calls.length = -1
        · exact .inr ⟨h.failsEarly hn hr hfail, fun fuel ok calls' hsend =>
            goesOn_of_failed hmore (by omega) hfail hsend⟩
        · -- the call accepts `s` messages, and the others remain
          obtain ⟨s, hpos, hle, hs⟩ := h.result_le hr hpossible hfail
          have hsent := toNat_toUInt64 hs
          have hnext : (remaining - (results calls.length).toUInt64).toNat = r - s := by
            rw [UInt64.toNat_sub_of_le _ _ (by rw [UInt64.le_iff_toNat_le]; omega), hsent,
              hremaining]
          have hindex : (batchSize - remaining).toNat = batch - r := by
            rw [UInt64.toNat_sub_of_le _ _ (by rw [UInt64.le_iff_toNat_le]; omega), hsize,
              hremaining]
          have hprogress := h.step ⟨batchSize - remaining, remaining, results calls.length⟩
            hle hfail hindex hremaining rfl hs
          obtain ⟨calls', hdone, hsend⟩ | ⟨hearly, hgoes⟩ :=
            ih (r - s) (by omega) hprogress hnext
          · left
            refine ⟨calls', hdone, fun fuel hfuel => ?_⟩
            obtain ⟨fuel, rfl⟩ := Nat.exists_eq_succ_of_ne_zero (Nat.ne_zero_of_lt hfuel)
            rw [Nat.succ_eq_add_one, sendBatch_succ hmore]
            exact hsend fuel (by omega)
          · right
            refine ⟨hearly, fun fuel ok calls' hsend => ?_⟩
            obtain _ | fuel := fuel
            · cases hsend
            · rw [sendBatch_succ hmore] at hsend
              exact hgoes fuel ok calls' hsend

/-! ## All batches -/

theorem GoesOn.mono {calls' : List MmsgCall} (h : GoesOn calls) (hmore : calls <+: calls') :
    GoesOn calls' := by
  obtain ⟨before, call, next, hbefore, hfail⟩ := h
  exact ⟨before, call, next, hbefore.trans hmore, hfail⟩

variable {B : UInt64} {size : Int32}

/-- One batch of more than one message. -/
theorem sendRepeats_succ (hB : 1 < B) (m : ℕ) (total : Int64) :
    sendRepeats results B size fuel (m + 1) total calls =
      match sendBatch results B fuel B calls with
      | none => none
      | some (false, calls) => some (-1, calls)
      | some (true, calls) =>
          sendRepeats results B size fuel m
            (total.toUInt64 + size.toInt64.toUInt64 * B).toInt64 calls := by
  rw [sendRepeats, if_neg (UInt64.not_le.mpr hB)]

/-- Where the function returns, it has come out of the first batch. -/
theorem sendRepeats_succ_eq_some (hB : 1 < B) {m : ℕ} {total : Int64}
    {out : Int64 × List MmsgCall}
    (hsend : sendRepeats results B size fuel (m + 1) total calls = some out) :
    ∃ ok calls', sendBatch results B fuel B calls = some (ok, calls') ∧
      (ok = false → out = (-1, calls')) ∧
      (ok = true → sendRepeats results B size fuel m
        (total.toUInt64 + size.toInt64.toUInt64 * B).toInt64 calls' = some out) := by
  rw [sendRepeats_succ hB] at hsend
  cases hbatch : sendBatch results B fuel B calls with
  | none => simp [hbatch] at hsend
  | some result =>
      obtain ⟨ok, calls'⟩ := result
      rw [hbatch] at hsend
      refine ⟨ok, calls', rfl, ?_, ?_⟩
      · rintro rfl
        exact (Option.some.inj hsend).symm
      · rintro rfl
        exact hsend

theorem prefix_of_sendRepeats (hB : 1 < B) {m : ℕ} {total : Int64} {out : Int64 × List MmsgCall}
    (hsend : sendRepeats results B size fuel m total calls = some out) : calls <+: out.2 := by
  induction m generalizing total calls with
  | zero =>
      cases hsend
      exact List.prefix_rfl
  | succ m ih =>
      obtain ⟨ok, calls', hbatch, hfail, hrest⟩ := sendRepeats_succ_eq_some hB hsend
      have hprefix := prefix_of_sendBatch hbatch
      cases ok with
      | false =>
          rw [hfail rfl]
          exact hprefix
      | true => exact hprefix.trans (ih (hrest rfl))

/-- A first batch that goes on behind an error shows in all that the function does. -/
theorem goesOn_of_sendBatch (hB : 1 < B) {m : ℕ} {total : Int64} {out : Int64 × List MmsgCall}
    (hgoes : ∀ ok calls', sendBatch results B fuel B calls = some (ok, calls') → GoesOn calls')
    (hsend : sendRepeats results B size fuel (m + 1) total calls = some out) : GoesOn out.2 := by
  obtain ⟨ok, calls', hbatch, hfail, hrest⟩ := sendRepeats_succ_eq_some hB hsend
  have hcalls := hgoes ok calls' hbatch
  cases ok with
  | false =>
      rw [hfail rfl]
      exact hcalls
  | true => exact hcalls.mono (prefix_of_sendRepeats hB (hrest rfl))

/-- All batches get through, or the function goes on behind a call that has failed. -/
theorem sendRepeats_cases (size : Int32) (hpossible : Plausible batch results) (hB : 1 < B)
    (hsize : B.toNat = batch) (hbatch : batch < 2 ^ 64 - 1) {repeats : ℕ} (m : ℕ)
    (h : Progress batch results calls n batch) (hrepeats : n + m = repeats) (total : Int64) :
    (∃ calls', Progress batch results calls' repeats batch ∧
        sendRepeats results B size (batch + 1) m total calls =
          some ((total.toUInt64 + .ofNat m * (size.toInt64.toUInt64 * B)).toInt64, calls')) ∨
      FailsEarly batch repeats results ∧ ∀ fuel out,
        sendRepeats results B size fuel m total calls = some out → GoesOn out.2 := by
  induction m generalizing n calls total with
  | zero =>
      left
      refine ⟨calls, ?_, ?_⟩
      · rwa [← hrepeats]
      · simp [sendRepeats]
  | succ m ih =>
      obtain ⟨calls', hdone, hsend⟩ | ⟨hearly, hgoes⟩ :=
        sendBatch_cases h hpossible repeats (by omega) hsize hsize hbatch
      · obtain ⟨calls'', hall, hrest⟩ | ⟨hearly, hgoes⟩ :=
          ih hdone (by omega) (total.toUInt64 + size.toInt64.toUInt64 * B).toInt64
        · left
          refine ⟨calls'', hall, ?_⟩
          rw [sendRepeats_succ hB, hsend _ (Nat.lt_succ_self batch)]
          simp only
          rw [hrest]
          -- the batch adds its size once
          have htotal : total.toUInt64 + .ofNat (m + 1) * (size.toInt64.toUInt64 * B) =
              total.toUInt64 + size.toInt64.toUInt64 * B +
                .ofNat m * (size.toInt64.toUInt64 * B) := by
            rw [UInt64.ofNat_add, UInt64.add_mul, show UInt64.ofNat 1 = 1 from rfl, UInt64.one_mul,
              UInt64.add_assoc, UInt64.add_comm (.ofNat m * _)]
          rw [htotal]
          rfl
        · right
          refine ⟨hearly, fun fuel out hout => ?_⟩
          obtain ⟨ok, first, hone, -, hlater⟩ := sendRepeats_succ_eq_some hB hout
          -- more fuel makes no difference to a batch that ends
          have hmore := sendBatch_mono hone (Nat.le_add_right fuel (batch + 1))
          rw [hsend _ (by omega)] at hmore
          cases hmore
          exact hgoes fuel out (hlater rfl)
      · exact .inr ⟨hearly, fun fuel out hout => goesOn_of_sendBatch hB (hgoes fuel) hout⟩

/-- What is returned for `m` batches, if it fits. -/
theorem toInt_sent (hpos : 0 < size) {m : ℕ} (hfits : size.toInt * B.toNat * m < 2 ^ 31) :
    (UInt64.ofNat m * (size.toInt64.toUInt64 * B)).toInt64.toInt32.toInt =
      size.toInt * B.toNat * m := by
  obtain ⟨s, hs⟩ := Int.eq_ofNat_of_zero_le (Int32.lt_iff_toInt_lt.mp hpos).le
  have hsize : size.toInt64.toUInt64 = .ofNat s := by
    have hnat : size.toInt64.toUInt64.toNat = s :=
      toNat_toUInt64 ((Int32.toInt_toInt64 size).trans hs)
    rw [← hnat, UInt64.ofNat_toNat]
  have hproduct : UInt64.ofNat m * (size.toInt64.toUInt64 * B) = .ofNat (s * B.toNat * m) := by
    rw [hsize, Nat.mul_comm, UInt64.ofNat_mul, UInt64.ofNat_mul, UInt64.ofNat_toNat]
  rw [hs] at hfits ⊢
  rw [hproduct]
  have hlow : s * B.toNat * m < 2 ^ 31 := by exact_mod_cast hfits
  have hvalue : (UInt64.ofNat (s * B.toNat * m)).toInt64 = Int64.ofNat (s * B.toNat * m) := rfl
  rw [hvalue, Int64.toInt_toInt32, Int64.toInt_ofNat_of_lt (by omega)]
  rw [Int.bmod_eq_of_le (by omega) (by omega)]
  push_cast
  rfl

/-- Once all messages have been accepted, the function has done what it should. -/
theorem Progress.handled {repeats : ℕ} (h : Progress batch results calls repeats batch)
    (hpos : 0 < size) (hsize : B.toNat = batch) :
    Handled size batch repeats
      ((.ofNat repeats * (size.toInt64.toUInt64 * B) : UInt64).toInt64.toInt32, calls) where
  inside := h.inside
  failed before call rest hsplit hfail := by
    have hcall : call ∈ calls := by
      rw [show calls = before ++ call :: rest from hsplit]
      simp
    exact absurd hfail (h.result_ne hcall)
  sent _ := by
    have hall := h.accepted
    rw [Nat.sub_self, List.range_zero, List.append_nil] at hall
    refine ⟨hall, fun hfits => ?_⟩
    rw [← hsize] at hfits ⊢
    exact toInt_sent hpos hfits

/-- What goes on behind a call that has failed is not what should be done. -/
theorem GoesOn.not_handled {repeats : ℕ} {out : Int32 × List MmsgCall} (h : GoesOn out.2) :
    ¬ Handled size batch repeats out := by
  intro hhandled
  obtain ⟨before, call, next, ⟨rest, hrest⟩, hfail⟩ := h
  rw [List.append_assoc, List.cons_append, List.cons_append, List.nil_append] at hrest
  exact absurd (hhandled.failed before call (next :: rest) hrest.symm hfail).2
    (List.cons_ne_nil _ _)

/-- An early error leaves no room for all messages before it. -/
theorem FailsEarly.not_allSent {repeats : ℕ} (hpossible : Plausible batch results)
    (h : FailsEarly batch repeats results) : ¬ AllSent batch repeats results := by
  rintro ⟨m, hclean, hsum⟩
  obtain ⟨k, hbefore, hfail, hlt⟩ := h
  have hle : m ≤ k := by
    by_contra! hgt
    exact hclean k hgt hfail
  have hmono := hpossible.sentBefore_mono hle hbefore
  omega

end

/-- `protocol_sctp_write` handles every result as it should exactly if there is memory for the
headers, where they are not on the stack, and no call fails before all messages have been
accepted. -/
theorem handled_iff {calloc : UInt64 → Bool}
    (hcalloc : ∀ n, calloc n = true → n.toNat * mmsghdrSize < 2 ^ 64) {size : Int32}
    (hpos : 0 < size) {options : Option FlowopOptions} (hbatch : 1 < batchSize options)
    {results : ℕ → Int64} (hpossible : Plausible (batchSize options).toNat results) :
    (∃ fuel out, protocolSctpWrite calloc results size options fuel = some out ∧
        Handled size (batchSize options).toNat (repetitions options) out) ↔
      (batchSize options ≤ sctpMmsgStackSize ∨ calloc (batchSize options) = true) ∧
        AllSent (batchSize options).toNat (repetitions options) results := by
  by_cases hmemory : batchSize options ≤ sctpMmsgStackSize ∨ calloc (batchSize options) = true
  · have hlarge : (batchSize options).toNat < 2 ^ 64 - 1 := by
      obtain hstack | hheap := hmemory
      · rw [UInt64.le_iff_toNat_le] at hstack
        exact hstack.trans_lt (by decide)
      · have hheap := hcalloc _ hheap
        unfold mmsghdrSize at hheap
        omega
    have hrun : ∀ fuel, protocolSctpWrite calloc results size options fuel =
        (sendRepeats results (batchSize options) size fuel (repetitions options) 0 []).map
          fun (total, calls) => (total.toInt32, calls) := by
      intro fuel
      refine if_neg fun h => ?_
      obtain hstack | hheap := hmemory
      · exact absurd h.1 (UInt64.not_lt.mpr hstack)
      · exact h.2 hheap
    simp only [hrun, hmemory, true_and]
    obtain ⟨calls, hall, hsend⟩ | ⟨hearly, hgoes⟩ :=
      sendRepeats_cases size hpossible hbatch rfl hlarge (repetitions options)
        (progress_nil _ results) (Nat.zero_add _) 0
    · refine iff_of_true ⟨_, _, Option.map_eq_some_iff.mpr ⟨_, hsend, rfl⟩, ?_⟩
        ⟨calls.length, hall.clean, ?_⟩
      · simpa using hall.handled hpos rfl
      · rw [hall.sum, Nat.sub_self, Nat.add_zero, Nat.mul_comm]
        push_cast
        rfl
    · refine iff_of_false ?_ (hearly.not_allSent hpossible)
      rintro ⟨fuel, out, hout, hhandled⟩
      obtain ⟨whole, hwhole, rfl⟩ := Option.map_eq_some_iff.mp hout
      exact GoesOn.not_handled (hgoes fuel whole hwhole) hhandled
  · refine iff_of_false ?_ fun h => hmemory h.1
    rintro ⟨fuel, out, hout, hhandled⟩
    rw [not_or] at hmemory
    rw [protocolSctpWrite, if_pos ⟨UInt64.not_le.mp hmemory.1, hmemory.2⟩] at hout
    cases hout
    obtain ⟨haccepted, hreturned⟩ := hhandled.sent nofun
    -- without a call there must have been no repetition, and zero is returned then
    have hnone : repetitions options = 0 := by
      have hlength := congrArg List.length haccepted
      rw [length_batches] at hlength
      obtain hzero | hzero := Nat.mul_eq_zero.mp hlength.symm
      · exact hzero
      · rw [UInt64.lt_iff_toNat_lt, hzero] at hbatch
        exact absurd hbatch (by decide)
    have hvalue := hreturned (by simp [hnone])
    rw [hnone] at hvalue
    exact absurd hvalue (by simp)

/-- The options of a flowop that sends two messages at once. -/
def pairOptions : FlowopOptions where
  repeats := 1
  batchSize := 2

/-- There is memory for a few headers. -/
def smallCalloc (n : UInt64) : Bool := n.toNat * mmsghdrSize < 2 ^ 16

theorem smallCalloc_fits (n : UInt64) (hn : smallCalloc n = true) :
    n.toNat * mmsghdrSize < 2 ^ 64 :=
  (of_decide_eq_true hn).trans (by decide)

/-- Both messages are accepted by the first call. -/
def pairAccepted (k : ℕ) : Int64 := if k = 0 then 2 else -1

theorem plausible_pairAccepted : Plausible 2 pairAccepted := by
  intro k _
  by_cases hk : k = 0
  · right
    subst hk
    decide
  · exact .inl (if_neg hk)

theorem handled_iff_pair :
    (∃ fuel out, protocolSctpWrite smallCalloc pairAccepted 10 pairOptions fuel = some out ∧
        Handled 10 (batchSize pairOptions).toNat (repetitions pairOptions) out) ↔
      (batchSize pairOptions ≤ sctpMmsgStackSize ∨ smallCalloc (batchSize pairOptions) = true) ∧
        AllSent (batchSize pairOptions).toNat (repetitions pairOptions) pairAccepted :=
  handled_iff smallCalloc_fits (by decide) (by decide) plausible_pairAccepted

/-- Where the first call is interrupted, it is not the last one. -/
theorem not_handled_interrupted :
    ¬ ∀ (calloc : UInt64 → Bool) (results : ℕ → Int64) (size : Int32)
      (options : Option FlowopOptions),
      (∀ n, calloc n = true → n.toNat * mmsghdrSize < 2 ^ 64) → 0 < size →
      1 < batchSize options → Plausible (batchSize options).toNat results →
      ∃ fuel out, protocolSctpWrite calloc results size options fuel = some out ∧
        Handled size (batchSize options).toNat (repetitions options) out := by
  intro h
  obtain ⟨fuel, out, hout, hhandled⟩ := h smallCalloc (fun _ => -1) 10 pairOptions
    smallCalloc_fits (by decide) (by decide) fun k _ => .inl rfl
  obtain ⟨whole, hwhole, rfl⟩ := Option.map_eq_some_iff.mp hout
  have hrun : sendRepeats (fun _ => -1) (batchSize pairOptions) 10 fuel 1 0 [] = some whole :=
    hwhole
  have hgoes : GoesOn whole.2 := goesOn_of_sendBatch (by decide)
    (fun ok calls' hone => goesOn_of_failed (by decide) (by decide) rfl hone) hrun
  exact GoesOn.not_handled hgoes hhandled

end Sctp

end Uperf
