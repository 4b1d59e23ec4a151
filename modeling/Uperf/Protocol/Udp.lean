import Mathlib.Data.List.Basic
import Uperf.Protocol.Timeout

/-!
# Reads and writes over UDP

`protocol_udp_read` and `protocol_udp_write` make up to two calls in each repetition, the
first one when the socket does not block.  Where it would have, the write goes on with all
of its bytes, but the read subtracts the `-1` and asks for one more than it was given.
`within_iff` says when nothing is asked for or returned that is too much.
-/

namespace Uperf

/-- `O_NONBLOCKING`. -/
def oNonblocking : UInt32 := (1 : UInt32) <<< 3

/-- `FO_NONBLOCKING`. -/
def FlowopOptions.foNonblocking (fo : FlowopOptions) : Bool := fo.flag &&& oNonblocking ≠ 0

namespace Udp

/-! ## The calls -/

/-- A call of `recvmsg` or `sendmsg`: what it returns at most, and whether `errno` is
`EWOULDBLOCK` when it is looked at afterwards. -/
structure MsgCall where
  ret : ℤ
  wouldBlock : Bool

/-- The results of the calls in one repetition. -/
structure Repetition where
  first : MsgCall
  poll : Int32
  second : MsgCall

/-- `iov_len` for a length of type `int`. -/
def iovLen (len : Int32) : ℕ := (len.toInt % 2 ^ 64).toNat

/-- What the call returns when it is asked for `len` bytes. -/
def MsgCall.result (call : MsgCall) (len : Int32) : Int32 :=
  Int32.ofInt (max (-1) (min call.ret (iovLen len)))

/-- `read_one`. -/
def readOne (call : MsgCall) (len : Int32) : Int32 :=
  let ret := call.result len
  if ret ≤ 0 then -1 else ret

/-- `write_one`, for an address of one of the families that it knows. -/
def writeOne (call : MsgCall) (len : Int32) : Int32 := call.result len

/-! ## The repetitions -/

/-- A repetition: what its calls ask for, and what is returned, or else added to `total`. -/
structure Turn where
  requests : List ℕ
  outcome : Int32 ⊕ Int32

/-- A call for `nleft` bytes, whose errors are returned. -/
def lastCall (one : MsgCall → Int32 → Int32) (call : MsgCall) (nleft : Int32) : Turn :=
  let ret := one call nleft
  { requests := [iovLen nleft], outcome := if ret < 0 then .inl ret else .inr ret }

/-- The second part of a repetition, with `nleft` bytes to go; `more` is the test of
whether there are any. -/
def secondCall (one : MsgCall → Int32 → Int32) (timeout : ℤ) (more : Bool) (nleft : Int32)
    (r : Repetition) : Turn :=
  if more ∧ 0 < timeout then
    if r.poll ≤ 0 then { requests := [], outcome := .inl (-1) } else lastCall one r.second nleft
  else if more ∧ timeout ≤ 0 then lastCall one r.second nleft
  else { requests := [], outcome := .inr 0 }

/-- The repetition with a first call before it, which has done `got` bytes. -/
def Turn.after (n : Int32) (got : Int32) (t : Turn) : Turn where
  requests := iovLen n :: t.requests
  outcome := t.outcome.map id (got + ·)

/-- The loop body of `protocol_udp_read`. -/
def readTurn (options : Option FlowopOptions) (n : Int32) (r : Repetition) : Turn :=
  let timeout := udpTimeout options
  let second nleft := secondCall readOne timeout (0 < nleft) nleft r
  if options.any FlowopOptions.foNonblocking then
    let ret := readOne r.first n
    if ret ≤ 0 ∧ ¬ r.first.wouldBlock then { requests := [iovLen n], outcome := .inl ret }
    else (second (n - ret)).after n (if 0 < ret then ret else 0)
  else second n

/-- The loop body of `protocol_udp_write`; `nleft` is unsigned. -/
def writeTurn (options : Option FlowopOptions) (n : Int32) (r : Repetition) : Turn :=
  let timeout := udpTimeout options
  let second nleft := secondCall writeOne timeout (nleft ≠ 0) nleft r
  if options.any FlowopOptions.foNonblocking then
    let ret := writeOne r.first n
    if ret ≤ 0 ∧ ¬ r.first.wouldBlock then { requests := [iovLen n], outcome := .inl (-1) }
    else if 0 < ret then (second (n - ret)).after n ret
    else (second n).after n 0
  else second n

/-- The loop over the repetitions: what is returned, and all requests. -/
def repeatLoop (turn : Repetition → Turn) :
    Int32 → List ℕ → List Repetition → Int32 × List ℕ
  | total, requests, [] => (total, requests)
  | total, requests, r :: rest =>
      match (turn r).outcome with
      | .inl ret => (ret, requests ++ (turn r).requests)
      | .inr got => repeatLoop turn (total + got) (requests ++ (turn r).requests) rest

/-- `repeat`. -/
def repetitions (options : Option FlowopOptions) : ℕ :=
  options.elim 1 fun fo => fo.repeats.toNat

/-- What the calls of the repetitions return. -/
def calls (options : Option FlowopOptions) (results : ℕ → Repetition) : List Repetition :=
  (List.range (repetitions options)).map results

/-- `protocol_udp_read`, with the lengths that it asks for. -/
def protocolUdpRead (options : Option FlowopOptions) (n : Int32) (results : ℕ → Repetition) :
    Int32 × List ℕ :=
  repeatLoop (readTurn options n) 0 [] (calls options results)

/-- `protocol_udp_write`, with the lengths that it asks for. -/
def protocolUdpWrite (options : Option FlowopOptions) (n : Int32) (results : ℕ → Repetition) :
    Int32 × List ℕ :=
  repeatLoop (writeTurn options n) 0 [] (calls options results)

/-! ## Within the buffer -/

/-- No request is for more than `n` bytes, and a result that is no error is at most `n` times
the repetitions. -/
structure Within (n : Int32) (repeats : ℕ) (out : Int32 × List ℕ) : Prop where
  requests : ∀ len ∈ out.2, (len : ℤ) ≤ n.toInt
  result : 0 ≤ out.1.toInt → out.1.toInt ≤ n.toInt * repeats

/-- The repetitions that are made: those up to the first that returns. -/
def performed (turn : Repetition → Turn) : List Repetition → List Repetition
  | [] => []
  | r :: rest =>
      r :: match (turn r).outcome with
        | .inl _ => []
        | .inr _ => performed turn rest

/-- The first read of the repetition would block, and there is another one. -/
def Overruns (options : Option FlowopOptions) (n : Int32) (r : Repetition) : Prop :=
  options.any FlowopOptions.foNonblocking = true ∧ readOne r.first n ≤ 0 ∧
    r.first.wouldBlock = true ∧ n.toInt < 2 ^ 31 - 1 ∧ (udpTimeout options ≤ 0 ∨ 0 < r.poll)

/-- A repetition asks for no more than `n` bytes, adds no more, and returns only errors. -/
structure Turn.Within (n : ℕ) (t : Turn) : Prop where
  requests : ∀ len ∈ t.requests, len ≤ n
  returned : ∀ ret, t.outcome = .inl ret → ret.toInt < 0
  added : ∀ got, t.outcome = .inr got → ∃ k ≤ n, got = Int32.ofNat k

/-- A call returns an error, or no more than it was asked for. -/
def BoundedCall (one : MsgCall → Int32 → Int32) : Prop :=
  ∀ call len, 0 ≤ len.toInt →
    (one call len).toInt < 0 ∨ ∃ k ≤ len.toInt.toNat, one call len = Int32.ofNat k

section

variable {len n nleft : Int32} {m : ℕ} {options : Option FlowopOptions} {r : Repetition}

theorem iovLen_of_nonneg (hlen : 0 ≤ len.toInt) : iovLen len = len.toInt.toNat := by
  have hlt := len.toInt_lt
  rw [iovLen, Int.emod_eq_of_lt hlen (by omega)]

theorem boundedCall_writeOne : BoundedCall writeOne := by
  intro call len hlen
  have hlt := len.toInt_lt
  rw [writeOne, MsgCall.result, iovLen_of_nonneg hlen]
  obtain hneg | hnonneg := lt_or_ge (min call.ret len.toInt.toNat) 0
  · left
    rw [max_eq_left (by omega)]
    decide
  · right
    refine ⟨(min call.ret len.toInt.toNat).toNat, by omega, ?_⟩
    rw [max_eq_right (by omega), ← Int32.ofInt_eq_ofNat, Int.toNat_of_nonneg hnonneg]

theorem ofNat_pos_iff {k : ℕ} (hk : k < 2 ^ 31) : 0 < Int32.ofNat k ↔ 0 < k := by
  rw [Int32.lt_iff_toInt_lt, Int32.toInt_ofNat_of_lt hk]
  exact Int.natCast_pos

/-- `read_one` returns `-1`, or a positive number that is no more than it was asked for. -/
theorem readOne_cases (call : MsgCall) (hlen : 0 ≤ len.toInt) :
    readOne call len = -1 ∨
      ∃ k, 0 < k ∧ k ≤ len.toInt.toNat ∧ readOne call len = Int32.ofNat k := by
  have hlt := len.toInt_lt
  obtain hneg | ⟨k, hk, hret⟩ := boundedCall_writeOne call len hlen
  · left
    have hle : call.result len ≤ 0 := Int32.le_iff_toInt_le.mpr hneg.le
    rw [readOne, if_pos hle]
  · rw [writeOne] at hret
    rw [readOne, hret]
    have hpos := ofNat_pos_iff (k := k) (by omega)
    obtain rfl | hkpos := Nat.eq_zero_or_pos k
    · exact .inl rfl
    · exact .inr ⟨k, hkpos, hk, if_neg (Int32.not_le.mpr (hpos.mpr hkpos))⟩

theorem boundedCall_readOne : BoundedCall readOne := by
  intro call len hlen
  obtain hret | ⟨k, -, hk, hret⟩ := readOne_cases call hlen
  · left
    rw [hret]
    decide
  · exact .inr ⟨k, hk, hret⟩

/-! ## One repetition -/

theorem within_lastCall {one : MsgCall → Int32 → Int32} (hone : BoundedCall one)
    (call : MsgCall) (hnleft : 0 ≤ nleft.toInt) :
    (lastCall one call nleft).Within nleft.toInt.toNat := by
  constructor
  · intro len hlen
    rw [List.mem_singleton.mp hlen, iovLen_of_nonneg hnleft]
  · intro ret hret
    simp only [lastCall] at hret
    split_ifs at hret with hneg
    cases hret
    exact Int32.lt_iff_toInt_lt.mp hneg
  · intro got hgot
    simp only [lastCall] at hgot
    split_ifs at hgot with hneg
    cases hgot
    obtain hlt | hk := hone call nleft hnleft
    · exact absurd (Int32.lt_iff_toInt_lt.mpr hlt) hneg
    · exact hk

theorem within_none : Turn.Within m { requests := [], outcome := .inr 0 } where
  requests len hlen := by cases hlen
  returned ret hret := by cases hret
  added got hgot := by
    cases hgot
    exact ⟨0, Nat.zero_le m, rfl⟩

theorem within_error {requests : List ℕ} (hrequests : ∀ len ∈ requests, len ≤ m) :
    Turn.Within m { requests := requests, outcome := .inl (-1) } where
  requests := hrequests
  returned ret hret := by
    cases hret
    decide
  added got hgot := by cases hgot

/-- The second part of a repetition stays within what is left. -/
theorem within_secondCall {one : MsgCall → Int32 → Int32} (hone : BoundedCall one) (timeout : ℤ)
    {more : Bool} (hnleft : more = true → 0 ≤ nleft.toInt) (r : Repetition) :
    (secondCall one timeout more nleft r).Within nleft.toInt.toNat := by
  rw [secondCall]
  split_ifs with hpoll hfail hvanilla
  · exact within_error fun len hlen => by cases hlen
  · exact within_lastCall hone r.second (hnleft hpoll.1)
  · exact within_lastCall hone r.second (hnleft hvanilla.1)
  · exact within_none

/-- A first call that has done its part leaves the rest. -/
theorem within_after {t : Turn} {k : ℕ} (hn : 0 ≤ n.toInt) (ht : t.Within m)
    (hk : k + m ≤ n.toInt.toNat) : (t.after n (Int32.ofNat k)).Within n.toInt.toNat := by
  constructor
  · intro len hlen
    obtain rfl | hlen := List.mem_cons.mp hlen
    · exact (iovLen_of_nonneg hn).le
    · exact (ht.requests len hlen).trans (by omega)
  · intro ret hret
    rw [Turn.after] at hret
    cases hout : t.outcome with
    | inl ret' =>
        rw [hout] at hret
        cases hret
        exact ht.returned _ hout
    | inr got =>
        rw [hout] at hret
        cases hret
  · intro got hgot
    rw [Turn.after] at hgot
    cases hout : t.outcome with
    | inl ret =>
        rw [hout] at hgot
        cases hgot
    | inr more =>
        rw [hout] at hgot
        cases hgot
        obtain ⟨j, hj, rfl⟩ := ht.added more hout
        exact ⟨k + j, by omega, (Int32.ofNat_add k j).symm⟩

theorem toInt_sub_ofNat {k : ℕ} (hn : 0 ≤ n.toInt) (hk : k ≤ n.toInt.toNat) :
    (n - Int32.ofNat k).toInt = n.toInt - k := by
  have hlt := n.toInt_lt
  have hvalue : (Int32.ofNat k).toInt = k := Int32.toInt_ofNat_of_lt (by omega)
  rw [Int32.toInt_sub, hvalue, Int.bmod_eq_of_le] <;> omega

/-- A repetition of the write stays within the buffer. -/
theorem within_writeTurn (hn : 0 ≤ n.toInt) (options : Option FlowopOptions) (r : Repetition) :
    (writeTurn options n r).Within n.toInt.toNat := by
  have hlt := n.toInt_lt
  rw [writeTurn]
  simp only
  split_ifs with hnonblocking hfail hpos
  · refine within_error fun len hlen => ?_
    rw [List.mem_singleton.mp hlen, iovLen_of_nonneg hn]
  · obtain hneg | ⟨k, hk, hret⟩ := boundedCall_writeOne r.first n hn
    · exact absurd (Int32.lt_iff_toInt_lt.mp hpos) (not_lt.mpr hneg.le)
    · have hleft := toInt_sub_ofNat hn hk
      rw [hret]
      refine within_after hn (within_secondCall boundedCall_writeOne _ (fun _ => ?_) r) ?_
      · omega
      · omega
  · refine within_after (k := 0) hn
      (within_secondCall boundedCall_writeOne _ (fun _ => hn) r) ?_
    omega
  · exact within_secondCall boundedCall_writeOne _ (fun _ => hn) r

theorem toInt_sub_neg_one (n : Int32) : (n - -1).toInt = (n.toInt + 1).bmod (2 ^ 32) := by
  have hneg : (-1 : Int32).toInt = -1 := by decide
  rw [Int32.toInt_sub, hneg, Int.sub_neg]

/-- After a first read that would block, nothing more is read by a repetition that does not
overrun the buffer. -/
theorem within_blocked (hn : 0 ≤ n.toInt) (hnonblocking : options.any FlowopOptions.foNonblocking)
    (hret : readOne r.first n = -1) (hblock : r.first.wouldBlock = true)
    (hover : ¬ Overruns options n r) :
    (secondCall readOne (udpTimeout options) (0 < n - -1) (n - -1) r).Within 0 := by
  have hlt := n.toInt_lt
  have hle : readOne r.first n ≤ 0 := by
    rw [hret]
    decide
  have hleft := toInt_sub_neg_one n
  rw [secondCall]
  by_cases hmore : 0 < n - -1
  · -- one more byte than `n` is an `int`, so there must have been no second read
    have hpos : 0 < (n - -1).toInt := Int32.lt_iff_toInt_lt.mp hmore
    have hsmall : n.toInt < 2 ^ 31 - 1 := by
      by_contra! hge
      have heq : n.toInt = 2 ^ 31 - 1 := by omega
      rw [hleft, heq] at hpos
      exact absurd hpos (by decide)
    have hpoll : ¬ (udpTimeout options ≤ 0 ∨ 0 < r.poll) := fun h =>
      hover ⟨hnonblocking, hle, hblock, hsmall, h⟩
    rw [not_or, not_le] at hpoll
    rw [if_pos ⟨decide_eq_true hmore, hpoll.1⟩, if_pos (Int32.not_lt.mp hpoll.2)]
    exact within_error fun len hlen => by cases hlen
  · have hfalse : ¬ decide (0 < n - -1) = true := by simpa using hmore
    rw [if_neg fun h => hfalse h.1, if_neg fun h => hfalse h.1]
    exact within_none

/-- A repetition of the read stays within the buffer unless it overruns it. -/
theorem within_readTurn (hn : 0 ≤ n.toInt) (hover : ¬ Overruns options n r) :
    (readTurn options n r).Within n.toInt.toNat := by
  have hlt := n.toInt_lt
  rw [readTurn]
  simp only
  by_cases hnonblocking : options.any FlowopOptions.foNonblocking = true
  · rw [if_pos hnonblocking]
    obtain hret | ⟨k, hpos, hk, hret⟩ := readOne_cases r.first hn
    · rw [hret]
      split_ifs with hfail hsome
      · refine within_error fun len hlen => ?_
        rw [List.mem_singleton.mp hlen, iovLen_of_nonneg hn]
      · exact absurd hsome (by decide)
      · have hblock : r.first.wouldBlock = true := by
          by_contra hblock
          exact hfail ⟨by decide, hblock⟩
        exact within_after (k := 0) hn (within_blocked hn hnonblocking hret hblock hover)
          (Nat.zero_le _)
    · have hsome : 0 < Int32.ofNat k := (ofNat_pos_iff (by omega)).mpr hpos
      have hleft := toInt_sub_ofNat hn hk
      rw [hret, if_neg fun h => Int32.not_lt.mpr h.1 hsome, if_pos hsome]
      refine within_after hn (within_secondCall boundedCall_readOne _ (fun _ => ?_) r) ?_
      · omega
      · omega
  · rw [if_neg hnonblocking]
    exact within_secondCall boundedCall_readOne _ (fun _ => hn) r

/-- A repetition that overruns the buffer asks for more than it has. -/
theorem lt_of_overruns (hn : 0 ≤ n.toInt) (hover : Overruns options n r) :
    ∃ len ∈ (readTurn options n r).requests, n.toInt < len := by
  obtain ⟨hnonblocking, hle, hblock, hsmall, hsecond⟩ := hover
  have hret : readOne r.first n = -1 := by
    obtain hret | ⟨k, hpos, hk, hret⟩ := readOne_cases r.first hn
    · exact hret
    · rw [hret] at hle
      exact absurd ((ofNat_pos_iff (by omega)).mpr hpos) (Int32.not_lt.mpr hle)
  have hleft : (n - -1).toInt = n.toInt + 1 := by
    rw [toInt_sub_neg_one, Int.bmod_eq_of_le] <;> omega
  have hmore : 0 < n - -1 := by
    rw [Int32.lt_iff_toInt_lt, hleft]
    show (0 : ℤ) < n.toInt + 1
    omega
  have hrequests : iovLen (n - -1) ∈ (secondCall readOne (udpTimeout options)
      (0 < n - -1) (n - -1) r).requests := by
    rw [secondCall]
    split_ifs with hpoll hfail hvanilla
    · obtain htimeout | hready := hsecond
      · exact absurd hpoll.2 (not_lt.mpr htimeout)
      · exact absurd hready (Int32.not_lt.mpr hfail)
    · exact List.mem_singleton_self _
    · exact List.mem_singleton_self _
    · have htimeout : ¬ 0 < udpTimeout options := fun h => hpoll ⟨decide_eq_true hmore, h⟩
      exact absurd ⟨decide_eq_true hmore, not_lt.mp htimeout⟩ hvanilla
  refine ⟨iovLen (n - -1), ?_, ?_⟩
  · rw [readTurn]
    simp only
    rw [if_pos hnonblocking, hret, if_neg fun h => h.2 hblock]
    exact List.mem_cons_of_mem _ hrequests
  · rw [iovLen_of_nonneg (by omega), hleft]
    omega

/-! ## All repetitions -/

section

variable {turn : Repetition → Turn}

/-- The requests are those of the repetitions that are made. -/
theorem repeatLoop_requests (total : Int32) (requests : List ℕ) (reps : List Repetition) :
    (repeatLoop turn total requests reps).2 =
      requests ++ (performed turn reps).flatMap fun r => (turn r).requests := by
  induction reps generalizing total requests with
  | nil => simp [repeatLoop, performed]
  | cons r rest ih =>
      rw [repeatLoop, performed, List.flatMap_cons]
      cases hout : (turn r).outcome with
      | inl ret => simp
      | inr got =>
          simp only
          rw [ih, List.append_assoc]

theorem toInt_ofNat_le (k : ℕ) : (Int32.ofNat k).toInt ≤ k := by
  have hk : (0 : ℤ) ≤ k := Int.natCast_nonneg k
  rw [← Int32.ofInt_eq_ofNat, Int32.toInt_ofInt, Int.bmod_def, show Int32.size = 2 ^ 32 from rfl]
  split_ifs <;> omega

/-- Each repetition within the buffer adds no more than its size. -/
theorem repeatLoop_result {m : ℕ} (total : ℕ) (requests : List ℕ) (reps : List Repetition)
    (hreps : ∀ r ∈ performed turn reps, (turn r).Within m) :
    0 ≤ (repeatLoop turn (Int32.ofNat total) requests reps).1.toInt →
      (repeatLoop turn (Int32.ofNat total) requests reps).1.toInt ≤
        (total + m * reps.length : ℕ) := by
  induction reps generalizing total requests with
  | nil =>
      intro _
      exact (toInt_ofNat_le total).trans (by simp)
  | cons r rest ih =>
      have hr : (turn r).Within m := hreps r (by simp [performed])
      rw [repeatLoop]
      cases hout : (turn r).outcome with
      | inl ret =>
          intro hnonneg
          exact absurd hnonneg (not_le.mpr (hr.returned ret hout))
      | inr got =>
          obtain ⟨k, hk, rfl⟩ := hr.added got hout
          have hrest : ∀ r' ∈ performed turn rest, (turn r').Within m := by
            intro r' hr'
            apply hreps
            rw [performed, hout]
            exact List.mem_cons_of_mem r hr'
          intro hnonneg
          have hnext := ih (total + k) (requests ++ (turn r).requests) hrest
          rw [Int32.ofNat_add] at hnext
          refine (hnext hnonneg).trans ?_
          rw [List.length_cons, Nat.mul_succ]
          push_cast
          omega

/-- Repetitions within the buffer keep the whole call within it. -/
theorem within_repeatLoop (hn : 0 ≤ n.toInt) {reps : List Repetition}
    (hreps : ∀ r ∈ performed turn reps, (turn r).Within n.toInt.toNat) :
    Within n reps.length (repeatLoop turn 0 [] reps) := by
  constructor
  · intro len hlen
    rw [repeatLoop_requests, List.nil_append] at hlen
    obtain ⟨r, hr, hlen⟩ := List.mem_flatMap.mp hlen
    have hle := (hreps r hr).requests len hlen
    omega
  · intro hnonneg
    have hresult := repeatLoop_result 0 [] reps hreps hnonneg
    refine hresult.trans_eq ?_
    rw [Nat.zero_add]
    push_cast
    rw [Int.toNat_of_nonneg hn]

/-- With a negative length the read asks for far more, or returns what is too much. -/
theorem not_within_of_neg (hn : n.toInt < 0) (options : Option FlowopOptions) (r : Repetition)
    (rest : List Repetition) :
    ¬ Within n (rest.length + 1) (repeatLoop (readTurn options n) 0 [] (r :: rest)) := by
  have hlow : -2 ^ 31 ≤ n.toInt := n.le_toInt
  intro hwithin
  by_cases hnonblocking : options.any FlowopOptions.foNonblocking = true
  · have hmem : iovLen n ∈ (repeatLoop (readTurn options n) 0 [] (r :: rest)).2 := by
      rw [repeatLoop_requests, List.nil_append, performed, List.flatMap_cons]
      apply List.mem_append_left
      rw [readTurn]
      simp only
      rw [if_pos hnonblocking]
      split_ifs <;> simp [Turn.after]
    have hle := hwithin.requests _ hmem
    have hlen := Int.emod_nonneg n.toInt (show (2 ^ 64 : ℤ) ≠ 0 by norm_num)
    rw [iovLen] at hle
    omega
  · have hturn : ∀ r, readTurn options n r = { requests := [], outcome := .inr 0 } := by
      intro r
      have hmore : ¬ 0 < n := fun h => absurd (Int32.lt_iff_toInt_lt.mp h) (not_lt.mpr hn.le)
      rw [readTurn]
      simp only
      rw [if_neg hnonblocking, secondCall]
      simp [hmore]
    have hzero : ∀ reps, repeatLoop (readTurn options n) 0 [] reps = (0, []) := by
      intro reps
      induction reps with
      | nil => rfl
      | cons r rest ih =>
          rw [repeatLoop, hturn]
          exact ih
    have hresult := hwithin.result
    rw [hzero] at hresult
    have hle : (0 : ℤ) ≤ n.toInt * (rest.length + 1 : ℕ) := hresult le_rfl
    have hneg : n.toInt * (rest.length + 1 : ℕ) < 0 :=
      mul_neg_of_neg_of_pos hn (by positivity)
    omega

end

end

/-- Whatever the calls return, the reads and writes of a flowop stay within the buffer and
return no more than its size for each repetition, exactly if there is no repetition, or no
repetition that is made has a first read that would block and is followed by another. -/
theorem within_iff (options : Option FlowopOptions) (n : Int32) (reads writes : ℕ → Repetition) :
    Within n (repetitions options) (protocolUdpRead options n reads) ∧
        Within n (repetitions options) (protocolUdpWrite options n writes) ↔
      repetitions options = 0 ∨ 0 ≤ n.toInt ∧
        ∀ r ∈ performed (readTurn options n) (calls options reads), ¬ Overruns options n r := by
  have hlength : ∀ results, (calls options results).length = repetitions options := by
    intro results
    simp [calls]
  constructor
  · rintro ⟨hread, -⟩
    by_cases hzero : repetitions options = 0
    · exact .inl hzero
    · right
      have hn : 0 ≤ n.toInt := by
        by_contra! hneg
        cases hcalls : calls options reads with
        | nil => exact hzero (by rw [← hlength reads, hcalls, List.length_nil])
        | cons r rest =>
            rw [protocolUdpRead, ← hlength reads, hcalls] at hread
            exact not_within_of_neg hneg options r rest hread
      refine ⟨hn, fun r hr hover => ?_⟩
      obtain ⟨len, hlen, hlt⟩ := lt_of_overruns hn hover
      have hmem : len ∈ (protocolUdpRead options n reads).2 := by
        rw [protocolUdpRead, repeatLoop_requests, List.nil_append]
        exact List.mem_flatMap.mpr ⟨r, hr, hlen⟩
      exact absurd (hread.requests len hmem) (not_le.mpr hlt)
  · rintro (hzero | ⟨hn, hover⟩)
    · have hcalls : ∀ results, calls options results = [] := fun results =>
        List.length_eq_zero_iff.mp ((hlength results).trans hzero)
      have hnothing : Within n 0 (0, []) := by
        constructor
        · intro len hlen
          cases hlen
        · intro _
          simp
      rw [protocolUdpRead, protocolUdpWrite, hcalls, hcalls, hzero]
      exact ⟨hnothing, hnothing⟩
    · rw [← hlength reads]
      constructor
      · exact within_repeatLoop hn fun r hr => within_readTurn hn (hover r hr)
      · rw [hlength reads, ← hlength writes]
        exact within_repeatLoop hn fun r _ => within_writeTurn hn options r

/-- The options of a flowop that does not block. -/
def nonblockingOptions : FlowopOptions where
  flag := oNonblocking
  repeats := 1

/-- A read of ten bytes that would block first asks for eleven then. -/
theorem not_within_eleven :
    ¬ ∀ (options : Option FlowopOptions) (n : Int32) (reads writes : ℕ → Repetition),
      Within n (repetitions options) (protocolUdpRead options n reads) ∧
        Within n (repetitions options) (protocolUdpWrite options n writes) := by
  intro h
  have hover : Overruns nonblockingOptions 10 ⟨⟨-1, true⟩, 1, ⟨11, false⟩⟩ :=
    ⟨by decide, by decide, rfl, by decide, .inr (by decide)⟩
  obtain ⟨len, hlen, hlt⟩ := lt_of_overruns (by decide) hover
  have hread := (h nonblockingOptions 10 (fun _ => ⟨⟨-1, true⟩, 1, ⟨11, false⟩⟩)
    fun _ => ⟨⟨-1, true⟩, 1, ⟨11, false⟩⟩).1
  have hmem : len ∈ (protocolUdpRead nonblockingOptions 10
      fun _ => ⟨⟨-1, true⟩, 1, ⟨11, false⟩⟩).2 := by
    rw [protocolUdpRead, repeatLoop_requests, List.nil_append]
    exact List.mem_flatMap.mpr ⟨_, List.mem_cons_self, hlen⟩
  exact absurd (hread.requests len hmem) (not_le.mpr hlt)

end Udp

end Uperf
