import Uperf.Bswap
import Uperf.CString
import Uperf.Goodbye.SafeRead

/-!
# Goodbyes

At the end of a run a slave sends its statistics to the master in one record, and the
master takes what `safe_read` leaves in its variable for that record if the magic is
right.  The variable was zero before, and the end of the stream is a success for
`safe_read`, so a record that the slave never finished is taken as well when it was cut
behind its magic, and only then (`complete_iff_no_end`).
-/

namespace Uperf

open Lib

/-- `goodbye_stat_t`. -/
structure GoodbyeStat where
  elapsedTime : UInt64
  error : UInt64
  bytesXfer : UInt64
  count : UInt64
deriving DecidableEq

/-- `goodbye_t`. -/
structure Goodbye where
  magic : CharArray 64
  msgType : UInt64
  gstat : GoodbyeStat
  message : CharArray 512
deriving DecidableEq

section

open Codec

def GoodbyeStat.codec : Codec GoodbyeStat :=
  iso (u64.pair <| u64.pair <| u64.pair u64)
    (fun g => (g.elapsedTime, g.error, g.bytesXfer, g.count))
    (fun (elapsedTime, error, bytesXfer, count) => { elapsedTime, error, bytesXfer, count })
    (fun _ => rfl)

/-- The image of a goodbye. -/
def Goodbye.codec : Codec Goodbye :=
  iso ((CharArray.codec 64).pair <| u64.pair <| GoodbyeStat.codec.pair (CharArray.codec 512))
    (fun g => (g.magic, g.msgType, g.gstat, g.message))
    (fun (magic, msgType, gstat, message) => { magic, msgType, gstat, message }) (fun _ => rfl)

end

/-- `sizeof (goodbye_t)`. -/
theorem Goodbye.size_codec : Goodbye.codec.size = 616 := rfl

/-- `GOODBYE_MAGIC`. -/
def goodbyeMagic : List UInt8 := str "So Long, and Thanks for All the Fish"

/-- `bitswap_goodbye_t`. -/
def bitswapGoodbyeT (g : Goodbye) : Goodbye :=
  { g with
    msgType := bswap64 g.msgType
    gstat :=
      { elapsedTime := bswap64 g.gstat.elapsedTime
        error := bswap64 g.gstat.error
        bytesXfer := bswap64 g.gstat.bytesXfer
        count := bswap64 g.gstat.count } }

/-- The record that `send_goodbye` writes. -/
def sendGoodbye (g : Goodbye) : Goodbye := { g with magic := strlcpy g.magic goodbyeMagic }

/-- What a slave of order `e'` sends to a master of order `e` at the end of
`slave_master_goodbye`. -/
def goodbyeImage (e e' : Endian) (g : Goodbye) : List UInt8 :=
  Goodbye.codec.put e' (sendGoodbye (if e ≠ e' then bitswapGoodbyeT g else g))

/-- The variable that `safe_read` reads into: what it does not fill is zero. -/
def SafeRead.record (e : Endian) (st : SafeRead) : Goodbye :=
  Goodbye.codec.get e (st.buffer ++ List.replicate st.remain 0)

/-- `recv_goodbye`, with the variables of `safe_read` when it returns. -/
def recvGoodbye (e : Endian) (nonblock timeout : Int32) (now : ℕ) (stream : List UInt8)
    (rounds : List Round) : Option (Int32 × SafeRead) :=
  match safeRead nonblock Goodbye.codec.size timeout now stream rounds with
  | none => none
  | some (ret, st) =>
      if ret ≠ 0 then some (uperfFailure, st)
      else if ¬ strncmpEq (st.record e).magic goodbyeMagic 64 then some (uperfFailure, st)
      else some (0, st)

/-! ## Complete goodbyes -/

/-- All bytes of a goodbye have been received, and the master has what was sent. -/
structure GoodbyeComplete (e : Endian) (stream : List UInt8) (st : SafeRead) : Prop where
  length_buffer : st.buffer.length = Goodbye.codec.size
  magic : strncmpEq (st.record e).magic goodbyeMagic 64 = true
  record : st.record e = Goodbye.codec.get e (stream.take Goodbye.codec.size)
  sent : ∀ e' g rest, stream = goodbyeImage e e' g ++ rest → st.record e = sendGoodbye g

namespace SafeRead

/-- The loop comes to `st`, and there the read finds the end of the stream. -/
def EndsAt (stop : ℚ) (start : SafeRead) (rounds : List Round) (st : SafeRead) : Prop :=
  ∃ done r rest, rounds = done ++ r :: rest ∧ run (step stop) start done = some st ∧
    st.Polls ∧ 0 < r.poll ∧ st.got r = 0

/-- What has been received begins with the magic, and with its terminator unless nothing
is behind it. -/
def HasMagic (st : SafeRead) : Prop := st.buffer.takeWhile (· ≠ 0) = goodbyeMagic

instance (st : SafeRead) : Decidable st.HasMagic := inferInstanceAs (Decidable (_ = _))

/-- The buffer has the first bytes of the stream, and room for `size`. -/
structure Received (size : ℕ) (stream : List UInt8) (st : SafeRead) : Prop where
  stream : st.buffer ++ st.stream = stream
  size : st.buffer.length + st.remain = size

end SafeRead

theorem swap_sendGoodbye_bitswap (g : Goodbye) :
    Goodbye.codec.swap (sendGoodbye (bitswapGoodbyeT g)) = sendGoodbye g := by
  have hswap : ∀ g' : Goodbye, Goodbye.codec.swap g' = bitswapGoodbyeT g' := by
    intro g'
    simp only [bitswapGoodbyeT, bswap64_eq]
    rfl
  rw [hswap]
  simp only [sendGoodbye, bitswapGoodbyeT, bswap64_eq, Codec.u64_swap_swap]

/-- The master reads what the slave had before it exchanged any bytes. -/
theorem get_goodbyeImage (e e' : Endian) (g : Goodbye) :
    Goodbye.codec.get e (goodbyeImage e e' g) = sendGoodbye g := by
  by_cases hne : e ≠ e'
  · rw [goodbyeImage, if_pos hne, Goodbye.codec.get_put_of_ne _ hne.symm,
      swap_sendGoodbye_bitswap]
  · rw [not_not.mp hne, goodbyeImage, if_neg (not_not.mpr rfl), Goodbye.codec.get_put]

/-- A string that fits is read from the record as from the bytes of its image. -/
theorem hasMagic_iff (e : Endian) (st : SafeRead) :
    strncmpEq (st.record e).magic goodbyeMagic 64 = true ↔ st.HasMagic := by
  have hmagic : (st.record e).magic =
      CharArray.ofList 64 ((st.buffer ++ List.replicate st.remain 0).take 64) := rfl
  have hlength : goodbyeMagic.length = 36 := by decide
  have hall : goodbyeMagic.take 64 = goodbyeMagic := List.take_of_length_le (by omega)
  rw [hmagic, strncmpEq, cstr_ofList, ← List.take_takeWhile, List.take_take, List.take_take,
    min_self, min_self, hall, beq_iff_eq, takeWhile_append_zeros, SafeRead.HasMagic]
  constructor
  · intro h
    have hshort : (st.buffer.takeWhile (· ≠ 0)).length ≤ 64 := by
      have := congrArg List.length h
      rw [List.length_take] at this
      omega
    rwa [List.take_of_length_le hshort] at h
  · intro h
    rw [h, hall]

namespace SafeRead

section

variable {stop : ℚ} {st st' : SafeRead} {r : Round} {size : ℕ} {stream : List UInt8}

theorem Received.start (size : ℕ) (timeout : Int32) (now : ℕ) (stream : List UInt8) :
    (safeReadStart size timeout now stream).Received size stream := ⟨rfl, Nat.zero_add size⟩

theorem Received.step (hst : st.Received size stream) (hstep : st.step stop r = some st') :
    st'.Received size stream := by
  obtain ⟨-, -, ⟨-, -, rfl⟩ | ⟨hpos, rfl⟩⟩ := step_cases hstep
  · exact ⟨hst.stream, hst.size⟩
  · have hgot : st.got r ≤ min (st.remain : ℤ) st.stream.length := min_le_right _ _
    have hremain : (st.got r).toNat ≤ st.remain := by omega
    have hlength : (st.got r).toNat ≤ st.stream.length := by omega
    constructor
    · rw [List.append_assoc, List.take_append_drop, hst.stream]
    · have hsize := hst.size
      rw [List.length_append, List.length_take]
      simp only
      omega

/-- Without room left the buffer is the front of the stream. -/
theorem Received.buffer_eq (hst : st.Received size stream) (hremain : st.remain = 0) :
    st.buffer.length = size ∧ st.buffer = stream.take size := by
  have hsize := hst.size
  rw [hremain, Nat.add_zero] at hsize
  refine ⟨hsize, ?_⟩
  rw [← hst.stream, List.take_left' hsize]

/-- The loop goes on where a run leaves it. -/
theorem safeReadLoop_append {done rest : List Round}
    (hrun : run (SafeRead.step stop) st done = some st') :
    safeReadLoop stop st (done ++ rest) = safeReadLoop stop st' rest := by
  induction done generalizing st with
  | nil =>
      cases hrun
      rfl
  | cons r done ih =>
      obtain ⟨mid, hstep, hrun⟩ := run_cons.mp hrun
      obtain ⟨hpolls, hturn⟩ := Option.ite_none_right_eq_some.mp hstep
      rw [Sum.getRight?_eq_some_iff] at hturn
      rw [List.cons_append, safeReadLoop, if_pos hpolls]
      simp only [hturn]
      exact ih hrun

/-- The ways in which `safe_read` returns from the loop. -/
theorem safeReadLoop_some {rounds : List Round} {ret : Int32}
    (hloop : safeReadLoop stop st rounds = some (ret, st')) :
    ∃ done rest, rounds = done ++ rest ∧ run (SafeRead.step stop) st done = some st' ∧
      ((¬ st'.Polls ∧ ret = if st'.remain = 0 then 0 else uperfFailure) ∨
        ∃ r rest', rest = r :: rest' ∧ st'.Polls ∧ st'.turn stop r = .inl ret) := by
  induction rounds generalizing st with
  | nil =>
      rw [safeReadLoop] at hloop
      split at hloop
      · cases hloop
      · rename_i hpolls
        cases hloop
        exact ⟨[], [], rfl, rfl, .inl ⟨hpolls, rfl⟩⟩
  | cons r rest ih =>
      rw [safeReadLoop] at hloop
      split at hloop
      · rename_i hpolls
        split at hloop
        · rename_i ret' hturn
          cases hloop
          exact ⟨[], r :: rest, rfl, rfl, .inr ⟨r, rest, rfl, hpolls, hturn⟩⟩
        · rename_i mid hturn
          obtain ⟨done, rest', rfl, hrun, hexit⟩ := ih hloop
          have hstep : st.step stop r = some mid := by
            rw [SafeRead.step, if_pos hpolls, hturn]
            rfl
          exact ⟨r :: done, rest', rfl, run_cons.mpr ⟨mid, hstep, hrun⟩, hexit⟩
      · rename_i hpolls
        cases hloop
        exact ⟨[], r :: rest, rfl, rfl, .inl ⟨hpolls, rfl⟩⟩

/-- A turn in which `safe_read` returns success has read the end of the stream. -/
theorem turn_eq_success (hturn : st.turn stop r = .inl 0) : 0 < r.poll ∧ st.got r = 0 := by
  have hfail : uperfFailure ≠ 0 := by decide
  simp only [turn] at hturn
  split_ifs at hturn with hneg hzero hle hend heagain
  · exact absurd (Sum.inl.inj hturn) hfail
  · exact absurd (Sum.inl.inj hturn) hfail
  · exact ⟨by omega, hend⟩
  · exact absurd (Sum.inl.inj hturn) hfail

theorem turn_of_end (hpoll : 0 < r.poll) (hend : st.got r = 0) : st.turn stop r = .inl 0 := by
  rw [turn, if_neg (by omega), if_neg (by omega)]
  simp only
  rw [if_pos hend.le, if_pos hend]

/-- When the loop returns success, the buffer is full or the read found the end. -/
theorem safeReadLoop_success {rounds : List Round}
    (hloop : safeReadLoop stop st rounds = some (0, st')) :
    (∃ done, run (SafeRead.step stop) st done = some st') ∧
      (st'.remain = 0 ∨ EndsAt stop st rounds st') := by
  obtain ⟨done, rest, hrounds, hrun, ⟨-, hret⟩ | ⟨r, rest', hrest, hpolls, hturn⟩⟩ :=
    safeReadLoop_some hloop
  · refine ⟨⟨done, hrun⟩, .inl ?_⟩
    by_contra hremain
    rw [if_neg hremain] at hret
    exact absurd hret (by decide)
  · obtain ⟨hpoll, hend⟩ := turn_eq_success hturn
    exact ⟨⟨done, hrun⟩, .inr ⟨done, r, rest', hrest ▸ hrounds, hrun, hpolls, hpoll, hend⟩⟩

theorem EndsAt.safeReadLoop {rounds : List Round} (hends : EndsAt stop st rounds st') :
    safeReadLoop stop st rounds = some (0, st') := by
  obtain ⟨done, r, rest, rfl, hrun, hpolls, hpoll, hend⟩ := hends
  rw [safeReadLoop_append hrun, Uperf.safeReadLoop, if_pos hpolls]
  simp only [turn_of_end hpoll hend]

/-- A full buffer with the magic is a complete goodbye. -/
theorem Received.complete {e : Endian} (hst : st.Received Goodbye.codec.size stream)
    (hremain : st.remain = 0) (hmagic : strncmpEq (st.record e).magic goodbyeMagic 64 = true) :
    GoodbyeComplete e stream st := by
  obtain ⟨hlength, hbuffer⟩ := hst.buffer_eq hremain
  have hrecord : st.record e = Goodbye.codec.get e (stream.take Goodbye.codec.size) := by
    rw [record, hremain, List.replicate_zero, List.append_nil, hbuffer]
  refine ⟨hlength, hmagic, hrecord, fun e' g rest hstream => ?_⟩
  have himage : (goodbyeImage e e' g).length = Goodbye.codec.size :=
    Goodbye.codec.length_put _ _
  rw [hrecord, hstream, List.take_left' himage, get_goodbyeImage]

end

end SafeRead

/-- When `recv_goodbye` accepts a goodbye. -/
theorem recvGoodbye_eq_success {e : Endian} {nonblock timeout : Int32} {now : ℕ}
    {stream : List UInt8} {rounds : List Round} {st : SafeRead} :
    recvGoodbye e nonblock timeout now stream rounds = some (0, st) ↔
      nonblock = 0 ∧ st.HasMagic ∧ safeReadLoop (stopTime now timeout)
        (safeReadStart Goodbye.codec.size timeout now stream) rounds = some (0, st) := by
  have hfail : ∀ last : SafeRead, some (uperfFailure, last) ≠ some (0, st) := by
    intro last heq
    have hzero : uperfFailure = 0 := congrArg Prod.fst (Option.some_inj.mp heq)
    exact absurd hzero (by decide)
  rw [← hasMagic_iff e, recvGoodbye, safeRead]
  split_ifs with hnonblock
  · exact iff_of_false (hfail _) fun h => hnonblock h.1
  · rw [not_not] at hnonblock
    cases hloop : safeReadLoop (stopTime now timeout)
        (safeReadStart Goodbye.codec.size timeout now stream) rounds with
    | none => simp
    | some result =>
        obtain ⟨ret, last⟩ := result
        simp only
        split_ifs with hret hmagic
        · refine iff_of_false (hfail _) fun h => hret ?_
          exact congrArg Prod.fst (Option.some_inj.mp h.2.2)
        · rw [not_not.mp hret]
          constructor
          · intro heq
            cases heq
            exact ⟨hnonblock, hmagic, rfl⟩
          · exact fun h => h.2.2
        · refine iff_of_false (hfail _) fun h => hmagic ?_
          have hlast : last = st := congrArg Prod.snd (Option.some_inj.mp h.2.2)
          rw [hlast]
          exact h.2.1

/-- Whatever the calls of `safe_read` return, all goodbyes that are accepted are complete
exactly if no read finds the end of the stream when the magic has been received. -/
theorem complete_iff_no_end (e : Endian) (nonblock timeout : Int32) (now : ℕ)
    (stream : List UInt8) (rounds : List Round) :
    (∀ st, recvGoodbye e nonblock timeout now stream rounds = some (0, st) →
      GoodbyeComplete e stream st) ↔
      nonblock ≠ 0 ∨ ∀ st, SafeRead.EndsAt (stopTime now timeout)
        (safeReadStart Goodbye.codec.size timeout now stream) rounds st → ¬ st.HasMagic := by
  have hinv : ∀ {done st}, run (SafeRead.step (stopTime now timeout))
      (safeReadStart Goodbye.codec.size timeout now stream) done = some st →
        st.Received Goodbye.codec.size stream := fun hrun =>
    run_invariant (fun _ _ _ hst hstep => hst.step hstep) (.start _ _ _ _) hrun
  constructor
  · intro hall
    by_cases hnonblock : nonblock = 0
    · refine .inr fun st hends hmagic => ?_
      have hcomplete := hall st
        (recvGoodbye_eq_success.mpr ⟨hnonblock, hmagic, hends.safeReadLoop⟩)
      -- a poll is made only while something is missing
      obtain ⟨done, r, rest, -, hrun, hpolls, -, -⟩ := hends
      have hsize := (hinv hrun).size
      have hlength := hcomplete.length_buffer
      have hremain := hpolls.1
      omega
    · exact .inl hnonblock
  · intro hcond st haccept
    obtain ⟨hnonblock, hmagic, hloop⟩ := recvGoodbye_eq_success.mp haccept
    obtain ⟨⟨done, hrun⟩, hremain | hends⟩ := SafeRead.safeReadLoop_success hloop
    · exact (hinv hrun).complete hremain ((hasMagic_iff e st).mpr hmagic)
    · obtain hne | hnone := hcond
      · exact absurd hnonblock hne
      · exact absurd hmagic (hnone st hends)

/-- The descriptor is readable at once, and the read returns all that is asked for and
there. -/
def readyRound : Round where
  poll := 1
  pollTime := 0
  read := 616
  eagain := false
  readTime := 0

/-- A slave that dies when it has written the magic has said goodbye, with statistics that
are zero. -/
theorem not_complete_magicOnly :
    ¬ ∀ (e : Endian) (nonblock timeout : Int32) (now : ℕ) (stream : List UInt8)
      (rounds : List Round) (st : SafeRead),
        recvGoodbye e nonblock timeout now stream rounds = some (0, st) →
          GoodbyeComplete e stream st := by
  intro h
  have htimeout := pollTimeoutAt_zero_two
  have hlength : goodbyeMagic.length = 36 := by decide
  have hsize : Goodbye.codec.size = 616 := rfl
  set last : SafeRead :=
    { now := 0, stream := [], buffer := goodbyeMagic, remain := 580, pollTimeout := 2,
      refreshed := 0 } with hlast
  have hloop : safeReadLoop (stopTime 0 2) (safeReadStart Goodbye.codec.size 2 0 goodbyeMagic)
      [readyRound, readyRound] = some (0, last) := by
    simp [safeReadLoop, safeReadStart, SafeRead.Polls, SafeRead.turn, SafeRead.got, readyRound,
      htimeout, hsize, hlength, hlast]
  have haccept : recvGoodbye .little 0 2 0 goodbyeMagic [readyRound, readyRound] =
      some (0, last) :=
    recvGoodbye_eq_success.mpr ⟨rfl, by decide, hloop⟩
  have hcomplete := (h .little 0 2 0 goodbyeMagic [readyRound, readyRound] last haccept)
  exact absurd hcomplete.length_buffer (by decide)

end Uperf
