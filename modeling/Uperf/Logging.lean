import Uperf.CString
import Uperf.Lib.Decimal
import Uperf.Lib.Transition
import Mathlib.Algebra.BigOperators.Group.List.Basic

/-!
# The message log

The log keeps `NUM_ERR_STR` different messages and counts how often each was
logged.  A run is a sequence of calls; it stops where a call would touch an entry
behind the array.  `log_sound_iff` says along which runs the log keeps what it
promises: the test for a full log is one too high, and a message is cut off before
the end of what a search compares.
-/

namespace Uperf

open Lib

/-- `EINTR`. -/
def eintr : Int32 := 4

/-- `NUM_ERR_STR`. -/
def numErrStr : ℕ := 256

/-- `ERR_STR_LEN`. -/
def errStrLen : ℕ := 512

/-- `uperf_msg_type`. -/
inductive UperfMsgType where
  | error
  | quit
  | abort
  | info
  | debug
  | warn
deriving DecidableEq, Repr

/-- `struct _errstr`; `str` is the string in the array of that name. -/
structure ErrStr where
  myerrno : Int32
  type : UperfMsgType
  count : Int32
  str : List UInt8
deriving DecidableEq, Repr

/-- The entries in use of `uperf_log_t`, with what the functions of the log change
outside of it. -/
structure LogState where
  msg : List ErrStr := []
  errno : Int32 := 0
  printed : List UInt8 := []
deriving DecidableEq, Repr

/-- `num_msg`. -/
def LogState.numMsg (st : LogState) : ℕ := st.msg.length

/-! ## The functions -/

/-- The conversion `%d`. -/
def printInt (n : Int32) : List UInt8 :=
  if n.toInt < 0 then str "-" ++ decimal n.toInt.natAbs else decimal n.toInt.natAbs

/-- What `uperf_log_flush` prints for an entry. -/
def flushLine (strerror : Int32 → List UInt8) (e : ErrStr) : List UInt8 :=
  let err := if e.myerrno = 0 then str " " else strerror e.myerrno
  if e.str.length = 0 then []
  else if e.count > 2 then
    let t := if e.type = .warn then str "Warnings" else str "Errors"
    str "** " ++ printInt e.count ++ str " " ++ t ++ str " " ++ e.str ++ str " " ++ err ++ str "\n"
  else
    (if e.type = .warn then str "** Warning: " else str "** ") ++
      e.str ++ str " " ++ err ++ str "\n"

/-- `uperf_log_flush`; without a result the loop reads behind the array. -/
def uperfLogFlush (strerror : Int32 → List UInt8) (st : LogState) : Option LogState :=
  if st.numMsg > numErrStr then none
  else some { st with msg := [], printed := st.printed ++ st.msg.flatMap (flushLine strerror) }

/-- `strncmp (a, b, n) == 0` for two strings. -/
def strncmpZero (a b : List UInt8) (n : ℕ) : Bool := a.take n == b.take n

/-- The loop of `uperf_log_msg` over the entries: counting the message, if it is
found. -/
def countMsg (msg : List UInt8) : List ErrStr → Option (List ErrStr)
  | [] => none
  | e :: rest =>
      if strncmpZero e.str msg errStrLen then some ({ e with count := e.count + 1 } :: rest)
      else (countMsg msg rest).map (e :: ·)

/-- The routines behind the name `strlcpy`: those of the library (`HAVE_STRLCPY`), or
`strncpy`, which keeps no room for a terminator. -/
inductive StrRoutines where
  | strl
  | strn
deriving DecidableEq, Repr

/-- The longest string that `strlcpy (str, msg, ERR_STR_LEN - 1)` leaves in an entry,
whose last byte is a terminator. -/
def StrRoutines.kept : StrRoutines → ℕ
  | .strl => errStrLen - 1 - 1
  | .strn => errStrLen - 1

/-- What `strlcpy (str, msg, ERR_STR_LEN - 1)` leaves in the entry. -/
def storedStr (lib : StrRoutines) (msg : List UInt8) : List UInt8 := msg.take lib.kept

/-- `uperf_log_msg`; without a result it touches an entry behind the array. -/
def uperfLogMsg (lib : StrRoutines) (strerror : Int32 → List UInt8) (type : UperfMsgType)
    (myerrno : Int32) (msg : Option (List UInt8)) (st : LogState) : Option LogState :=
  match msg with
  | none => some st
  | some msg =>
      if myerrno = eintr then some st
      else do
        let st ← if st.numMsg > numErrStr then uperfLogFlush strerror st else some st
        match countMsg msg st.msg with
        | some entries => some { st with msg := entries, errno := myerrno }
        | none =>
            if st.numMsg < numErrStr then
              some { st with
                msg := st.msg ++
                  [{ myerrno := myerrno, type := type, count := 1, str := storedStr lib msg }]
                errno := myerrno }
            else none

/-- `ulog`, given the text that the format and its arguments make. -/
def ulog (lib : StrRoutines) (strerror : Int32 → List UInt8) (type : UperfMsgType) (myerrno : Int32)
    (text : List UInt8) (st : LogState) : Option LogState :=
  uperfLogMsg lib strerror type myerrno (some (text.take (errStrLen - 1))) st

/-! ## Runs -/

/-- A call of one of the functions. -/
inductive LogCall where
  | logMsg (type : UperfMsgType) (myerrno : Int32) (msg : Option (List UInt8))
  | ulog (type : UperfMsgType) (myerrno : Int32) (text : List UInt8)
  | flush

/-- The message that the call has the log accept. -/
def LogCall.accepted : LogCall → Option (List UInt8)
  | .logMsg _ myerrno msg => if myerrno = eintr then none else msg
  | .ulog _ myerrno text => if myerrno = eintr then none else some (text.take (errStrLen - 1))
  | .flush => none

/-- The call itself. -/
def LogCall.exec (lib : StrRoutines) (strerror : Int32 → List UInt8) :
    LogCall → LogState → Option LogState
  | .logMsg type myerrno msg => uperfLogMsg lib strerror type myerrno msg
  | .ulog type myerrno text => Uperf.ulog lib strerror type myerrno text
  | .flush => uperfLogFlush strerror

/-- The log, and how many messages it has accepted since the last flush. -/
structure Logged where
  log : LogState := {}
  since : ℕ := 0
deriving DecidableEq

/-- How many messages there are since the last flush after a call: a flush in
`uperf_log_msg` comes before its message. -/
def LogCall.sinceAfter (call : LogCall) (s : Logged) : ℕ :=
  match call with
  | .flush => 0
  | call =>
      if call.accepted = none then s.since
      else if s.log.numMsg > numErrStr then 1
      else s.since + 1

/-- One call. -/
def logStep (lib : StrRoutines) (strerror : Int32 → List UInt8) (s : Logged) (call : LogCall) :
    Option Logged :=
  (call.exec lib strerror s.log).map fun log => { log := log, since := call.sinceAfter s }

/-- What the log promises. -/
structure Logged.Sound (s : Logged) : Prop where
  numMsg_le : s.log.numMsg ≤ numErrStr
  distinct : (s.log.msg.map ErrStr.str).Nodup
  counted : (s.log.msg.map fun e => e.count.toInt).sum = s.since

/-- The message fits the log: it is a stored one and found there again, and its count
does not overflow, or it is cut off to a string that is not stored, and there is
room for it. -/
def Fits (lib : StrRoutines) (s : Logged) (msg : List UInt8) : Prop :=
  (∃ e ∈ s.log.msg, e.str = msg ∧ e.count < Int32.maxValue) ∨
    (storedStr lib msg ∉ s.log.msg.map ErrStr.str ∧ s.log.numMsg < numErrStr)

/-- The call has the log accept no message, or one that fits. -/
def Kept (lib : StrRoutines) (s : Logged) (call : LogCall) : Prop :=
  ∀ msg, call.accepted = some msg → Fits lib s msg

/-- The strings in the log are no longer than what `strlcpy` leaves. -/
def Logged.Short (lib : StrRoutines) (s : Logged) : Prop :=
  ∀ e ∈ s.log.msg, e.str.length ≤ lib.kept

/-! ## One message -/

theorem toInt_add_one_iff (n : Int32) : (n + 1).toInt = n.toInt + 1 ↔ n < Int32.maxValue := by
  have hadd := Int32.toInt_add n 1
  have hone : (1 : Int32).toInt = 1 := rfl
  have hmax : Int32.maxValue.toInt = 2147483647 := rfl
  have hlow := n.le_toInt
  have hhigh := n.toInt_lt
  rw [Int32.lt_iff_toInt_lt, hadd, hone, hmax]
  rw [Int.bmod_def]
  split <;> omega

variable {lib : StrRoutines} {entries : List ErrStr} {msg : List UInt8}

/-- Every stored string lies before the end of what a search compares. -/
theorem StrRoutines.kept_lt (lib : StrRoutines) : lib.kept < errStrLen := by
  cases lib <;> decide

theorem strncmpZero_iff {e : ErrStr} (hshort : e.str.length ≤ lib.kept) :
    strncmpZero e.str msg errStrLen = true ↔ e.str = msg := by
  have hkept : e.str.length < errStrLen := lt_of_le_of_lt hshort lib.kept_lt
  rw [strncmpZero, beq_iff_eq, List.take_of_length_le (by omega)]
  constructor
  · intro heq
    have hlen := congrArg List.length heq
    rw [List.length_take] at hlen
    rw [heq, List.take_of_length_le (by omega)]
  · rintro rfl
    rw [List.take_of_length_le (by omega)]

/-- The loop finds the first entry with the message. -/
theorem countMsg_cases (msg : List UInt8)
    (hshort : ∀ e ∈ entries, e.str.length ≤ lib.kept) :
    (countMsg msg entries = none ∧ msg ∉ entries.map ErrStr.str) ∨
      ∃ first e last, entries = first ++ e :: last ∧ e.str = msg ∧
        countMsg msg entries = some (first ++ { e with count := e.count + 1 } :: last) := by
  induction entries with
  | nil => exact .inl ⟨rfl, by simp⟩
  | cons e rest ih =>
      rw [List.forall_mem_cons] at hshort
      rw [countMsg]
      by_cases he : e.str = msg
      · rw [if_pos ((strncmpZero_iff hshort.1).mpr he)]
        exact .inr ⟨[], e, rest, rfl, he, rfl⟩
      · rw [if_neg (mt (strncmpZero_iff hshort.1).mp he)]
        rcases ih hshort.2 with ⟨hnone, hnot⟩ | ⟨first, e', last, rfl, he', hsome⟩
        · rw [hnone]
          exact .inl ⟨rfl, by simpa [Ne.symm he] using hnot⟩
        · rw [hsome]
          exact .inr ⟨e :: first, e', last, rfl, he', rfl⟩

section

variable (strerror : Int32 → List UInt8) {s s' : Logged} {call : LogCall}

/-- A call that has no message accepted, and is no flush, changes nothing. -/
theorem exec_of_not_accepted (hcall : call.accepted = none) (hflush : call ≠ .flush)
    (st : LogState) : call.exec lib strerror st = some st := by
  cases call with
  | logMsg type myerrno msg =>
      cases msg with
      | none => rfl
      | some msg =>
          rw [LogCall.accepted, ite_eq_left_iff] at hcall
          have heintr : myerrno = eintr := by
            by_contra hne
            cases hcall hne
          exact if_pos heintr
  | ulog type myerrno text =>
      rw [LogCall.accepted, ite_eq_left_iff] at hcall
      have heintr : myerrno = eintr := by
        by_contra hne
        cases hcall hne
      exact if_pos heintr
  | flush => exact absurd rfl hflush

/-- Both functions log their message in the same way. -/
theorem exec_of_accepted (hcall : call.accepted = some msg) :
    ∃ type myerrno, myerrno ≠ eintr ∧
      call.exec lib strerror = uperfLogMsg lib strerror type myerrno (some msg) := by
  cases call with
  | logMsg type myerrno message =>
      simp only [LogCall.accepted] at hcall
      split at hcall
      · cases hcall
      · rename_i hne
        subst hcall
        exact ⟨type, myerrno, hne, rfl⟩
  | ulog type myerrno text =>
      simp only [LogCall.accepted] at hcall
      split at hcall
      · cases hcall
      · rename_i hne
        cases hcall
        exact ⟨type, myerrno, hne, rfl⟩
  | flush => cases hcall

theorem sinceAfter_of_accepted (hcall : call.accepted = some msg)
    (hle : s.log.numMsg ≤ numErrStr) : call.sinceAfter s = s.since + 1 := by
  cases call with
  | flush => cases hcall
  | logMsg type myerrno message =>
      rw [LogCall.sinceAfter]
      · rw [hcall, if_neg (Option.some_ne_none msg), if_neg (not_lt.mpr hle)]
      · exact LogCall.noConfusion
  | ulog type myerrno text =>
      rw [LogCall.sinceAfter]
      · rw [hcall, if_neg (Option.some_ne_none msg), if_neg (not_lt.mpr hle)]
      · exact LogCall.noConfusion

/-- The log as `uperf_log_msg` leaves it, while the array is large enough. -/
theorem uperfLogMsg_eq {type : UperfMsgType} {myerrno : Int32} (hne : myerrno ≠ eintr)
    {st : LogState} (hle : st.numMsg ≤ numErrStr) :
    uperfLogMsg lib strerror type myerrno (some msg) st =
      match countMsg msg st.msg with
      | some entries => some { st with msg := entries, errno := myerrno }
      | none =>
          if st.numMsg < numErrStr then
            some { st with
              msg := st.msg ++
                [{ myerrno := myerrno, type := type, count := 1, str := storedStr lib msg }]
              errno := myerrno }
          else none := by
  rw [uperfLogMsg]
  dsimp only
  rw [if_neg hne, if_neg (not_lt.mpr hle)]
  rfl

/-- What a call with an accepted message does to a log whose array is large enough. -/
theorem logStep_cases (hshort : s.Short lib) (hle : s.log.numMsg ≤ numErrStr)
    (hcall : call.accepted = some msg) :
    (∃ first e last errno, s.log.msg = first ++ e :: last ∧ e.str = msg ∧
        logStep lib strerror s call = some {
          log := { s.log with
            msg := first ++ { e with count := e.count + 1 } :: last, errno := errno }
          since := s.since + 1 }) ∨
      (msg ∉ s.log.msg.map ErrStr.str ∧ ∃ e errno, e.str = storedStr lib msg ∧ e.count = 1 ∧
        logStep lib strerror s call =
          if s.log.numMsg < numErrStr then
            some {
              log := { s.log with msg := s.log.msg ++ [e], errno := errno }
              since := s.since + 1 }
          else none) := by
  obtain ⟨type, myerrno, hne, hexec⟩ := exec_of_accepted strerror hcall
  unfold logStep
  rw [hexec, uperfLogMsg_eq strerror hne hle, sinceAfter_of_accepted hcall hle]
  rcases countMsg_cases msg hshort with ⟨hnone, hnot⟩ | ⟨first, e, last, hsplit, he, hsome⟩
  · rw [hnone]
    refine .inr ⟨hnot, { myerrno := myerrno, type := type, count := 1, str := storedStr lib msg },
      myerrno, rfl, rfl, ?_⟩
    dsimp only
    split <;> rfl
  · rw [hsome]
    exact .inl ⟨first, e, last, myerrno, hsplit, he, rfl⟩

theorem sum_counts (first last : List ErrStr) (e : ErrStr) :
    ((first ++ e :: last).map fun e => e.count.toInt).sum =
      (first.map fun e => e.count.toInt).sum + e.count.toInt +
        (last.map fun e => e.count.toInt).sum := by
  rw [List.map_append, List.sum_append, List.map_cons, List.sum_cons, add_assoc]

/-- Counting a stored message once more. -/
theorem sound_count_iff (hsound : s.Sound) {first last : List ErrStr} {e : ErrStr}
    (hsplit : s.log.msg = first ++ e :: last) (errno : Int32) :
    (Logged.mk
      { s.log with msg := first ++ { e with count := e.count + 1 } :: last, errno := errno }
      (s.since + 1)).Sound ↔ e.count < Int32.maxValue := by
  obtain ⟨hle, hdistinct, hcounted⟩ := hsound
  rw [hsplit, sum_counts] at hcounted
  rw [← toInt_add_one_iff]
  constructor
  · -- the sum is right only if the count did not overflow
    rintro ⟨-, -, hsum⟩
    rw [sum_counts] at hsum
    push_cast at hsum
    omega
  · intro hcount
    refine ⟨?_, ?_, ?_⟩
    · rw [LogState.numMsg, hsplit] at hle
      simpa [LogState.numMsg] using hle
    · rw [hsplit] at hdistinct
      simpa using hdistinct
    · rw [sum_counts]
      push_cast
      omega

/-- Storing a message behind the others. -/
theorem sound_store_iff (hsound : s.Sound) {e : ErrStr} (hcount : e.count = 1) (errno : Int32)
    (hroom : s.log.numMsg < numErrStr) :
    (Logged.mk { s.log with msg := s.log.msg ++ [e], errno := errno } (s.since + 1)).Sound ↔
      e.str ∉ s.log.msg.map ErrStr.str := by
  obtain ⟨hle, hdistinct, hcounted⟩ := hsound
  have hone : (1 : Int32).toInt = 1 := rfl
  constructor
  · rintro ⟨-, hnodup, -⟩
    rw [List.map_append, List.nodup_append] at hnodup
    intro hmem
    exact hnodup.2.2 e.str hmem e.str (by simp) rfl
  · intro hnot
    refine ⟨?_, ?_, ?_⟩
    · rw [LogState.numMsg] at hroom ⊢
      rw [List.length_append, List.length_singleton]
      exact hroom
    · rw [List.map_append, List.nodup_append]
      refine ⟨hdistinct, by simp, ?_⟩
      rintro a ha b hb rfl
      rw [List.map_singleton, List.mem_singleton] at hb
      exact hnot (hb ▸ ha)
    · simp [hcounted, hcount, hone]

/-- A call without an accepted message keeps the promises. -/
theorem sound_of_not_accepted (hsound : s.Sound) (hcall : call.accepted = none) :
    ∃ s', logStep lib strerror s call = some s' ∧ s'.Sound := by
  by_cases hflush : call = .flush
  · subst hflush
    -- a flush leaves no entries
    have hflushed : ∃ log, uperfLogFlush strerror s.log = some log ∧ log.msg = [] := by
      rw [uperfLogFlush, if_neg (not_lt.mpr hsound.numMsg_le)]
      exact ⟨_, rfl, rfl⟩
    obtain ⟨log, hexec, hmsg⟩ := hflushed
    refine ⟨{ log := log }, ?_, ?_, ?_, ?_⟩
    · rw [logStep, LogCall.exec, hexec]
      rfl
    · rw [LogState.numMsg, hmsg]
      exact Nat.zero_le _
    · rw [hmsg]
      exact List.nodup_nil
    · rw [hmsg]
      rfl
  · refine ⟨s, ?_, hsound⟩
    rw [logStep, exec_of_not_accepted strerror hcall hflush, Option.map_some]
    have hsince : call.sinceAfter s = s.since := by
      rw [LogCall.sinceAfter]
      · rw [hcall, if_pos rfl]
      · exact hflush
    rw [hsince]

/-- A message that the log has is found there, and fits if its count does not overflow. -/
theorem fits_of_mem_iff (hshort : s.Short lib) (hsound : s.Sound) {e : ErrStr}
    (he : e ∈ s.log.msg) : Fits lib s e.str ↔ e.count < Int32.maxValue := by
  have hstored : storedStr lib e.str = e.str := List.take_of_length_le (hshort e he)
  unfold Fits
  rw [hstored]
  constructor
  · rintro (⟨e', he', heq, hlt⟩ | ⟨hnew, -⟩)
    · rwa [List.inj_on_of_nodup_map hsound.distinct he' he heq] at hlt
    · exact absurd (List.mem_map_of_mem he) hnew
  · intro hlt
    exact .inl ⟨e, he, rfl, hlt⟩

/-- Another message fits if it is stored, and its string is a new one. -/
theorem fits_of_not_mem_iff (hnot : msg ∉ s.log.msg.map ErrStr.str) :
    Fits lib s msg ↔ storedStr lib msg ∉ s.log.msg.map ErrStr.str ∧ s.log.numMsg < numErrStr := by
  unfold Fits
  refine or_iff_right ?_
  rintro ⟨e, he, heq, -⟩
  exact hnot (List.mem_map.mpr ⟨e, he, heq⟩)

/-- A step keeps the promises exactly if its message fits. -/
theorem kept_iff (hshort : s.Short lib) (hsound : s.Sound) :
    Kept lib s call ↔ ∃ s', logStep lib strerror s call = some s' ∧ s'.Sound := by
  cases hcall : call.accepted with
  | none =>
      apply iff_of_true (fun msg hmsg => by rw [hcall] at hmsg; cases hmsg)
      exact sound_of_not_accepted strerror hsound hcall
  | some msg =>
      have hkept : Kept lib s call ↔ Fits lib s msg := by simp [Kept, hcall]
      rw [hkept]
      rcases logStep_cases strerror hshort hsound.numMsg_le hcall with
        ⟨first, e, last, errno, hsplit, rfl, hstep⟩ | ⟨hnot, e, errno, he, hcount, hstep⟩
      · have hmem : e ∈ s.log.msg := by rw [hsplit]; simp
        rw [hstep, fits_of_mem_iff hshort hsound hmem]
        simp only [Option.some_inj, exists_eq_left', sound_count_iff hsound hsplit]
      · rw [hstep, fits_of_not_mem_iff hnot]
        by_cases hroom : s.log.numMsg < numErrStr
        · rw [if_pos hroom]
          simp only [Option.some_inj, exists_eq_left', sound_store_iff hsound hcount errno hroom,
            he]
          exact and_iff_left hroom
        · simp [hroom]

/-- The strings in the log stay short. -/
theorem short_logStep (hshort : s.Short lib) (hle : s.log.numMsg ≤ numErrStr)
    (hstep : logStep lib strerror s call = some s') : s'.Short lib := by
  cases hcall : call.accepted with
  | none =>
      obtain ⟨log, hexec, hs'⟩ := Option.map_eq_some_iff.mp hstep
      subst hs'
      by_cases hflush : call = .flush
      · subst hflush
        rw [LogCall.exec, uperfLogFlush, if_neg (not_lt.mpr hle)] at hexec
        cases hexec
        exact fun e he => absurd he List.not_mem_nil
      · rw [exec_of_not_accepted strerror hcall hflush] at hexec
        cases hexec
        exact hshort
  | some msg =>
      rcases logStep_cases strerror hshort hle hcall with
        ⟨first, e, last, errno, hsplit, -, heq⟩ | ⟨-, e, errno, he, -, heq⟩
      · rw [heq] at hstep
        cases hstep
        rw [Logged.Short, hsplit, List.forall_mem_append, List.forall_mem_cons] at hshort
        rw [Logged.Short, List.forall_mem_append, List.forall_mem_cons]
        exact hshort
      · rw [heq] at hstep
        split at hstep
        · cases hstep
          -- what is stored is cut to what `strlcpy` keeps
          have hlen : e.str.length ≤ lib.kept := by
            rw [he]
            exact List.length_take_le _ _
          intro e' he'
          rcases List.mem_append.mp he' with hold | hnew
          · exact hshort e' hold
          · rwa [List.mem_singleton.mp hnew]
        · cases hstep

/-- A short message is in the log from then on. -/
theorem stored_logStep (hshort : s.Short lib) (hle : s.log.numMsg ≤ numErrStr)
    (hcall : call.accepted = some msg) (hmsg : msg.length ≤ lib.kept)
    (hstep : logStep lib strerror s call = some s') :
    s'.log.numMsg ≤ numErrStr ∧ msg ∈ s'.log.msg.map ErrStr.str ∧
      s.log.msg.map ErrStr.str ⊆ s'.log.msg.map ErrStr.str := by
  rcases logStep_cases strerror hshort hle hcall with
    ⟨first, e, last, errno, hsplit, he, heq⟩ | ⟨-, e, errno, he, -, heq⟩
  · rw [heq] at hstep
    cases hstep
    rw [LogState.numMsg, hsplit] at hle
    refine ⟨by simpa [LogState.numMsg] using hle, by simp [he], ?_⟩
    rw [hsplit]
    simp
  · rw [heq] at hstep
    split at hstep
    · rename_i hroom
      cases hstep
      rw [storedStr, List.take_of_length_le hmsg] at he
      refine ⟨?_, by simp [he], by simp⟩
      rw [LogState.numMsg] at hroom ⊢
      rw [List.length_append, List.length_singleton]
      exact hroom
    · cases hstep

end

/-! ## Whole runs -/

/-- After every part of a run the log has touched no entry behind its array, its
strings are different and its counts are right, exactly if every message of the run
fits where it is logged. -/
theorem log_sound_iff (lib : StrRoutines) (strerror : Int32 → List UInt8) (calls : List LogCall) :
    (∀ done, done <+: calls → ∃ s, run (logStep lib strerror) {} done = some s ∧ s.Sound) ↔
      Along (logStep lib strerror) (Kept lib) {} calls := by
  apply prefixes_iff_along (Logged.Short lib)
  · exact fun s call hshort hsound => kept_iff strerror hshort hsound
  · exact fun s call s' hshort hsound hstep => short_logStep strerror hshort hsound.numMsg_le hstep
  · exact fun e he => absurd he List.not_mem_nil
  · exact ⟨Nat.zero_le _, List.nodup_nil, rfl⟩

/-- As long as the calls log short messages, the log has all of them. -/
theorem stored_of_run (strerror : Int32 → List UInt8) {msgs : List (List UInt8)} {s : Logged}
    (hkept : ∀ msg ∈ msgs, msg.length ≤ lib.kept)
    (hrun : run (logStep lib strerror) {} (msgs.map fun msg => .logMsg .error 0 (some msg)) =
      some s) :
    s.log.numMsg ≤ numErrStr ∧ ∀ msg ∈ msgs, msg ∈ s.log.msg.map ErrStr.str := by
  have hall : s.Short lib ∧ s.log.numMsg ≤ numErrStr ∧
      ∀ call ∈ msgs.map fun msg => LogCall.logMsg .error 0 (some msg), ∀ msg,
        call.accepted = some msg → msg ∈ s.log.msg.map ErrStr.str := by
    -- what has been logged so far is stored
    refine run_history (P := fun done s => s.Short lib ∧ s.log.numMsg ≤ numErrStr ∧
      ∀ call ∈ done, ∀ msg, call.accepted = some msg → msg ∈ s.log.msg.map ErrStr.str) ?_
      ⟨fun e he => absurd he List.not_mem_nil, Nat.zero_le _, by simp⟩ hrun
    rintro done call hcall s s' ⟨hshort, hle, hdone⟩ hstep
    obtain ⟨msg, hmsg, rfl⟩ := List.mem_map.mp hcall
    have haccepted : (LogCall.logMsg .error 0 (some msg)).accepted = some msg := by
      rw [LogCall.accepted, if_neg (by decide)]
    obtain ⟨hle', hstored, hkeeps⟩ := stored_logStep strerror hshort hle haccepted
      (hkept msg hmsg) hstep
    refine ⟨short_logStep strerror hshort hle hstep, hle', fun call' hcall' msg' hmsg' => ?_⟩
    rcases List.mem_append.mp hcall' with hold | hnew
    · exact hkeeps (hdone call' hold msg' hmsg')
    · rw [List.mem_singleton.mp hnew, haccepted] at hmsg'
      cases hmsg'
      exact hstored
  refine ⟨hall.2.1, fun msg hmsg => hall.2.2 _ (List.mem_map_of_mem hmsg) msg ?_⟩
  rw [LogCall.accepted, if_neg (by decide)]

/-- More different messages than the log has entries do not fit. -/
theorem run_many (strerror : Int32 → List UInt8) {msgs : List (List UInt8)}
    (hkept : ∀ msg ∈ msgs, msg.length ≤ lib.kept) (hnodup : msgs.Nodup)
    (hmany : numErrStr < msgs.length) :
    run (logStep lib strerror) {} (msgs.map fun msg => .logMsg .error 0 (some msg)) = none := by
  rw [Option.eq_none_iff_forall_ne_some]
  intro s hrun
  obtain ⟨hle, hstored⟩ := stored_of_run strerror hkept hrun
  have hlen : msgs.length ≤ (s.log.msg.map ErrStr.str).length :=
    (hnodup.subperm hstored).length_le
  rw [List.length_map] at hlen
  rw [LogState.numMsg] at hle
  omega

/-- 257 different messages. -/
def manyMessages : List (List UInt8) :=
  (List.range (numErrStr + 1)).map fun no => List.replicate (no + 1) 97

/-- The last one is written behind the array. -/
theorem not_sound_manyMessages :
    (¬ ∀ done, done <+: manyMessages.map (fun msg => .logMsg .error 0 (some msg)) →
      ∃ s, run (logStep .strl fun _ => []) {} done = some s ∧ s.Sound) ∧
    ¬ ∀ done, done <+: manyMessages.map (fun msg => .logMsg .error 0 (some msg)) →
      ∃ s, run (logStep .strn fun _ => []) {} done = some s ∧ s.Sound := by
  have hnone : ∀ lib, run (logStep lib fun _ => []) {}
      (manyMessages.map fun msg => .logMsg .error 0 (some msg)) = none := by
    intro lib
    apply run_many
    · intro msg hmsg
      obtain ⟨no, hno, rfl⟩ := List.mem_map.mp hmsg
      rw [List.mem_range] at hno
      rw [List.length_replicate]
      exact le_trans hno (by cases lib <;> decide)
    · -- the messages have different lengths
      refine List.nodup_range.map fun a b hab => ?_
      simpa using congrArg List.length hab
    · rw [manyMessages, List.length_map, List.length_range]
      exact Nat.lt_succ_self _
  constructor
  · intro hall
    obtain ⟨s, hrun, -⟩ := hall _ (List.prefix_refl _)
    rw [hnone .strl] at hrun
    cases hrun
  · intro hall
    obtain ⟨s, hrun, -⟩ := hall _ (List.prefix_refl _)
    rw [hnone .strn] at hrun
    cases hrun

end Uperf
