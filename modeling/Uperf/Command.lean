import Uperf.Bswap
import Uperf.CString
import Uperf.Handshake.EnsureRw

/-!
# The command channel

During a run the master steers its slaves with commands on the control
connections.  `uperf_send_command` writes a command with one `write` and
`uperf_get_command` reads it with one `read`, unlike the messages of the
handshake, which go through `ensure_write` and `ensure_read`.
-/

namespace Uperf

open Lib

/-- `uperf_cmd`. -/
inductive UperfCmd
  | nextTxn
  | abort
  | sendStats
  | error
deriving DecidableEq, Repr

/-- The values of the enumeration. -/
def UperfCmd.code : UperfCmd → UInt32
  | nextTxn => 0
  | abort => 1
  | sendStats => 2
  | error => 3

/-- `uperf_command_t`. -/
structure UperfCommand where
  magic : CharArray 64
  command : UInt32
  value : UInt32
deriving DecidableEq

/-- The image of a command. -/
def UperfCommand.codec : Codec UperfCommand :=
  ((CharArray.codec 64).pair (Codec.u32.pair Codec.u32)).iso
    (fun uc => (uc.magic, uc.command, uc.value))
    (fun (magic, command, value) => { magic, command, value }) (fun _ => rfl)

/-- `sizeof (uperf_command_t)`. -/
theorem UperfCommand.size_codec : UperfCommand.codec.size = 72 := rfl

/-- `UPERF_COMMAND_MAGIC`. -/
def uperfCommandMagic : List UInt8 := str "uperf_command"

/-- A call of `uperf_send_command`, with what the stack holds where it puts the
magic of its variable `uc`. -/
structure SentCommand where
  command : UperfCmd
  value : UInt32
  stack : CharArray 64

/-- The variable `uc` of `uperf_send_command` when it is written. -/
def uperfSendCommand (sent : SentCommand) : UperfCommand where
  magic := strlcpy sent.stack uperfCommandMagic
  command := sent.command.code
  value := sent.value

/-- What has been written after several calls of `uperf_send_command` on a machine
of order `e`. -/
def commandStream (e : Endian) (cmds : List SentCommand) : List UInt8 :=
  cmds.flatMap fun sent => UperfCommand.codec.put e (uperfSendCommand sent)

/-- `uperf_get_command` on a machine of order `e`: the command and its value, or
nothing where it returns `-1`.  What `read` does not fill of the record is zero. -/
def uperfGetCommand (k : Kernel) (e : Endian) (bitswap : Bool) (r : Reader) :
    Option (UInt32 × UInt32) × Reader :=
  let (readRet, bytes, r) := k.read UperfCommand.codec.size r
  let uc := UperfCommand.codec.get e
    (bytes ++ List.replicate (UperfCommand.codec.size - bytes.length) 0)
  if readRet ≤ 0 then (none, r)
  else if ¬ strncmpEq uc.magic uperfCommandMagic 64 then (none, r)
  else if bitswap then (some (bswap32 uc.command, bswap32 uc.value), r)
  else (some (uc.command, uc.value), r)

section

variable {k : Kernel} {e e' : Endian} {bitswap : Bool} {r r' : Reader} {got : UInt32 × UInt32}

/-- What a call leaves to be read. -/
theorem uperfGetCommand_snd (k : Kernel) (e : Endian) (bitswap : Bool) (r : Reader) :
    (uperfGetCommand k e bitswap r).2 = (k.read UperfCommand.codec.size r).2.2 := by
  unfold uperfGetCommand
  simp only
  split_ifs <;> rfl

/-- A call that returns a command has read something, and no more than a record. -/
theorem uperfGetCommand_some (h : uperfGetCommand k e bitswap r = (some got, r')) :
    ∃ n : ℕ, 0 < n ∧ (n : ℤ) = min (k.ret r.calls UperfCommand.codec.size) r.stream.length ∧
      r' = ⟨r.calls + 1, r.stream.drop n⟩ := by
  have hpos : 0 < (k.read UperfCommand.codec.size r).1 := by
    by_contra hfail
    unfold uperfGetCommand at h
    simp only at h
    rw [if_pos (Int.not_lt.mp hfail)] at h
    cases h
  have hr' : r' = (k.read UperfCommand.codec.size r).2.2 := by
    rw [← uperfGetCommand_snd k e bitswap r, h]
  refine ⟨(k.read UperfCommand.codec.size r).1.toNat, by omega, ?_, hr'⟩
  rw [Int.toNat_of_nonneg (le_of_lt hpos)]
  rfl

theorem length_uperfGetCommand_lt (h : uperfGetCommand k e bitswap r = (some got, r')) :
    r'.stream.length < r.stream.length := by
  obtain ⟨n, hpos, hn, rfl⟩ := uperfGetCommand_some h
  have hle : (n : ℤ) ≤ r.stream.length := hn ▸ min_le_right _ _
  show (r.stream.drop n).length < _
  rw [List.length_drop]
  omega

end

/-- Successive calls of `uperf_get_command` while there is something to read; a
call that fails is the last one. -/
def rxCommands (k : Kernel) (e : Endian) (bitswap : Bool) (r : Reader) :
    List (Option (UInt32 × UInt32)) :=
  if r.stream = [] then []
  else
    match _h : uperfGetCommand k e bitswap r with
    | (none, _) => [none]
    | (some got, r') => some got :: rxCommands k e bitswap r'
termination_by r.stream.length
decreasing_by exact length_uperfGetCommand_lt _h

/-- What the slave is to get: the commands with their values. -/
def SentCommand.content (sent : SentCommand) : Option (UInt32 × UInt32) :=
  some (sent.command.code, sent.value)

section

variable {k : Kernel} {e e' : Endian} {bitswap : Bool} {r r' : Reader} {got : UInt32 × UInt32}

theorem rxCommands_nil (h : r.stream = []) : rxCommands k e bitswap r = [] := by
  rw [rxCommands, if_pos h]

theorem rxCommands_none (hne : r.stream ≠ [])
    (h : (uperfGetCommand k e bitswap r).1 = none) : rxCommands k e bitswap r = [none] := by
  rw [rxCommands, if_neg hne]
  split
  · rfl
  · rename_i hsome
    rw [hsome] at h
    cases h

theorem rxCommands_some (hne : r.stream ≠ [])
    (h : uperfGetCommand k e bitswap r = (some got, r')) :
    rxCommands k e bitswap r = some got :: rxCommands k e bitswap r' := by
  rw [rxCommands, if_neg hne]
  split
  · rename_i hnone
    rw [hnone] at h
    cases h
  · rename_i hsome
    rw [hsome] at h
    cases h
    rfl

/-! ## Reading a whole record -/

theorem UperfCommand.swap_codec (uc : UperfCommand) :
    UperfCommand.codec.swap uc =
      { uc with command := bswap32 uc.command, value := bswap32 uc.value } := by
  simp only [bswap32_eq]
  rfl

theorem cstr_magic (sent : SentCommand) :
    (uperfSendCommand sent).magic.cstr = uperfCommandMagic := by
  rw [uperfSendCommand, cstr_strlcpy _ (ne_zero_of_all (by decide))]
  decide

/-- A read that returns the whole record gives the command that was sent. -/
theorem uperfGetCommand_whole {sent : SentCommand} {rest : List UInt8}
    (hwhole : k.ret r.calls UperfCommand.codec.size = UperfCommand.codec.size)
    (hstream : r.stream = UperfCommand.codec.put e (uperfSendCommand sent) ++ rest) :
    uperfGetCommand k e' (decide (e ≠ e')) r = (sent.content, ⟨r.calls + 1, rest⟩) := by
  have hlen := UperfCommand.codec.length_put e (uperfSendCommand sent)
  have hread : k.read UperfCommand.codec.size r = ((UperfCommand.codec.size : ℤ),
      UperfCommand.codec.put e (uperfSendCommand sent), ⟨r.calls + 1, rest⟩) := by
    have hmin : min (k.ret r.calls UperfCommand.codec.size) (r.stream.length : ℤ) =
        UperfCommand.codec.size := by
      rw [hwhole, hstream, List.length_append, hlen]
      omega
    rw [Kernel.read, hmin, hstream, Int.toNat_natCast, List.take_left' hlen, List.drop_left' hlen]
  have hmagic : strncmpEq (strlcpy sent.stack uperfCommandMagic) uperfCommandMagic 64 = true := by
    have hcstr := cstr_magic sent
    rw [uperfSendCommand] at hcstr
    simp [strncmpEq, hcstr]
  have hsize : ¬ (UperfCommand.codec.size : ℤ) ≤ 0 := by decide
  unfold uperfGetCommand
  simp only [hread, hlen, Nat.sub_self, List.replicate_zero, List.append_nil, if_neg hsize]
  by_cases hne : e = e'
  · subst hne
    simp [hmagic, SentCommand.content, uperfSendCommand]
  · rw [UperfCommand.codec.get_put_of_ne _ hne, UperfCommand.swap_codec]
    simp [hmagic, hne, SentCommand.content, uperfSendCommand]

/-! ## Cut records -/

/-- Every call takes at most one record off the stream. -/
theorem length_stream_le (hall : ∀ got ∈ rxCommands k e bitswap r, got ≠ none) :
    r.stream.length ≤ (rxCommands k e bitswap r).length * UperfCommand.codec.size := by
  induction hr : r.stream.length using Nat.strong_induction_on generalizing r with
  | _ len ih =>
      subst hr
      by_cases hnil : r.stream = []
      · simp [hnil]
      · cases hget : uperfGetCommand k e bitswap r with
        | mk first r' =>
            cases first with
            | none =>
                have hlast := rxCommands_none hnil (congrArg Prod.fst hget)
                rw [hlast] at hall
                exact absurd rfl (hall none List.mem_cons_self)
            | some got =>
                have hcons := rxCommands_some hnil hget
                obtain ⟨n, hpos, hn, hr'⟩ := uperfGetCommand_some hget
                have hle : (n : ℤ) ≤ UperfCommand.codec.size :=
                  hn ▸ (min_le_left _ _).trans (k.ret_le _ _)
                have hrest := ih r'.stream.length (length_uperfGetCommand_lt hget)
                  (fun got hgot => hall got (hcons ▸ List.mem_cons_of_mem _ hgot)) rfl
                have hlen : r'.stream.length = r.stream.length - n := by
                  rw [hr']
                  exact List.length_drop
                rw [hcons, List.length_cons, Nat.succ_mul]
                omega

theorem length_commandStream (e : Endian) (cmds : List SentCommand) :
    (commandStream e cmds).length = cmds.length * UperfCommand.codec.size := by
  induction cmds with
  | nil => rfl
  | cons sent rest ih =>
      rw [commandStream, List.flatMap_cons, List.length_append, Codec.length_put]
      rw [commandStream] at ih
      rw [ih, List.length_cons, Nat.succ_mul, Nat.add_comm]

theorem commandStream_cons (e : Endian) (sent : SentCommand) (rest : List SentCommand) :
    commandStream e (sent :: rest) =
      UperfCommand.codec.put e (uperfSendCommand sent) ++ commandStream e rest :=
  List.flatMap_cons

theorem commandStream_cons_ne_nil (e : Endian) (sent : SentCommand) (rest : List SentCommand) :
    commandStream e (sent :: rest) ≠ [] := by
  apply List.ne_nil_of_length_pos
  rw [length_commandStream, List.length_cons]
  exact Nat.mul_pos (Nat.succ_pos _) (by decide)

/-- When the calls return what was sent, the first read is whole: the other calls
can take no more than the other records. -/
theorem ret_of_rxCommands_eq {sent : SentCommand} {rest : List SentCommand} {e e' : Endian}
    {calls : ℕ}
    (hrx : rxCommands k e' bitswap ⟨calls, commandStream e (sent :: rest)⟩ =
      (sent :: rest).map SentCommand.content) :
    k.ret calls UperfCommand.codec.size = UperfCommand.codec.size := by
  have hne := commandStream_cons_ne_nil e sent rest
  cases hget : uperfGetCommand k e' bitswap ⟨calls, commandStream e (sent :: rest)⟩ with
  | mk first r' =>
      cases first with
      | none =>
          rw [rxCommands_none hne (congrArg Prod.fst hget)] at hrx
          cases hrx
      | some got =>
          obtain ⟨n, hpos, hn, hr'⟩ := uperfGetCommand_some hget
          have htail : rxCommands k e' bitswap r' = rest.map SentCommand.content := by
            rw [rxCommands_some hne hget] at hrx
            exact (List.cons.inj hrx).2
          have hall : ∀ got ∈ rxCommands k e' bitswap r', got ≠ none := by
            rw [htail]
            simp [SentCommand.content]
          have hmin : (n : ℤ) ≤ k.ret calls UperfCommand.codec.size := hn ▸ min_le_left _ _
          have hret := k.ret_le calls UperfCommand.codec.size
          have hleft : (rest.length + 1) * UperfCommand.codec.size - n ≤
              rest.length * UperfCommand.codec.size := by
            calc (rest.length + 1) * UperfCommand.codec.size - n
                = (commandStream e (sent :: rest)).length - n := by
                  rw [length_commandStream, List.length_cons]
              _ = r'.stream.length := by rw [hr', List.length_drop]
              _ ≤ (rxCommands k e' bitswap r').length * UperfCommand.codec.size :=
                  length_stream_le hall
              _ = rest.length * UperfCommand.codec.size := by rw [htail, List.length_map]
          rw [Nat.succ_mul] at hleft
          omega

/-- On a machine of either order the calls of `uperf_get_command` return exactly
the commands that were sent if and only if each of the reads returns a whole
record. -/
theorem rxCommands_eq_iff (k : Kernel) (e e' : Endian) (cmds : List SentCommand) (calls : ℕ) :
    rxCommands k e' (decide (e ≠ e')) ⟨calls, commandStream e cmds⟩ =
        cmds.map SentCommand.content ↔
      ∀ i < cmds.length,
        k.ret (calls + i) UperfCommand.codec.size = UperfCommand.codec.size := by
  induction cmds generalizing calls with
  | nil => simp [commandStream, rxCommands_nil]
  | cons sent rest ih =>
      have hne := commandStream_cons_ne_nil e sent rest
      -- once the first read is whole, the other commands are left on the stream
      have hfirst : k.ret calls UperfCommand.codec.size = UperfCommand.codec.size →
          (rxCommands k e' (decide (e ≠ e')) ⟨calls, commandStream e (sent :: rest)⟩ =
              (sent :: rest).map SentCommand.content ↔
            ∀ i < rest.length,
              k.ret (calls + 1 + i) UperfCommand.codec.size = UperfCommand.codec.size) := by
        intro hwhole
        have hget : uperfGetCommand k e' (decide (e ≠ e'))
            ⟨calls, commandStream e (sent :: rest)⟩ =
              (sent.content, ⟨calls + 1, commandStream e rest⟩) :=
          uperfGetCommand_whole hwhole (commandStream_cons e sent rest)
        rw [rxCommands_some hne hget, List.map_cons, ← ih (calls + 1)]
        exact List.cons_inj_right _
      constructor
      · intro hrx i hi
        have hwhole := ret_of_rxCommands_eq hrx
        cases i with
        | zero => exact hwhole
        | succ i =>
            have hnext := (hfirst hwhole).mp hrx i (Nat.lt_of_succ_lt_succ hi)
            rwa [Nat.add_assoc, Nat.add_comm 1 i] at hnext
      · intro hall
        refine (hfirst (hall 0 (Nat.zero_lt_succ _))).mpr fun i hi => ?_
        have hnext := hall (i + 1) (Nat.succ_lt_succ hi)
        rwa [Nat.add_comm i 1, ← Nat.add_assoc] at hnext

end

/-- The first read gets the magic only, all others what they ask for. -/
def magicFirst : Kernel where
  ret call n := if call = 0 then min 64 n else n
  ret_le call n := by
    split <;> omega

/-- A slave that reads the magic of an abort command first takes it for the next
transaction. -/
theorem not_rxCommands_magicFirst : magicFirst.Positive ∧
    rxCommands magicFirst .little (decide (Endian.little ≠ .little))
        ⟨0, commandStream .little [⟨.abort, 0, default⟩]⟩ ≠
      [⟨.abort, 0, default⟩].map SentCommand.content := by
  refine ⟨fun call n hn => ?_, fun hrx => ?_⟩
  · show 0 < if call = 0 then min 64 (n : ℤ) else n
    split <;> omega
  · have hget : (uperfGetCommand magicFirst .little (decide (Endian.little ≠ .little))
        ⟨0, commandStream .little [⟨.abort, 0, default⟩]⟩).1 =
          some (UperfCmd.nextTxn.code, 0) := by decide +kernel
    have hne : commandStream .little [⟨.abort, 0, default⟩] ≠ [] := by decide +kernel
    rw [rxCommands_some hne (Prod.ext hget rfl)] at hrx
    have hhead := (List.cons.inj hrx).1
    exact absurd hhead (by decide)

end Uperf
