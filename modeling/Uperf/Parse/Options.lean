import Uperf.Workorder
import Uperf.Parse.Numbers
import Mathlib.Data.List.DropRight

/-!
# The options of a flowop

`flowop_parse_options`, `parse_option` and `parse_size` of `parse.c`.  What an
option does is a `Setting`: a change of the flowop and the errors it adds.  The
branches of `parse_option` are the rows of a table, in their order.

`getenv` returns a pointer into the environment, and where `strtok` is used on
such a text it cuts the variable: `parse_size` cuts the value of `size=$v`, if it
is of the form `rand(...)`.  So an option is read in the environment that the
options before it have left (`afterOption`).
-/

namespace Uperf

open Lib

/-! ## Strings -/

/-- `strcasecmp (a, b) == 0`. -/
def strcasecmpEq (a b : List UInt8) : Bool := a.map tolower = b.map tolower

/-- `strtok`: the next token and what follows the delimiter behind it. -/
def strtok (delims s : List UInt8) : Option (List UInt8) × List UInt8 :=
  let start := s.dropWhile (delims.contains ·)
  if start = [] then (none, [])
  else
    (some (start.takeWhile fun c => ¬ delims.contains c),
      (start.dropWhile fun c => ¬ delims.contains c).tail)

/-- What `strtok` leaves of a text in its place: it ends behind the first token. -/
def strtokLeft (delims s : List UInt8) : List UInt8 :=
  s.takeWhile (delims.contains ·) ++
    (s.dropWhile (delims.contains ·)).takeWhile fun c => ¬ delims.contains c

/-- `strip`. -/
def strip (s : List UInt8) : List UInt8 :=
  (s.dropWhile (· = 32)).rdropWhile (· = 32)

/-- `isalpha`. -/
def isAlpha (c : UInt8) : Bool := 97 ≤ tolower c && tolower c ≤ 122

/-! ## Settings -/

/-- What an option does to the flowop, and the errors it adds. -/
structure Setting where
  update : Flowop → Flowop := id
  errors : List ErrorText := []

namespace Setting

/-- A change of the options of the flowop. -/
def option (change : FlowopOptions → FlowopOptions) (errors : List ErrorText) : Setting where
  update f := { f with options := change f.options }
  errors := errors

/-- One setting after another. -/
def followedBy (first second : Setting) : Setting where
  update f := second.update (first.update f)
  errors := first.errors ++ second.errors

end Setting

/-- The text of an error in `parse_option`. -/
def optionError (text : List UInt8) : ErrorText := snprintf 128 text

/-- A branch of `parse_option`: from the value of the option to its setting. -/
abbrev OptionBranch := List UInt8 → Except Fault Setting

section

variable (host : Host)

/-- A branch that stores the result of `string2int`. -/
def string2intBranch (store : ℤ → FlowopOptions → FlowopOptions) : OptionBranch := fun value =>
  let (val, errors) := string2int host (some value)
  .ok (.option (store val) errors)

/-- A branch that stores the result of `atoi`. -/
def atoiBranch (store : ℤ → FlowopOptions → FlowopOptions) : OptionBranch := fun value =>
  .ok (.option (store (atoi value)) [])

/-- A branch that stores the result of `atoi` if it is positive. -/
def positiveBranch (key : String) (store : ℤ → FlowopOptions → FlowopOptions) : OptionBranch :=
  fun value =>
    if atoi value < 1 then
      .ok { errors := [optionError (str key ++ str " (" ++ value ++ str ") should be > 0")] }
    else .ok (.option (store (atoi value)) [])

/-- A branch that stores the result of `string2int` if it lies between two
bounds. -/
def boundedBranch (key : String) (least most : ℤ) (store : ℤ → FlowopOptions → FlowopOptions) :
    OptionBranch := fun value =>
  let (res, errors) := string2int host (some value)
  if least ≤ res ∧ res ≤ most then .ok (.option (store res) errors)
  else
    .ok { errors := errors ++ [optionError (str ("Cannot understand " ++ key ++ ":") ++ value)] }

/-- A branch that stores the result of `string2nsec`. -/
def string2nsecBranch (key : String) (store : UInt64 → FlowopOptions → FlowopOptions) :
    OptionBranch := fun value =>
  let (val, errors) := string2nsec host value
  .ok (.option (store val) (errors ++
    if val = 0 then [optionError (str ("Cannot understand " ++ key ++ ":") ++ value)] else []))

/-- A branch that stores the text itself. -/
def textBranch (store : List UInt8 → FlowopOptions → FlowopOptions) : OptionBranch := fun value =>
  .ok (.option (store value) [])

/-- `INT_MAX`. -/
def intMax : ℤ := 2 ^ 31 - 1

/-- `parse_size`: the size, the change of the random bounds, and the errors. -/
def parseSize (value : List UInt8) : ℤ × (FlowopOptions → FlowopOptions) × List ErrorText :=
  let size := stringToInt host value
  if 0 < size then (size, id, [])
  else if strcasecmpEq (value.take 5) (str "rand(") then
    let rest := (strtok (str "(") value).2
    let (cmin, rest) := strtok (str ",") rest
    let (cmax, _) := strtok (str ")") rest
    let (min, minErrors) := string2int host (cmin.map strip)
    let (max, maxErrors) := string2int host (cmax.map strip)
    let size := if 0 < UInt32.ofInt min ∧ 0 < UInt32.ofInt max then 0 else -1
    (size,
      fun o => { o with
        randSzMin := .ofInt min, randSzMax := .ofInt max, flag := o.flag ||| oSizeRand },
      minErrors ++ maxErrors)
  else (-1, id, [])

/-- What `parse_size` leaves of the value in its place. -/
def sizeLeft (value : List UInt8) : List UInt8 :=
  if 0 < stringToInt host value then value
  else if strcasecmpEq (value.take 5) (str "rand(") then strtokLeft (str "(") value
  else value

/-- The branch `size`.  The error shows what is left of the value. -/
def sizeBranch : OptionBranch := fun value =>
  let (size, change, errors) := parseSize host value
  .ok (.option (fun o => { change o with size := .ofInt size }) (errors ++
    if size = -1 then [optionError (str "Could not parse " ++ sizeLeft host value)] else []))

/-- The branch `dir`, with `sendfile_init`. -/
def dirBranch : OptionBranch := fun value =>
  let store : FlowopOptions → FlowopOptions := fun o => { o with dir := strlcpy o.dir value }
  match host.ftw value with
  | none => .ok (.option store [optionError (str "Error initializing dir: " ++ value)])
  | some 0 => .error .noFiles
  | some _ => .ok (.option store [])

/-- `PROTOCOL_UNSUPPORTED`. -/
def protocolUnsupported : UInt32 := 8

/-- `plist`, the protocols of this build. -/
def plist : List (String × UInt32) :=
  [("tcp", 1), ("udp", 3)] ++ (if host.haveRds then [("rds", 4)] else []) ++
    (if host.haveSctp then [("sctp", 6)] else []) ++ (if host.haveSsl then [("ssl", 5)] else []) ++
    (if host.haveVsock then [("vsock", 7)] else [])

/-- `protocol_type`. -/
def protocolType (protocol : List UInt8) : UInt32 :=
  match (plist host).find? fun pl => strcasecmpEq protocol (str pl.1) with
  | some pl => pl.2
  | none => protocolUnsupported

/-- The branch `protocol`. -/
def protocolBranch : OptionBranch := fun value =>
  .ok (.option (fun o => { o with protocol := protocolType host value })
    (if protocolType host value = protocolUnsupported then
      [optionError (str "Protocol " ++ value ++ str " not supported")] else []))

/-- The branch `conn`.  The number is unsigned where it is compared. -/
def connBranch : OptionBranch := fun value =>
  .ok {
    update := fun f => { f with pId := .ofInt (atoi value) }
    errors := if UInt32.ofInt (atoi value) ≤ 0 then
      [optionError (str "connection id (conn=" ++ value ++ str ") should be > 0")] else [] }

/-- The branches `cipher` and `method`, which copy with `strcpy`. -/
def strcpyBranch {n : ℕ} (field : FlowopOptions → CharArray (n + 1))
    (store : CharArray (n + 1) → FlowopOptions → FlowopOptions) : OptionBranch := fun value =>
  if value.length ≤ n then .ok (.option (fun o => store (strlcpy (field o) value) o) [])
  else .error .fieldOverflow

/-! ## The table -/

/-- `1 << bit`. -/
def flagBit (bit : UInt32) : UInt32 := 1 <<< bit

/-- The options that are a word of their own. -/
def optionFlags : List (String × UInt32) :=
  [("tcp_nodelay", flagBit 1), ("busy", flagBit 5), ("idle", flagBit 4), ("canfail", oCanfail),
    ("non_blocking", flagBit 3)] ++
    (if host.haveSctp then [("sctp_unordered", flagBit 7), ("sctp_nodelay", flagBit 8)] else [])

/-- The options of SCTP. -/
def sctpBranches : List (String × OptionBranch) :=
  [("sctp_rto_min", boundedBranch host "sctp_rto_min" 0 intMax
      fun v o => { o with sctpRtoMin := .ofInt v }),
    ("sctp_rto_max", boundedBranch host "sctp_rto_max" 0 intMax
      fun v o => { o with sctpRtoMax := .ofInt v }),
    ("sctp_rto_initial", boundedBranch host "sctp_rto_initial" 0 intMax
      fun v o => { o with sctpRtoInitial := .ofInt v }),
    ("sctp_sack_delay", boundedBranch host "sctp_sack_delay" 0 intMax
      fun v o => { o with sctpSackDelay := .ofInt v }),
    ("sctp_sack_frequency", boundedBranch host "sctp_sack_frequency" 0 intMax
      fun v o => { o with sctpSackFrequency := .ofInt v }),
    ("sctp_max_burst_size", boundedBranch host "sctp_max_burst_size" 0 intMax
      fun v o => { o with sctpMaxBurstSize := .ofInt v }),
    ("sctp_max_fragment_size", boundedBranch host "sctp_max_fragment_size" 0 intMax
      fun v o => { o with sctpMaxFragmentSize := .ofInt v }),
    ("sctp_hb_interval", boundedBranch host "sctp_hb_interval" 0 intMax
      fun v o => { o with sctpHbInterval := .ofInt v }),
    ("sctp_path_mtu", boundedBranch host "sctp_path_mtu" 0 intMax
      fun v o => { o with sctpPathMtu := .ofInt v }),
    ("sctp_in_streams", boundedBranch host "sctp_in_streams" 1 65535
      fun v o => { o with sctpInStreams := .ofInt v }),
    ("sctp_out_streams", boundedBranch host "sctp_out_streams" 1 65535
      fun v o => { o with sctpOutStreams := .ofInt v }),
    ("sctp_stream_id", boundedBranch host "sctp_stream_id" 0 65535
      fun v o => { o with sctpStreamId := .ofInt v }),
    ("sctp_pr_value", boundedBranch host "sctp_pr_value" 0 intMax
      fun v o => { o with sctpPrValue := .ofInt v }),
    ("sctp_pr_policy", textBranch
      fun text o => { o with sctpPrPolicy := strlcpy o.sctpPrPolicy text })]

/-- The options of SSL. -/
def sslBranches : List (String × OptionBranch) :=
  [("engine", textBranch fun text o => { o with engine := strlcpy o.engine text }),
    ("cipher", strcpyBranch FlowopOptions.cipher fun text o => { o with cipher := text }),
    ("method", strcpyBranch FlowopOptions.method fun text o => { o with method := text })]

/-- The options of the form `key=value`. -/
def optionBranches : List (String × OptionBranch) :=
  [("size", sizeBranch host),
    ("rsize", string2intBranch host fun v o => { o with rsize := .ofInt v }),
    ("nfiles", string2intBranch host fun v o => { o with nfiles := .ofInt v }),
    ("dir", dirBranch host),
    ("count", atoiBranch fun v o => { o with count := .ofInt v }),
    ("repeat", positiveBranch "repeat" fun v o => { o with repeats := .ofInt v }),
    ("batch_size", positiveBranch "batch_size" fun v o => { o with batchSize := .ofInt v }),
    ("port", atoiBranch fun v o => { o with port := .ofInt v }),
    ("protocol", protocolBranch host),
    ("conn", connBranch),
    ("remotehost", textBranch fun text o => { o with remotehost := strlcpy o.remotehost text }),
    ("localhost", textBranch fun text o => { o with localhost := strlcpy o.localhost text }),
    ("wndsz", string2intBranch host fun v o => { o with wndsz := .ofInt v }),
    ("timeout", string2nsecBranch host "timeout" fun v o => { o with pollTimeout := v }),
    ("duration", string2nsecBranch host "duration" fun v o => { o with duration := v }),
    ("encaps", boundedBranch host "encaps" 0 65535 fun v o => { o with encapsPort := .ofInt v }),
    ("cc", textBranch fun text o => { o with cc := strlcpy o.cc text }),
    ("stack", textBranch fun text o => { o with stack := strlcpy o.stack text }),
    ("bblog", boundedBranch host "bblog" 0 intMax fun v o => { o with bblog := .ofInt v })] ++
    (if host.haveSctp then sctpBranches host else []) ++
    if host.haveSsl then sslBranches else []

/-- The branch of a key; without one the option is an error. -/
def keyBranch (key : List UInt8) : OptionBranch :=
  match (optionBranches host).find? fun row => strcasecmpEq key (str row.1) with
  | some row => row.2
  | none => fun value =>
      .ok { errors := [optionError
        (str "parser - Option unrecognized " ++ key ++ str "=" ++ value)] }

/-- The value of an option, or the error that its variable is not set. -/
def optionValue (key value : List UInt8) : Except ErrorText (List UInt8) :=
  if value.head? = some '$'.toUInt8 then
    match host.getenv value.tail with
    | none => .error (optionError
        (str "Env variable " ++ key ++ str " = " ++ value ++ str " not set"))
    | some tmp => .ok tmp
  else .ok value

/-- The key of an option and the text behind it, or the setting of an option that
is a word of its own or has no such text. -/
def optionParts (option : List UInt8) : Except Setting (List UInt8 × List UInt8) :=
  match (optionFlags host).find? fun row => strcasecmpEq option (str row.1) with
  | some row => .error (.option (fun o => { o with flag := o.flag ||| row.2 }) [])
  | none =>
      let (key, rest) := strtok (str "=") option
      let key := key.getD option
      match (strtok (str " ") rest).1 with
      | none =>
          .error {
            errors := [optionError (str "option " ++ key ++ str " is not of type key=value")] }
      | some value => .ok (key, value)

/-- The key of an option and its value, with a variable replaced. -/
def optionPair (option : List UInt8) : Except Setting (List UInt8 × List UInt8) :=
  match optionParts host option with
  | .error set => .error set
  | .ok (key, value) =>
      match optionValue host key value with
      | .error text => .error { errors := [text] }
      | .ok value => .ok (key, value)

/-- `parse_option`. -/
def parseOption (option : List UInt8) : Except Fault Setting :=
  match optionPair host option with
  | .error set => .ok set
  | .ok (key, value) => keyBranch host key value

/-- The environment that `parse_option` leaves: `parse_size` works on the text of
the variable itself. -/
def afterOption (option : List UInt8) : Host :=
  match optionParts host option with
  | .error _ => host
  | .ok (key, value) =>
      if strcasecmpEq key (str "size") ∧ value.head? = some '$'.toUInt8 then
        match host.getenv value.tail with
        | none => host
        | some tmp => host.cut value.tail (sizeLeft host tmp)
      else host

/-- `UPERF_ANY_CONNECTION` is zero, as are the other defaults that are not one. -/
def optionDefaults (f : Flowop) : Flowop :=
  { f with
    pId := 0
    options := { f.options with
      count := 1, repeats := 1, batchSize := 1, size := 0, duration := 0 } }

/-- The delimiters between options. -/
def isBlank (c : UInt8) : Bool := c = 32 || c = 9

/-- The entries of `opt_arr`. -/
def maxOptions : ℕ := 100

/-- The words that `flowop_parse_options` copies to `opt_arr`.  A row has a
hundred bytes, and `strlcpy` keeps the last for the terminator; without
`HAVE_STRLCPY` a longer word leaves its row unterminated, and `parse_option`
reads on in the next one. -/
def optionWords (strOptions : List UInt8) : List (List UInt8) :=
  ((strOptions.splitOnP isBlank).filter fun word => word.head?.any isAlpha).map (·.take 99)

end

/-- The words in their order, each with the environment that it is read in. -/
def readWords (host : Host) : List (List UInt8) → List (Host × List UInt8)
  | [] => []
  | word :: rest => (host, word) :: readWords (afterOption host word) rest

/-- The setting so far, and that of the next word. -/
def optionStep (set : Setting) (read : Host × List UInt8) : Except Fault Setting :=
  (parseOption read.1 read.2).bind fun next => .ok (set.followedBy next)

/-- `flowop_parse_options`. -/
def flowopParseOptions (host : Host) (strOptions : List UInt8) : Except Fault Setting :=
  if maxOptions < (optionWords strOptions).length then .error .optionSlot
  else loop optionStep { update := optionDefaults } (readWords host (optionWords strOptions))

end Uperf
