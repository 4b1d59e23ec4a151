import Uperf.Parse.Worklist

/-!
# Abstract profiles

A profile as its author means it: groups of transactions of flowops.  It has a
canonical text, which is a list of words with a blank or a newline between any
two, and it means a work order.  Nothing here looks at how a text is parsed, but
for the value of a duration.
-/

namespace Uperf

open Lib

/-! ## Abstract syntax -/

/-- A number that an `int` holds, from a least one on. -/
structure Number (least : ℕ) where
  val : ℕ
  least_le : least ≤ val
  lt : val < 2 ^ 31

/-- The characters of a host name. -/
def isHostChar (c : UInt8) : Bool :=
  (97 ≤ c && c ≤ 122) || isDigit c || c = '.'.toUInt8 || c = '-'.toUInt8

/-- A host name. -/
structure HostText where
  bytes : List UInt8
  ne_nil : bytes ≠ []
  isHostChar : ∀ c ∈ bytes, isHostChar c = true

/-- The transport protocols. -/
inductive Transport
  | tcp
  | udp
deriving DecidableEq, Repr

/-- An option of a flowop. -/
inductive OptionSpec
  | size (n : Number 1)
  | rsize (n : Number 0)
  | count (n : Number 0)
  | repeats (n : Number 1)
  | batchSize (n : Number 1)
  | conn (n : Number 1)
  | port (n : Number 0)
  | protocol (p : Transport)
  | remotehost (name : HostText)

/-- The types of flowops that have a name. -/
inductive FlowopKind
  | read
  | write
  | connect
  | disconnect
  | accept
  | nop
  | think
  | send
  | recv
  | sendfile
  | sendfilev
deriving DecidableEq, Repr

/-- The value of a duration of `n` seconds. -/
def secondsText (n : ℕ) : List UInt8 := decimal n ++ str "s"

/-- What `string_to_nsec` makes of a duration of `n` seconds. -/
def secondsValue (n : ℕ) : UInt64 := stringToNsec bareHost (secondsText n)

/-- How often a transaction is executed. -/
inductive TxnSpan
  | once
  | iterations (n : Number 0)
  | duration (n : ℕ) (accepted : secondsValue n ≠ 0)

/-- What kind of strands a group has, and how many. -/
inductive Strands
  | threads (n : Number 0)
  | processes (n : Number 0)

/-! ## Canonical text -/

/-- A word of a profile: a tag, or an attribute with its value in quotes. -/
inductive Word
  | tag (text : List UInt8)
  | assign (key value : List UInt8)

namespace Word

/-- The word as it is written. -/
def print : Word → List UInt8
  | tag text => text
  | assign key value => key ++ '='.toUInt8 :: quote :: value ++ [quote]

/-- The word without its quotes. -/
def token : Word → List UInt8
  | tag text => text
  | assign key value => key ++ '='.toUInt8 :: value

end Word

/-- What stands between two words. -/
inductive Separator
  | blank
  | newline

/-- The byte of a separator. -/
def Separator.byte : Separator → UInt8
  | blank => 32
  | newline => 10

/-- The words with separators between them, the `i`-th of all behind the first. -/
def printWords (sep : ℕ → Separator) : ℕ → List Word → List UInt8
  | _, [] => []
  | i, word :: rest =>
      word.print ++ if rest = [] then [] else (sep i).byte :: printWords sep (i + 1) rest

namespace OptionSpec

/-- The key of an option. -/
def key : OptionSpec → String
  | size _ => "size"
  | rsize _ => "rsize"
  | count _ => "count"
  | repeats _ => "repeat"
  | batchSize _ => "batch_size"
  | conn _ => "conn"
  | port _ => "port"
  | protocol _ => "protocol"
  | remotehost _ => "remotehost"

/-- The value of an option. -/
def value : OptionSpec → List UInt8
  | size n => decimal n.val
  | rsize n => decimal n.val
  | count n => decimal n.val
  | repeats n => decimal n.val
  | batchSize n => decimal n.val
  | conn n => decimal n.val
  | port n => decimal n.val
  | protocol .tcp => str "tcp"
  | protocol .udp => str "udp"
  | remotehost name => name.bytes

/-- An option as it is written. -/
def print (o : OptionSpec) : List UInt8 := str o.key ++ '='.toUInt8 :: o.value

/-- What an option does to a flowop. -/
def apply (o : OptionSpec) (f : Flowop) : Flowop :=
  match o with
  | size n => { f with options := { f.options with size := .ofNat n.val } }
  | rsize n => { f with options := { f.options with rsize := .ofNat n.val } }
  | count n => { f with options := { f.options with count := .ofNat n.val } }
  | repeats n => { f with options := { f.options with repeats := .ofNat n.val } }
  | batchSize n => { f with options := { f.options with batchSize := .ofNat n.val } }
  | conn n => { f with pId := .ofNat n.val }
  | port n => { f with options := { f.options with port := .ofNat n.val } }
  | protocol .tcp => { f with options := { f.options with protocol := 1 } }
  | protocol .udp => { f with options := { f.options with protocol := 3 } }
  | remotehost name =>
      { f with options := { f.options with
        remotehost := strlcpy f.options.remotehost name.bytes } }

end OptionSpec

/-- Options with blanks between them. -/
def printOptions (options : List OptionSpec) : List UInt8 :=
  [32].intercalate (options.map OptionSpec.print)

namespace FlowopKind

/-- The name of a type. -/
def name : FlowopKind → String
  | read => "read"
  | write => "write"
  | connect => "connect"
  | disconnect => "disconnect"
  | accept => "accept"
  | nop => "nop"
  | think => "think"
  | send => "send"
  | recv => "recv"
  | sendfile => "sendfile"
  | sendfilev => "sendfilev"

/-- The type itself. -/
def type : FlowopKind → FlowopType
  | read => .read
  | write => .write
  | connect => .connect
  | disconnect => .disconnect
  | accept => .accept
  | nop => .nop
  | think => .think
  | send => .send
  | recv => .recv
  | sendfile => .sendfile
  | sendfilev => .sendfilev

end FlowopKind

/-- A flowop with its options, which fit the tables of the parser. -/
structure FlowopSpec where
  kind : FlowopKind
  options : List OptionSpec
  few : options.length ≤ maxOptions
  short : ∀ o ∈ options, o.print.length < 100
  fits : (Word.assign (str "options") (printOptions options)).token.length < symbolSize

namespace FlowopSpec

/-- The words of a flowop; without options the attribute is left out. -/
def words (f : FlowopSpec) : List Word :=
  [.tag (str "<flowop"), .assign (str "type") (str f.kind.name)] ++
    (if f.options = [] then [] else [.assign (str "options") (printOptions f.options)]) ++
    [.tag (str "/>")]

/-- The flowop with a number. -/
def flowop (f : FlowopSpec) (id : ℕ) : Flowop :=
  f.options.foldl (fun flowop o => o.apply flowop) {
    options := { count := 1, repeats := 1, batchSize := 1 }
    id := .ofNat id
    type := f.kind.type
    execute := some (flowopGetExecuteFunc f.kind.type)
    name := strlcpy default (str f.kind.name) }

end FlowopSpec

/-- A transaction. -/
structure TxnSpec where
  span : TxnSpan
  flowops : List FlowopSpec

/-- The attribute of a transaction, if it has one. -/
def TxnSpan.words : TxnSpan → List Word
  | once => []
  | iterations n => [.assign (str "iterations") (decimal n.val)]
  | duration n _ => [.assign (str "duration") (secondsText n)]

/-- What the attribute does to a transaction. -/
def TxnSpan.apply (span : TxnSpan) (txn : Txn) : Txn :=
  match span with
  | once => txn
  | iterations n => { txn with iter := .ofNat n.val }
  | duration n _ => { txn with duration := secondsValue n, iter := 1 }

namespace TxnSpec

/-- The words of a transaction. -/
def words (t : TxnSpec) : List Word :=
  .tag (str "<transaction") :: t.span.words ++ [.tag (str ">")] ++
    t.flowops.flatMap FlowopSpec.words ++ [.tag (str "</transaction>")]

/-- The transaction with a number, and its flowops with theirs. -/
def txn (t : TxnSpec) (txnid : ℕ) : Txn :=
  { t.span.apply { txnid := .ofNat txnid, iter := 1 } with
    nflowop := .ofNat t.flowops.length
    flist := t.flowops.mapIdx fun id f => f.flowop id
    name := strlcpy default (str "Txn" ++ decimal txnid) }

end TxnSpec

/-- A group. -/
structure GroupSpec where
  strands : Strands
  txns : List TxnSpec

/-- The attribute that gives a group its strands. -/
def Strands.word : Strands → Word
  | threads n => .assign (str "nthreads") (decimal n.val)
  | processes n => .assign (str "nprocs") (decimal n.val)

/-- What the attribute does to a group. -/
def Strands.apply (strands : Strands) (g : Group) : Group :=
  match strands with
  | threads n => { g with nthreads := .ofNat n.val, strandFlag := strandTypeThread }
  | processes n => { g with nthreads := .ofNat n.val, strandFlag := strandTypeProcess }

namespace GroupSpec

/-- The words of a group. -/
def words (g : GroupSpec) : List Word :=
  [.tag (str "<group"), g.strands.word, .tag (str ">")] ++ g.txns.flatMap TxnSpec.words ++
    [.tag (str "</group>")]

/-- The group with a number, and its transactions with theirs. -/
def group (g : GroupSpec) (ngrp : ℕ) : Group :=
  { g.strands.apply { endian := uperfEndianValue } with
    ntxn := .ofNat g.txns.length
    tlist := g.txns.mapIdx fun txnid t => t.txn txnid
    name := strlcpy default (str "Group" ++ decimal ngrp) }

end GroupSpec

/-- A profile, with no more groups than a work order has slots. -/
structure ProfileSpec where
  groups : List GroupSpec
  few : groups.length ≤ maxThreadGroups

namespace ProfileSpec

/-- The words of a profile. -/
def words (p : ProfileSpec) : List Word :=
  [.tag (str "<profile"), .tag (str ">")] ++ p.groups.flatMap GroupSpec.words ++
    [.tag (str "</profile>")]

/-- The canonical text of a profile, for a choice of separators. -/
def print (p : ProfileSpec) (sep : ℕ → Separator) : List UInt8 :=
  printWords sep 0 p.words ++ [10]

/-- The work order that a profile means. -/
def workorder (p : ProfileSpec) : Workorder where
  grp := p.groups.mapIdx fun ngrp g => g.group ngrp

end ProfileSpec

end Uperf
