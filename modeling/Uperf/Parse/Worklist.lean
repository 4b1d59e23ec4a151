import Uperf.Parse.Symbols
import Uperf.Parse.Options

/-!
# The work order of a profile

`build_worklist` and `parse_app_profile` of `parse.c`.  The objects that the
source has pointers to, the current group with its current transaction and
flowop, are the last ones of their lists; the model keeps them beside the lists
until the next one is begun.

The text of a symbol may be that of an environment variable, and
`flowop_parse_options` cuts the texts that it takes apart (`Visit`), so that a
variable that is used again is not what it was.
-/

namespace Uperf

open Lib

/-- `STRAND_TYPE_PROCESS`. -/
def strandTypeProcess : UInt32 := flagBit 1

/-- `STRAND_TYPE_THREAD`. -/
def strandTypeThread : UInt32 := flagBit 2

/-- The table `flowops`. -/
def flowopNames : List (String × FlowopType) :=
  [("error", .error), ("Read", .read), ("Write", .write), ("Connect", .connect),
    ("Disconnect", .disconnect), ("Accept", .accept), ("Nop", .nop), ("Think", .think),
    ("send", .send), ("recv", .recv), ("sendfile", .sendfile), ("sendfilev", .sendfilev)]

/-- `flowop_type`. -/
def flowopType (flowstr : List UInt8) : FlowopType :=
  match flowopNames.find? fun entry => strcasecmpEq flowstr (str entry.1) with
  | some entry => entry.2
  | none => .error

/-- A symbol as `build_worklist` comes to it: with the text that it has by then, and
the environment that the symbols before it have left. -/
structure Visit extends Symbol where
  host : Host

/-- A symbol that is read in an environment: if its text is that of a variable, it
is what the variable has by now. -/
def Symbol.visit (s : Symbol) (host : Host) : Visit where
  type := s.type
  text :=
    match s.origin with
    | .environment name => (host.getenv name).getD s.text
    | _ => s.text
  origin := s.origin
  host := host

namespace Visit

/-- The environment in which the options are parsed: `strtok` has cut the text that
they stand in, behind its first word. -/
def optionsHost (s : Visit) : Host :=
  match s.origin with
  | .environment name => s.host.cut name (strtokLeft (str " \t") s.text)
  | _ => s.host

/-- The environment behind the symbol. -/
def after (s : Visit) : Host :=
  match s.type with
  | .options => (optionWords s.text).foldl afterOption s.optionsHost
  | _ => s.host

end Visit

/-- The symbols in their order, each in the environment that those before it have
left. -/
def visits (host : Host) : List Symbol → List Visit
  | [] => []
  | s :: rest => s.visit host :: visits (s.visit host).after rest

/-- The environment behind symbols. -/
def behind (host : Host) (list : List Symbol) : Host :=
  list.foldl (fun host s => (s.visit host).after) host

/-- The variables of `build_worklist`.  `groups` are those before `curr_grp`, and
the lists of `curr_grp` and `curr_txn` end before `curr_txn` and `curr_flowop`. -/
structure Builder where
  name : CharArray nameLen := default
  groups : List Group := []
  currGrp : Option Group := none
  currTxn : Option Txn := none
  currFlowop : Option Flowop := none
  txnid : ℕ := 0
  fid : ℕ := 0
  inGroup : Bool := false
  inTxn : Bool := false
deriving DecidableEq

namespace Builder

/-- `curr_txn` with all its flowops. -/
def txn (b : Builder) : Option Txn :=
  b.currTxn.map fun txn => { txn with flist := txn.flist ++ b.currFlowop.toList }

/-- `w.grp`. -/
def grp (b : Builder) : List Group :=
  b.groups ++ (b.currGrp.map fun g => { g with tlist := g.tlist ++ b.txn.toList }).toList

/-- `w`. -/
def workorder (b : Builder) : Workorder where
  name := b.name
  grp := b.grp

end Builder

/-- A group as its tag begins it, with `ngrp` groups before it. -/
def freshGroup (ngrp : ℕ) : Group where
  endian := uperfEndianValue
  name := strlcpy default (str "Group" ++ decimal ngrp)

@[simp] theorem tlist_freshGroup (ngrp : ℕ) : (freshGroup ngrp).tlist = [] := rfl

@[simp] theorem nthreads_freshGroup (ngrp : ℕ) : (freshGroup ngrp).nthreads = 0 := rfl

@[simp] theorem ntxn_freshGroup (ngrp : ℕ) : (freshGroup ngrp).ntxn = 0 := rfl

/-- A transaction as its tag begins it. -/
def freshTxn (txnid : ℕ) : Txn where
  txnid := .ofNat txnid
  iter := 1
  name := strlcpy default (str "Txn" ++ decimal txnid)

@[simp] theorem flist_freshTxn (txnid : ℕ) : (freshTxn txnid).flist = [] := rfl

@[simp] theorem nflowop_freshTxn (txnid : ℕ) : (freshTxn txnid).nflowop = 0 := rfl

/-- A flowop as its tag begins it. -/
def freshFlowop (fid : ℕ) : Flowop where
  options := { count := 1, repeats := 1, batchSize := 1 }
  id := .ofNat fid

/-- A flowop that is given a type. -/
def Flowop.setType (f : Flowop) (text : List UInt8) : Flowop :=
  { f with
    type := flowopType text
    execute := some (flowopGetExecuteFunc (flowopType text))
    name := strlcpy f.name text }

@[simp] theorem Flowop.type_setType (f : Flowop) (text : List UInt8) :
    (f.setType text).type = flowopType text := rfl

@[simp] theorem Flowop.execute_setType (f : Flowop) (text : List UInt8) :
    (f.setType text).execute = some (flowopGetExecuteFunc (flowopType text)) := rfl

@[simp] theorem Flowop.options_setType (f : Flowop) (text : List UInt8) :
    (f.setType text).options = f.options := rfl

@[simp] theorem Flowop.id_setType (f : Flowop) (text : List UInt8) :
    (f.setType text).id = f.id := rfl

/-- What a round of `build_worklist` leads to: the next builder, or `none` where
the function returns `NULL`, and the errors it adds. -/
abbrev BuildResult := Except Fault (Option Builder × List ErrorText)

/-- An error after which the function returns. -/
def reject (text : List UInt8) : BuildResult := .ok (none, [snprintf 1024 text])

/-- A branch that changes the current transaction. -/
def onTxn (b : Builder) (change : Txn → Txn) (errors : List ErrorText) : BuildResult :=
  if ¬ b.inTxn then reject (str "No current transaction")
  else
    match b.currTxn with
    | none => .error .noTxn
    | some txn => .ok (some { b with currTxn := some (change txn) }, errors)

/-- A branch that changes the current group. -/
def onGroup (b : Builder) (change : Group → Group) (errors : List ErrorText) : BuildResult :=
  if ¬ b.inGroup then reject (str "No current group")
  else
    match b.currGrp with
    | none => .error .noGroup
    | some g => .ok (some { b with currGrp := some (change g) }, errors)

/-- The branch `TOKEN_GROUP_START`. -/
def groupStart (b : Builder) : BuildResult :=
  if maxThreadGroups ≤ b.grp.length then .error .groupSlot
  else
    .ok (some { b with
      groups := b.grp
      currGrp := some (freshGroup b.grp.length)
      currTxn := none
      currFlowop := none
      txnid := 0
      inGroup := true }, [])

/-- The branch `TOKEN_TXN_START`. -/
def txnStart (b : Builder) : BuildResult :=
  if ¬ b.inGroup then reject (str "No current group")
  else
    match b.currGrp with
    | none => .error .noGroup
    | some g =>
        let tlist := match b.txn with
          | none => []
          | some txn => g.tlist ++ [txn]
        .ok (some { b with
          currGrp := some { g with ntxn := g.ntxn + 1, tlist := tlist }
          currTxn := some (freshTxn b.txnid)
          currFlowop := none
          txnid := b.txnid + 1
          fid := 0
          inTxn := true }, [])

/-- The branch `TOKEN_FLOWOP_START`. -/
def flowopStart (b : Builder) : BuildResult :=
  if ¬ b.inTxn then reject (str "No current transaction")
  else
    match b.currTxn with
    | none => .error .noTxn
    | some txn =>
        let flist := match b.currFlowop with
          | none => []
          | some f => txn.flist ++ [f]
        .ok (some { b with
          currTxn := some { txn with nflowop := txn.nflowop + 1, flist := flist }
          currFlowop := some (freshFlowop b.fid)
          fid := b.fid + 1 }, [])

/-- The branch `TOKEN_TYPE`. -/
def flowopSetType (b : Builder) (text : List UInt8) : BuildResult :=
  match b.currFlowop with
  | none => .error .noFlowop
  | some f =>
      if flowopType text = .error then reject (str "Unknown flowop " ++ text)
      else .ok (some { b with currFlowop := some (f.setType text) }, [])

/-- The branch `TOKEN_OPTIONS`. -/
def flowopSetOptions (b : Builder) (host : Host) (text : List UInt8) : BuildResult :=
  match b.currFlowop with
  | none => .error .noFlowop
  | some f =>
      (flowopParseOptions host text).bind fun set =>
        .ok (some { b with currFlowop := some (set.update f) }, set.errors)

/-- The branch `TOKEN_NAME`: the name goes to the current group, or to the work order. -/
def setName (b : Builder) (text : List UInt8) : BuildResult :=
  if b.inGroup then onGroup b (fun g => { g with name := strlcpy g.name text }) []
  else .ok (some { b with name := strlcpy b.name text }, [])

/-- The body of the loop of `build_worklist`. -/
def buildStep (b : Builder) (s : Visit) : BuildResult :=
  match s.type with
  | .profileStart => .ok (some b, [])
  | .profileEnd => .ok (some b, [])
  | .groupStart => groupStart b
  | .groupEnd => .ok (some { b with inGroup := false }, [])
  | .txnStart => txnStart b
  | .txnEnd => .ok (some { b with inTxn := false }, [])
  | .flowopStart => flowopStart b
  | .xmlEnd => .ok (some b, [])
  | .name => setName b s.text
  | .iterations =>
      let (iter, errors) := string2int s.host (some s.text)
      onTxn b (fun txn => { txn with iter := .ofInt iter }) errors
  | .type => flowopSetType b s.text
  | .options => flowopSetOptions b s.optionsHost s.text
  | .rate =>
      let (rate, errors) := string2int s.host (some s.text)
      onTxn b (fun txn => { txn with
        rateStr := strlcpy txn.rateStr s.text, rateCount := .ofInt rate }) errors
  | .duration =>
      let (duration, errors) := string2nsec s.host s.text
      onTxn b (fun txn => { txn with duration := duration, iter := 1 }) errors
  | .nthreads =>
      let (nthreads, errors) := string2int s.host (some s.text)
      onGroup b (fun g => { g with
        nthreads := .ofInt nthreads, strandFlag := g.strandFlag ||| strandTypeThread }) errors
  | .nprocesses =>
      let (nthreads, errors) := string2int s.host (some s.text)
      onGroup b (fun g => { g with
        nthreads := .ofInt nthreads, strandFlag := g.strandFlag ||| strandTypeProcess }) errors
  | .error => reject (str "Unknown symbol: " ++ s.text)

/-- One round of the loop, with its errors recorded; there is none after the
function has returned. -/
def buildSymbol (st : Option Builder × List ErrorText) (s : Visit) : BuildResult :=
  match st.1 with
  | none => .ok st
  | some b =>
      (buildStep b s).bind fun (next, new) =>
        (addErrors st.2 new).bind fun errors => .ok (next, errors)

/-- `build_worklist`, with the errors recorded before and after it. -/
def buildWorklist (host : Host) (errors : List ErrorText) (list : List Symbol) : BuildResult :=
  loop buildSymbol (some {}, errors) (visits host list)

/-- The text in the buffer: the last byte of the file is overwritten with the
terminator, and a NUL before it ends the text. -/
def profileText (file : List UInt8) : List UInt8 := file.dropLast.takeWhile (· ≠ 0)

/-- `parse_app_profile` of a file that can be read, with the errors recorded. -/
def parseAppProfile (host : Host) (file : List UInt8) :
    Except Fault (Option Workorder × List ErrorText) :=
  if file = [] then .ok (none, [])
  else
    (parse host (profileText file)).bind fun (list, errors) =>
      (buildWorklist host errors list).bind fun (b, errors) =>
        .ok (if errors = [] then b.map Builder.workorder else none, errors)

end Uperf
