import Uperf.Parse.Tokens
import Uperf.Parse.Errors

/-!
# The symbols of a profile

`token_type`, `get_symbol` and `parse` of `parse.c`: every token becomes a symbol
with a type and a text, or is merged with the symbol before it.  A text is part
of the token it was cut from or belongs to the environment, and only a text that
is all of its token may be given to `free`.
-/

namespace Uperf

open Lib

/-- The types of `parse.h`. -/
inductive TokenType
  | profileStart
  | profileEnd
  | groupStart
  | groupEnd
  | txnStart
  | txnEnd
  | flowopStart
  | xmlEnd
  | name
  | iterations
  | type
  | options
  | duration
  | nthreads
  | nprocesses
  | rate
  | error
deriving DecidableEq, Repr

/-- `tlist`. -/
def tlist : List (TokenType × String) :=
  [(.profileStart, "<profile"), (.profileEnd, "</profile>"), (.groupStart, "<group"),
    (.groupEnd, "</group>"), (.txnStart, "<transaction"), (.txnEnd, "</transaction"),
    (.flowopStart, "<flowop"), (.xmlEnd, "/>"), (.name, "name="), (.iterations, "iterations="),
    (.type, "type="), (.options, "options="), (.duration, "duration="), (.nthreads, "nthreads="),
    (.nprocesses, "nprocs="), (.rate, "rate=")]

/-- `token_type`: the first entry of the table that the token begins with. -/
def tokenType (token : List UInt8) : TokenType :=
  match tlist.find? fun entry => (str entry.2).isPrefixOf token with
  | some entry => entry.1
  | none => .error

/-- Where a text lies in memory. -/
inductive Origin
  /-- All of an allocated token. -/
  | token
  /-- What follows the `=` in one. -/
  | tail
  /-- The value of the environment variable with this name. -/
  | environment (name : List UInt8)
deriving DecidableEq, Repr

/-- `struct symbol`. -/
structure Symbol where
  type : TokenType
  text : List UInt8
  origin : Origin
deriving DecidableEq

/-- The loop of `get_symbol`: what follows the first `=`. -/
def afterEquals : List UInt8 → Option (List UInt8)
  | [] => none
  | c :: s => if c = '='.toUInt8 then some s else afterEquals s

/-- `get_symbol`, with the error it adds. -/
def getSymbol (host : Host) (s : List UInt8) : (List UInt8 × Origin) × List ErrorText :=
  let value := (afterEquals s).getD s
  let origin := if (afterEquals s).isSome then Origin.tail else .token
  if value.head? = some '$'.toUInt8 then
    match host.getenv value.tail with
    | none | some [] => ((value, origin), [snprintf 1024 (value ++ str " is not set")])
    | some tmp => ((tmp, .environment value.tail), [])
  else ((value, origin), [])

/-- The symbols so far: those before `curr`, and `curr`, which is `NULL` before
the first one. -/
structure Symbols where
  earlier : List Symbol := []
  curr : Option Symbol := none
deriving DecidableEq

namespace Symbols

/-- The list behind `START`. -/
def list (st : Symbols) : List Symbol := st.earlier ++ st.curr.toList

/-- `pt`. -/
def lastText (st : Symbols) : List UInt8 :=
  match st.curr with
  | some curr => curr.text
  | none => str "START"

end Symbols

/-- `merge`: the token goes on with the symbol before it. -/
def merges (pt token : List UInt8) : Bool :=
  token.head? = some '='.toUInt8 || pt.getLast? = some '='.toUInt8 || pt = str "</" || pt = str "<"

/-- The symbol of a token of its own. -/
def freshSymbol (host : Host) (token : List UInt8) : Symbol × List ErrorText :=
  match tokenType token with
  | .error => (⟨.error, token, .token⟩, [])
  | known =>
      let ((text, origin), errors) := getSymbol host token
      (⟨known, text, origin⟩, errors)

/-- The symbol that a token and the symbol before it make together. -/
def mergedSymbol (host : Host) (curr : Symbol) (token : List UInt8) : Symbol × List ErrorText :=
  let sym := (curr.text ++ token).take (symbolSize - 1)
  let ((text, origin), errors) := getSymbol host sym
  (⟨tokenType sym, text, origin⟩, errors)

/-- The body of the loop of `parse`. -/
def parseStep (host : Host) (st : Symbols) (token : List UInt8) :
    Except Fault (Symbols × List ErrorText) :=
  if token = str ">" then .ok (st, [])
  else if token.head? ≠ some '='.toUInt8 ∧ st.lastText = [] then .error .readsBefore
  else if merges st.lastText token then
    match st.curr with
    | none => .error .noSymbol
    | some curr =>
        if curr.origin ≠ .token then .error .freesInside
        else
          let (symbol, errors) := mergedSymbol host curr token
          .ok ({ st with curr := some symbol }, errors)
  else
    let (symbol, errors) := freshSymbol host token
    .ok ({ earlier := st.list, curr := some symbol }, errors)

/-- One round of the loop, with its errors recorded. -/
def parseToken (host : Host) (st : Symbols × List ErrorText) (token : List UInt8) :
    Except Fault (Symbols × List ErrorText) :=
  (parseStep host st.1 token).bind fun (symbols, new) =>
    (addErrors st.2 new).bind fun errors => .ok (symbols, errors)

/-- `parse`: the symbols of the text and the errors recorded.  A token that is
too long ends the text. -/
def parse (host : Host) (text : List UInt8) : Except Fault (List Symbol × List ErrorText) :=
  (loop (parseToken host) ({}, []) (tokens text).1).bind fun (symbols, errors) =>
    if (tokens text).2 then
      (addError errors (str "token too long.")).bind fun errors => .ok (symbols.list, errors)
    else .ok (symbols.list, errors)

end Uperf
