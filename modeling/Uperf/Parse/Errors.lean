import Uperf.CString
import Uperf.Lib.Fallible

/-!
# Errors and faults of the parser

`add_error` of `parse.c` with its table of a hundred texts, what the parser asks
the system it runs on, and the ways in which a call of it may not return.
-/

namespace Uperf

open Lib

/-- Why a call of the parser does not return: an access that the memory does not
have, an `assert`, or the `exit` of `add_error`. -/
inductive Fault
  /-- `curr->symbol` where `curr` is `NULL`. -/
  | noSymbol
  /-- `pt[strlen(pt) - 1]` of an empty text. -/
  | readsBefore
  /-- `free` of a text that is not the start of an allocation. -/
  | freesInside
  | noGroup
  | noTxn
  | noFlowop
  /-- `w.grp[w.ngrp++]` behind the last slot. -/
  | groupSlot
  /-- `opt_arr[i++]` behind the last slot. -/
  | optionSlot
  /-- `strcpy` into a field that is too small. -/
  | fieldOverflow
  /-- `assert (count)` in `sendfile_init`. -/
  | noFiles
  /-- `parse_errors[no_errs++]` behind the last slot. -/
  | errorSlot
  /-- `exit (1)` in `add_error`. -/
  | tooManyErrors
deriving DecidableEq, Repr

/-- The system and the build: the environment, the number of files that `ftw`
finds in a directory, where it does not fail, and the optional protocols. -/
structure Host where
  getenv : List UInt8 → Option (List UInt8)
  ftw : List UInt8 → Option ℕ
  haveRds : Bool
  haveSctp : Bool
  haveSsl : Bool
  haveVsock : Bool

/-- The environment after the text of a variable has been cut in its place. -/
def Host.cut (host : Host) (name text : List UInt8) : Host :=
  { host with getenv := fun other => if other = name then some text else host.getenv other }

/-- A machine that has no environment variables and no files, with the protocols
of the default build. -/
def bareHost : Host where
  getenv _ := none
  ftw _ := none
  haveRds := false
  haveSctp := true
  haveSsl := true
  haveVsock := true

/-- The text of an error. -/
abbrev ErrorText := List UInt8

/-- `snprintf (err, size, ...)`: the text, cut to fit with its terminator. -/
def snprintf (size : ℕ) (text : List UInt8) : ErrorText := text.take (size - 1)

/-- The entries of `parse_errors`. -/
def maxErrors : ℕ := 100

/-- `add_error`. -/
def addError (errors : List ErrorText) (text : ErrorText) : Except Fault (List ErrorText) :=
  if maxErrors < errors.length then .error .tooManyErrors
  else if errors.length < maxErrors then .ok (errors ++ [text])
  else .error .errorSlot

/-- Several calls of `add_error`. -/
def addErrors (errors : List ErrorText) (texts : List ErrorText) : Except Fault (List ErrorText) :=
  loop addError errors texts

theorem addError_ok_iff {errors errors' : List ErrorText} {text : ErrorText} :
    addError errors text = .ok errors' ↔
      errors.length < maxErrors ∧ errors' = errors ++ [text] := by
  unfold addError
  split
  · rename_i hmany
    simp only [reduceCtorEq, false_iff, not_and]
    omega
  · split
    · rename_i hroom
      simp [hroom, eq_comm]
    · simp_all

theorem addErrors_ok_iff {errors errors' texts : List ErrorText}
    (hfit : errors.length ≤ maxErrors) :
    addErrors errors texts = .ok errors' ↔
      errors.length + texts.length ≤ maxErrors ∧ errors' = errors ++ texts := by
  unfold addErrors
  induction texts using List.reverseRecOn generalizing errors' with
  | nil => simp [loop, hfit, eq_comm]
  | append_singleton before text ih =>
      rw [loop_concat_ok_iff]
      constructor
      · rintro ⟨mid, hbefore, htext⟩
        obtain ⟨hlen, rfl⟩ := ih.mp hbefore
        obtain ⟨hroom, rfl⟩ := addError_ok_iff.mp htext
        refine ⟨?_, List.append_assoc ..⟩
        simp only [List.length_append, List.length_cons, List.length_nil] at hroom ⊢
        omega
      · rintro ⟨hlen, rfl⟩
        simp only [List.length_append, List.length_cons, List.length_nil] at hlen
        refine ⟨errors ++ before, ih.mpr ⟨by omega, rfl⟩, addError_ok_iff.mpr ⟨?_, ?_⟩⟩
        · rw [List.length_append]
          omega
        · rw [List.append_assoc]

end Uperf
