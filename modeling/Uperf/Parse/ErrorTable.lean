import Uperf.Lib.Emission
import Uperf.Parse.OptionsFit
import Uperf.Parse.Worklist

/-!
# The table of errors

`parse_errors` has a hundred entries, and `add_error` means to stop the program before it
writes behind them: it tests whether there are more than a hundred.  With exactly a hundred the
test passes, and the next error goes behind the table.

The parser of the other modules adds the errors of a round at its end.  Where a round faults
some have been recorded before that (`faultErrors`); here is the parser with all its errors in
their order (`profileEmission`), which returns the same (`recordProfile_ok_iff`).  It keeps to
its table exactly if there are no more than a hundred errors (`guarded_iff`).
-/

namespace Uperf

open Lib

section

variable (host : Host)

/-! ## The errors in their order -/

/-- `parse`. -/
def parseEmission (text : List UInt8) : Emission ErrorText Fault (List Symbol) :=
  (Emission.loop (fun st token => .ofResult (parseStep host st token)) {} (tokens text).1).bind
    fun symbols =>
      if (tokens text).2 then (Emission.emit [str "token too long."]).bind fun _ => .ok symbols.list
      else .ok symbols.list

/-- The errors of options up to one at which `parse_option` faults. -/
def optionErrors : List (Host × List UInt8) → List ErrorText
  | [] => []
  | read :: rest =>
      match parseOption read.1 read.2 with
      | .ok set => set.errors ++ optionErrors rest
      | .error _ => []

/-- The errors that a round of `build_worklist` records before it faults: a number is read
before it is stored in the transaction or the group, but `rate_str` is filled first. -/
def faultErrors (b : Builder) (s : Visit) : List ErrorText :=
  match s.type with
  | .iterations => (string2int s.host (some s.text)).2
  | .duration => (string2nsec s.host s.text).2
  | .nthreads => (string2int s.host (some s.text)).2
  | .nprocesses => (string2int s.host (some s.text)).2
  | .options =>
      if b.currFlowop.isNone ∨ maxOptions < (optionWords s.text).length then []
      else optionErrors (readWords s.optionsHost (optionWords s.text))
  | _ => []

/-- The body of the loop of `build_worklist`. -/
def roundEmission (st : Option Builder) (s : Visit) : Emission ErrorText Fault (Option Builder) :=
  match st with
  | none => .ok none
  | some b =>
      match buildStep b s with
      | .ok (next, new) => ⟨new, .ok next⟩
      | .error fault => ⟨faultErrors b s, .error fault⟩

/-- `parse` and `build_worklist`, for a file with something in it. -/
def profileEmission (file : List UInt8) : Emission ErrorText Fault (Option Builder) :=
  if file = [] then .ok none
  else
    (parseEmission host (profileText file)).bind fun list =>
      .loop roundEmission (some {}) (visits host list)

/-- `parse_app_profile`, with each error passed to `add_error` where it arises. -/
def recordProfile (file : List UInt8) : Except Fault (Option Workorder × List ErrorText) :=
  ((profileEmission host file).into addError []).bind fun (b, errors) =>
    .ok (if errors = [] then b.map Builder.workorder else none, errors)

/-- `add_error` writes inside of its table, and stops the program where an error does not
fit. -/
structure Guarded (file : List UInt8) : Prop where
  inside : recordProfile host file ≠ .error .errorSlot
  stops : maxErrors < (profileEmission host file).emitted.length →
    recordProfile host file = .error .tooManyErrors

end

section

variable {host : Host} {file text : List UInt8} {errors texts : List ErrorText} {b : Builder}
  {s : Visit}

/-! ## The same results -/

theorem into_parseEmission (text : List UInt8) :
    (parseEmission host text).into addError [] = parse host text := by
  have hloop : (Emission.loop (fun st token => Emission.ofResult (parseStep host st token)) {}
      (tokens text).1).into addError [] = loop (parseToken host) ({}, []) (tokens text).1 := by
    rw [Emission.into_loop]
    congr 1
    funext st token
    exact Emission.into_ofResult _
  rw [parseEmission, Emission.into_bind, hloop, parse]
  congr 1
  funext st
  obtain ⟨symbols, errors⟩ := st
  simp only
  split
  · rw [Emission.into_bind, Emission.into_emit]
    simp only [loop]
    cases addError errors (str "token too long.") <;> rfl
  · rfl

theorem into_roundEmission_ok_iff {st st' : Option Builder × List ErrorText} :
    (roundEmission st.1 s).into addError st.2 = .ok st' ↔ buildSymbol st s = .ok st' := by
  obtain ⟨b, errors⟩ := st
  unfold roundEmission buildSymbol
  cases b with
  | none => rfl
  | some b =>
      simp only
      cases buildStep b s with
      | ok result => rfl
      | error fault =>
          simp only [Emission.into, Except.bind]
          cases loop addError errors (faultErrors b s) <;> simp

/-- With its errors in their order, the parser returns what it returns with the errors of a
round at its end. -/
theorem recordProfile_ok_iff {r : Option Workorder × List ErrorText} :
    recordProfile host file = .ok r ↔ parseAppProfile host file = .ok r := by
  unfold recordProfile parseAppProfile profileEmission
  by_cases hfile : file = []
  · rw [if_pos hfile, if_pos hfile]
    rfl
  · rw [if_neg hfile, if_neg hfile, Emission.into_bind, into_parseEmission]
    cases parse host (profileText file) with
    | error fault => rfl
    | ok parsed =>
        obtain ⟨list, errors⟩ := parsed
        change
          ((Emission.loop roundEmission (some {}) (visits host list)).into addError errors).bind _
              = _ ↔
            (buildWorklist host errors list).bind _ = _
        rw [Emission.into_loop, bind_eq_ok_iff, bind_eq_ok_iff]
        exact exists_congr fun st => and_congr_left fun _ =>
          loop_ok_congr fun st s st' => into_roundEmission_ok_iff

/-! ## What the table does -/

/-- The error that does not fit is written behind the table. -/
theorem addErrors_eq_errorSlot (hfit : errors.length ≤ maxErrors)
    (hmany : maxErrors < errors.length + texts.length) :
    addErrors errors texts = .error .errorSlot := by
  unfold addErrors
  induction texts generalizing errors with
  | nil =>
      rw [List.length_nil] at hmany
      omega
  | cons text texts ih =>
      rw [List.length_cons] at hmany
      by_cases hroom : errors.length < maxErrors
      · have hadd : addError errors text = .ok (errors ++ [text]) :=
          addError_ok_iff.mpr ⟨hroom, rfl⟩
        rw [loop_cons_ok hadd]
        apply ih <;> rw [List.length_append, List.length_singleton] <;> omega
      · have hadd : addError errors text = .error .errorSlot := by
          rw [addError, if_neg (not_lt.mpr hfit), if_neg hroom]
        rw [loop, hadd]
        rfl

/-! ## Other faults -/

theorem parseStep_ne_errorSlot (host : Host) (st : Symbols) (token : List UInt8) :
    parseStep host st token ≠ .error .errorSlot := by
  unfold parseStep
  split_ifs
  · exact nofun
  · exact nofun
  · cases st.curr with
    | none => exact nofun
    | some curr =>
        simp only
        split <;> exact nofun
  · exact nofun

theorem keyBranch_ne_errorSlot (key value : List UInt8) :
    keyBranch host key value ≠ .error .errorSlot := by
  unfold keyBranch
  cases hfind : (optionBranches host).find? fun row => strcasecmpEq key (str row.1) with
  | none => simp
  | some row =>
      change row.2 value ≠ .error .errorSlot
      obtain ⟨-, hplain⟩ | rfl | ⟨-, hrow⟩ := branch_cases row (List.mem_of_find?_eq_some hfind)
      · obtain ⟨set, hset⟩ := hplain value
        rw [hset]
        simp
      · simp only [dirBranch]
        split <;> simp
      · simp only [sslBranches, List.mem_cons, List.not_mem_nil, or_false] at hrow
        obtain rfl | rfl | rfl := hrow
        · simp [textBranch]
        · simp only [strcpyBranch]
          split <;> simp
        · simp only [strcpyBranch]
          split <;> simp

theorem parseOption_ne_errorSlot (word : List UInt8) :
    parseOption host word ≠ .error .errorSlot := by
  unfold parseOption
  split
  · exact nofun
  · exact keyBranch_ne_errorSlot _ _

theorem flowopParseOptions_ne_errorSlot (text : List UInt8) :
    flowopParseOptions host text ≠ .error .errorSlot := by
  unfold flowopParseOptions
  split
  · exact nofun
  · exact loop_ne_error fun set read => bind_ne_error (parseOption_ne_errorSlot read.2) nofun

theorem onTxn_ne_errorSlot (b : Builder) (change : Txn → Txn) (errors : List ErrorText) :
    onTxn b change errors ≠ .error .errorSlot := by
  unfold onTxn
  split
  · exact nofun
  · cases b.currTxn <;> exact nofun

theorem onGroup_ne_errorSlot (b : Builder) (change : Group → Group) (errors : List ErrorText) :
    onGroup b change errors ≠ .error .errorSlot := by
  unfold onGroup
  split
  · exact nofun
  · cases b.currGrp <;> exact nofun

theorem buildStep_ne_errorSlot (b : Builder) (s : Visit) :
    buildStep b s ≠ .error .errorSlot := by
  unfold buildStep
  cases s.type with
  | groupStart =>
      simp only [groupStart]
      split <;> exact nofun
  | txnStart =>
      simp only [txnStart, reject]
      split
      · exact nofun
      · cases b.currGrp <;> exact nofun
  | flowopStart =>
      simp only [flowopStart, reject]
      split
      · exact nofun
      · cases b.currTxn <;> exact nofun
  | name =>
      simp only [setName]
      split
      · exact onGroup_ne_errorSlot b _ _
      · exact nofun
  | iterations | rate | duration => exact onTxn_ne_errorSlot b _ _
  | nthreads | nprocesses => exact onGroup_ne_errorSlot b _ _
  | type =>
      simp only [flowopSetType, reject]
      cases b.currFlowop with
      | none => exact nofun
      | some f =>
          simp only
          split <;> exact nofun
  | options =>
      simp only [flowopSetOptions]
      cases b.currFlowop with
      | none => exact nofun
      | some f => exact bind_ne_error (flowopParseOptions_ne_errorSlot _) nofun
  | profileStart | profileEnd | groupEnd | txnEnd | xmlEnd | error => exact nofun

/-- Without a table, none is overrun. -/
theorem result_profileEmission_ne (host : Host) (file : List UInt8) :
    (profileEmission host file).result ≠ .error .errorSlot := by
  unfold profileEmission
  split
  · exact nofun
  · refine Emission.result_bind_ne ?_ fun list => Emission.result_loop_ne fun st s => ?_
    · refine Emission.result_bind_ne (Emission.result_loop_ne fun st token => ?_) fun st => ?_
      · have hstep := parseStep_ne_errorSlot host st token
        cases hresult : parseStep host st token with
        | ok result => exact nofun
        | error fault =>
            intro h
            cases h
            exact hstep hresult
      · split <;> exact nofun
    · cases st with
      | none => exact nofun
      | some b =>
          have hround := buildStep_ne_errorSlot b s
          simp only [roundEmission]
          cases hresult : buildStep b s with
          | ok result => exact nofun
          | error fault =>
              intro h
              cases h
              exact hround hresult

/-! ## The whole parse -/

/-- No more errors than the table holds are kept in it. -/
theorem recordProfile_ne_errorSlot
    (hfit : (profileEmission host file).emitted.length ≤ maxErrors) :
    recordProfile host file ≠ .error .errorSlot := by
  have hadd : addErrors [] (profileEmission host file).emitted =
      .ok (profileEmission host file).emitted :=
    (addErrors_ok_iff (Nat.zero_le _)).mpr ⟨by simpa using hfit, rfl⟩
  rw [addErrors] at hadd
  rw [recordProfile, Emission.into, hadd]
  change ((profileEmission host file).result.bind _).bind _ ≠ _
  refine bind_ne_error (bind_ne_error (result_profileEmission_ne host file) fun b => ?_)
    fun st => ?_
  · simp
  · simp

/-- One more is written behind it. -/
theorem recordProfile_eq_errorSlot
    (hmany : maxErrors < (profileEmission host file).emitted.length) :
    recordProfile host file = .error .errorSlot := by
  have hadd : addErrors [] (profileEmission host file).emitted = .error .errorSlot :=
    addErrors_eq_errorSlot (Nat.zero_le _) (by simpa using hmany)
  rw [addErrors] at hadd
  rw [recordProfile, Emission.into, hadd]
  rfl

end

/-- The parser keeps to the table of errors exactly for the profiles in which it finds no more
than a hundred. -/
theorem guarded_iff {host : Host} {file : List UInt8} :
    Guarded host file ↔ (profileEmission host file).emitted.length ≤ maxErrors := by
  constructor
  · intro h
    by_contra! hmany
    exact h.inside (recordProfile_eq_errorSlot hmany)
  · intro hfit
    exact ⟨recordProfile_ne_errorSlot hfit, fun hmany => absurd hfit (not_le.mpr hmany)⟩

/-- A hundred and one names that are taken from a variable that is not set. -/
def unsetNames : List UInt8 := (List.replicate 101 (str "name=$x ")).flatten ++ str "\n"

theorem not_guarded_unsetNames : ¬ Guarded bareHost unsetNames := fun h =>
  h.inside (recordProfile_eq_errorSlot (by decide +kernel))

end Uperf
