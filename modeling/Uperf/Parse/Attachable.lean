import Uperf.Parse.Symbols

/-!
# When the symbols can be read

The loop of `parse` merges a token with the symbol before it without a look at
whether there is one, and whether its text may be freed.  Here is which texts it
gets to the end of, said of each token and the symbols before it.
-/

namespace Uperf

open Lib

/-- The token can be put behind the symbols so far: none goes on with a symbol
that is not there or whose text was cut out of a token, and an empty text is the
last one unless the next token goes on with it by itself. -/
def Attachable (st : Symbols) (token : List UInt8) : Prop :=
  token = str ">" ∨
    match st.curr with
    | none => token.head? ≠ some '='.toUInt8
    | some curr =>
        (curr.text = [] → token.head? = some '='.toUInt8) ∧
          (merges curr.text token = true → curr.origin = .token)

/-- The errors that a token adds: its value may name a variable that is not
set. -/
def tokenErrors (host : Host) (st : Symbols) (token : List UInt8) : ℕ :=
  if token = str ">" then 0
  else
    match st.curr with
    | some curr =>
        if merges curr.text token then (mergedSymbol host curr token).2.length
        else (freshSymbol host token).2.length
    | none => (freshSymbol host token).2.length

/-- Before the first symbol only a token that begins with `=` is merged. -/
theorem merges_start {token : List UInt8} :
    merges (str "START") token = true ↔ token.head? = some '='.toUInt8 := by
  have hlast : (str "START").getLast? ≠ some '='.toUInt8 := by decide
  have hend : str "START" ≠ str "</" := by decide
  have hopen : str "START" ≠ str "<" := by decide
  simp [merges, hlast, hend, hopen]

section

variable {host : Host} {st st' : Symbols} {token : List UInt8} {new : List ErrorText}

theorem succeeds_parseStep_iff : Succeeds (parseStep host st token) ↔ Attachable st token := by
  unfold parseStep Attachable
  by_cases hclose : token = str ">"
  · simp [hclose]
  cases hcurr : st.curr with
  | none =>
      have htext : st.lastText = str "START" := by simp [Symbols.lastText, hcurr]
      have hstart : str "START" ≠ [] := by decide
      by_cases hmerge : token.head? = some '='.toUInt8
      · simp [hclose, htext, merges_start, hmerge]
      · simp [hclose, htext, hstart, merges_start, hmerge]
  | some curr =>
      have htext : st.lastText = curr.text := by simp [Symbols.lastText, hcurr]
      by_cases hempty : curr.text = []
      · by_cases hhead : token.head? = some '='.toUInt8
        · have hmerge : merges curr.text token = true := by simp [merges, hhead]
          by_cases horigin : curr.origin = .token
          · simp [hclose, htext, hhead, hmerge, horigin]
          · simp [hclose, htext, hhead, hmerge, horigin]
        · simp [hclose, htext, hempty, hhead]
      · by_cases hmerge : merges curr.text token = true
        · by_cases horigin : curr.origin = .token
          · simp [hclose, htext, hempty, hmerge, horigin]
          · simp [hclose, htext, hempty, hmerge, horigin]
        · simp [hclose, htext, hempty, hmerge]

theorem length_parseStep (hstep : parseStep host st token = .ok (st', new)) :
    new.length = tokenErrors host st token := by
  unfold parseStep at hstep
  unfold tokenErrors
  split at hstep
  · cases hstep
    simp_all
  · split at hstep
    · cases hstep
    · rename_i hclose _
      rw [if_neg hclose]
      cases hcurr : st.curr with
      | none =>
          simp only [hcurr, Symbols.lastText] at hstep
          split at hstep <;> cases hstep
          rfl
      | some curr =>
          simp only [hcurr, Symbols.lastText] at hstep
          split at hstep
          · rename_i hmerge
            split at hstep
            · cases hstep
            · cases hstep
              simp [hmerge]
          · rename_i hmerge
            cases hstep
            simp [hmerge]

theorem succeeds_parseToken_iff {errors : List ErrorText} (hfit : errors.length ≤ maxErrors) :
    Succeeds (parseToken host (st, errors) token) ↔
      Attachable st token ∧ errors.length + tokenErrors host st token ≤ maxErrors := by
  unfold parseToken
  rw [succeeds_bind_iff]
  constructor
  · rintro ⟨⟨next, new⟩, hstep, hadd⟩
    obtain ⟨errors', hadd, -⟩ := succeeds_bind_iff.mp hadd
    have hlen := ((addErrors_ok_iff hfit).mp hadd).1
    rw [length_parseStep hstep] at hlen
    exact ⟨succeeds_parseStep_iff.mp ⟨_, hstep⟩, hlen⟩
  · rintro ⟨hattach, hlen⟩
    obtain ⟨⟨next, new⟩, hstep⟩ := succeeds_parseStep_iff.mpr hattach
    rw [← length_parseStep hstep] at hlen
    refine ⟨_, hstep, succeeds_bind_iff.mpr ⟨errors ++ new, ?_, succeeds_ok _⟩⟩
    exact (addErrors_ok_iff hfit).mpr ⟨hlen, rfl⟩

/-- The table of errors is never overfull. -/
theorem length_errors_parseToken {errors errors' : List ErrorText}
    (hfit : errors.length ≤ maxErrors)
    (hstep : parseToken host (st, errors) token = .ok (st', errors')) :
    errors'.length ≤ maxErrors := by
  obtain ⟨⟨next, new⟩, -, hadd⟩ := bind_eq_ok_iff.mp hstep
  obtain ⟨errors'', hadd, heq⟩ := bind_eq_ok_iff.mp hadd
  cases heq
  obtain ⟨hlen, rfl⟩ := (addErrors_ok_iff hfit).mp hadd
  rwa [List.length_append]

end

/-- The symbols and the errors after some tokens. -/
def parsed (host : Host) (done : List (List UInt8)) : Except Fault (Symbols × List ErrorText) :=
  loop (parseToken host) ({}, []) done

/-- Every token can be put behind the symbols before it, and the table has room
for its errors. -/
def AllAttachable (host : Host) (list : List (List UInt8)) : Prop :=
  ∀ done token rest, list = done ++ token :: rest →
    ∀ st errors, parsed host done = .ok (st, errors) →
      Attachable st token ∧ errors.length + tokenErrors host st token ≤ maxErrors

theorem succeeds_parsed_iff {host : Host} {list : List (List UInt8)} :
    Succeeds (parsed host list) ↔ AllAttachable host list := by
  refine succeeds_loop_iff (P := fun done st => parsed host done = .ok st ∧
    st.2.length ≤ maxErrors) ?_ ?_ ?_
  · exact ⟨rfl, Nat.zero_le _⟩
  · rintro done token ⟨st, errors⟩ ⟨st', errors'⟩ ⟨hdone, hfit⟩ hstep
    exact ⟨loop_concat_ok_iff.mpr ⟨_, hdone, hstep⟩, length_errors_parseToken hfit hstep⟩
  · rintro done token ⟨st, errors⟩ ⟨hdone, hfit⟩
    rw [succeeds_parseToken_iff hfit]
    constructor
    · intro h st' errors' hdone'
      rw [hdone] at hdone'
      cases hdone'
      exact h
    · intro h
      exact h st errors hdone

/-- `parse` gets to the end of the text; where a token is too long, the table has
room for that error too. -/
def Readable (host : Host) (text : List UInt8) : Prop :=
  AllAttachable host (tokens text).1 ∧
    ((tokens text).2 = true → ∀ st errors, parsed host (tokens text).1 = .ok (st, errors) →
      errors.length < maxErrors)

theorem succeeds_parse_iff {host : Host} {text : List UInt8} :
    Succeeds (parse host text) ↔ Readable host text := by
  unfold parse Readable
  rw [succeeds_bind_iff, ← succeeds_parsed_iff]
  constructor
  · rintro ⟨⟨st, errors⟩, hloop, hend⟩
    refine ⟨⟨_, hloop⟩, fun hlong st' errors' hloop' => ?_⟩
    rw [parsed, hloop] at hloop'
    cases hloop'
    simp only [hlong, if_true] at hend
    obtain ⟨_, hadd, -⟩ := succeeds_bind_iff.mp hend
    exact (addError_ok_iff.mp hadd).1
  · rintro ⟨⟨⟨st, errors⟩, hloop⟩, hroom⟩
    refine ⟨_, hloop, ?_⟩
    by_cases hlong : (tokens text).2 = true
    · simp only [hlong, if_true]
      refine succeeds_bind_iff.mpr ⟨_, addError_ok_iff.mpr ⟨?_, rfl⟩, succeeds_ok _⟩
      exact hroom hlong st errors hloop
    · simp only [hlong, Bool.false_eq_true, if_false]
      exact succeeds_ok _

theorem length_errors_parse {host : Host} {text : List UInt8} {list : List Symbol}
    {errors : List ErrorText} (hparse : parse host text = .ok (list, errors)) :
    errors.length ≤ maxErrors := by
  obtain ⟨⟨st, before⟩, hloop, hend⟩ := bind_eq_ok_iff.mp hparse
  have hfit : before.length ≤ maxErrors :=
    loop_history (P := fun _ st => st.2.length ≤ maxErrors) (Nat.zero_le _)
      (fun _ _ _ _ hfit hstep => length_errors_parseToken hfit hstep) hloop
  simp only at hend
  split at hend
  · obtain ⟨after, hadd, heq⟩ := bind_eq_ok_iff.mp hend
    obtain ⟨hroom, rfl⟩ := addError_ok_iff.mp hadd
    cases heq
    rw [List.length_append]
    exact hroom
  · cases hend
    exact hfit

end Uperf
