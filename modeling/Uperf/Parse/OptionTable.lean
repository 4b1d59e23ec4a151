import Uperf.Parse.OptionsFit
import Uperf.Parse.Tokens

/-!
# The table of options

`flowop_parse_options` copies its words to a table of a hundred rows of a hundred
characters and hands the rows to `parse_option`.  Here is which words arrive there
as they were written.
-/

namespace Uperf

open Lib

/-- The words of the options that begin with a letter. -/
def letterWords (strOptions : List UInt8) : List (List UInt8) :=
  (strOptions.splitOnP isBlank).filter fun word => word.head?.any isAlpha

/-- What a row of the table keeps of a word: `strlcpy` leaves the last of its
hundred bytes for the terminator, as it does in a build with `HAVE_STRLCPY`. -/
def tableRow (word : List UInt8) : List UInt8 := word.take 99

/-- The words that are passed to `parse_option`, of those to be read: one that
faults is the last. -/
def passed : List (Host × List UInt8) → List (List UInt8)
  | [] => []
  | read :: rest =>
      match parseOption read.1 read.2 with
      | .error _ => [read.2]
      | .ok _ => read.2 :: passed rest

/-- The errors that are recorded for the words. -/
def recorded : List (Host × List UInt8) → List ErrorText
  | [] => []
  | read :: rest =>
      match parseOption read.1 read.2 with
      | .error _ => []
      | .ok set => set.errors ++ recorded rest

/-- Every word that begins with a letter is passed to `parse_option` once, as it is and in
order, or an error is recorded, and the table is not left. -/
structure PassesWords (host : Host) (strOptions : List UInt8) : Prop where
  stays : flowopParseOptions host strOptions ≠ .error .optionSlot
  passes : passed (readWords host (optionWords strOptions)) = letterWords strOptions ∨
    recorded (readWords host (optionWords strOptions)) ≠ []

/-- `parse_option` returns and adds an error. -/
def Refused (host : Host) (word : List UInt8) : Prop :=
  ∃ set, parseOption host word = .ok set ∧ set.errors ≠ []

variable {host : Host} {words : List (List UInt8)} {reads : List (Host × List UInt8)}
  {strOptions : List UInt8}

theorem optionWords_eq : optionWords strOptions = (letterWords strOptions).map tableRow := rfl

theorem length_optionWords : (optionWords strOptions).length = (letterWords strOptions).length :=
  List.length_map ..

/-! ## The calls of `parse_option` -/

/-- The words are read one by one. -/
theorem map_snd_readWords : (readWords host words).map Prod.snd = words := by
  induction words generalizing host with
  | nil => rfl
  | cons word rest ih => rw [readWords, List.map_cons, ih]

/-- A row that is read goes to the setting. -/
theorem optionStep_of_ok {set next : Setting} {read : Host × List UInt8}
    (hread : parseOption read.1 read.2 = .ok next) :
    optionStep set read = .ok (set.followedBy next) := by
  rw [optionStep, hread]
  rfl

/-- The loop over the rows calls `parse_option` for the words that are passed, and adds up
the errors that are recorded. -/
theorem loop_optionStep_cases (set : Setting) (reads : List (Host × List UInt8)) :
    match loop optionStep set reads with
    | .ok result => passed reads = reads.map Prod.snd ∧
        result.errors = set.errors ++ recorded reads
    | .error fault => ∃ read ∈ reads, parseOption read.1 read.2 = .error fault := by
  induction reads generalizing set with
  | nil => exact ⟨rfl, (List.append_nil _).symm⟩
  | cons read rest ih =>
      rw [passed, recorded]
      cases hread : parseOption read.1 read.2 with
      | error fault =>
          simp only [loop, optionStep, hread, Except.bind]
          exact ⟨read, List.mem_cons_self, hread⟩
      | ok next =>
          rw [loop_cons_ok (optionStep_of_ok hread)]
          -- the word is read, and the rest is read behind it
          have hrest := ih (set.followedBy next)
          split at hrest
          · obtain ⟨hpassed, herrors⟩ := hrest
            refine ⟨by simp only [hpassed, List.map_cons], ?_⟩
            rw [herrors]
            simp only [Setting.followedBy, List.append_assoc]
          · obtain ⟨last, hlast, hfault⟩ := hrest
            exact ⟨last, List.mem_cons_of_mem _ hlast, hfault⟩

theorem passed_prefix : passed reads <+: reads.map Prod.snd := by
  induction reads with
  | nil => exact List.prefix_rfl
  | cons read rest ih =>
      unfold passed
      split
      · exact ⟨rest.map Prod.snd, rfl⟩
      · exact List.cons_prefix_cons.mpr ⟨rfl, ih⟩

/-- All words are passed if `parse_option` returns for all but the last. -/
theorem passed_eq_iff :
    passed reads = reads.map Prod.snd ↔ ∀ read ∈ reads.dropLast, WordFits read.1 read.2 := by
  induction reads with
  | nil => simp [passed]
  | cons read rest ih =>
      by_cases hlast : rest = []
      · subst hlast
        refine iff_of_true ?_ (by simp)
        unfold passed
        split
        · rfl
        · rfl
      · rw [List.dropLast_cons_of_ne_nil hlast, List.forall_mem_cons, ← ih,
          ← succeeds_parseOption_iff, passed]
        cases hread : parseOption read.1 read.2 with
        | error fault => simpa using hlast
        | ok set => simp

/-- An error is recorded for the first word that is refused, if the words before it did
not end the program. -/
theorem recorded_ne_nil_iff :
    recorded reads ≠ [] ↔ ∃ before read after, reads = before ++ read :: after ∧
      (∀ earlier ∈ before, WordFits earlier.1 earlier.2) ∧ Refused read.1 read.2 := by
  induction reads with
  | nil => simp [recorded]
  | cons first rest ih =>
      unfold recorded
      cases hfirst : parseOption first.1 first.2 with
      | error fault =>
          -- nothing is recorded of a word that faults, or behind it
          have hfault : ¬ WordFits first.1 first.2 := by
            rw [← succeeds_parseOption_iff, hfirst]
            simp
          refine iff_of_false (by simp) ?_
          rintro ⟨before, read, after, hreads, hbefore, set, hset, -⟩
          cases before with
          | nil =>
              cases hreads
              rw [hfirst] at hset
              cases hset
          | cons earlier before =>
              cases hreads
              exact hfault (hbefore _ List.mem_cons_self)
      | ok set =>
          have hfits : WordFits first.1 first.2 := by
            rw [← succeeds_parseOption_iff, hfirst]
            exact succeeds_ok _
          simp only [ne_eq, List.append_eq_nil_iff, not_and_or]
          rw [← ne_eq, ← ne_eq, ih]
          -- the error is of this word or of a later one
          constructor
          · rintro (hrefused | ⟨before, read, after, rfl, hbefore, hread⟩)
            · exact ⟨[], first, rest, rfl, by simp, set, hfirst, hrefused⟩
            · exact ⟨first :: before, read, after, rfl,
                List.forall_mem_cons.mpr ⟨hfits, hbefore⟩, hread⟩
          · rintro ⟨before, read, after, hreads, hbefore, hread⟩
            cases before with
            | nil =>
                cases hreads
                obtain ⟨set', hset, hrefused⟩ := hread
                rw [hfirst] at hset
                cases hset
                exact Or.inl hrefused
            | cons earlier before =>
                cases hreads
                exact Or.inr ⟨before, read, after, rfl,
                  fun w hw => hbefore w (List.mem_cons_of_mem _ hw), hread⟩

/-! ## The table -/

theorem tableRow_eq_self_iff {word : List UInt8} : tableRow word = word ↔ word.length ≤ 99 :=
  List.take_eq_self_iff ..

/-- No branch of `parse_option` leaves the table. -/
theorem keyBranch_ne_optionSlot {key value : List UInt8} :
    keyBranch host key value ≠ .error .optionSlot := by
  intro herror
  unfold keyBranch at herror
  cases hfind : (optionBranches host).find? fun row => strcasecmpEq key (str row.1) with
  | none => simp [hfind] at herror
  | some row =>
      simp only [hfind] at herror
      obtain ⟨-, hplain⟩ | rfl | ⟨-, hrow⟩ := branch_cases row (List.mem_of_find?_eq_some hfind)
      · obtain ⟨set, hset⟩ := hplain value
        rw [hset] at herror
        cases herror
      · simp only [dirBranch] at herror
        split at herror <;> cases herror
      · simp only [sslBranches, List.mem_cons, List.not_mem_nil, or_false] at hrow
        obtain rfl | rfl | rfl := hrow
        · cases herror
        · simp only [strcpyBranch] at herror
          split at herror <;> cases herror
        · simp only [strcpyBranch] at herror
          split at herror <;> cases herror

theorem parseOption_ne_optionSlot {word : List UInt8} :
    parseOption host word ≠ .error .optionSlot := by
  unfold parseOption
  split
  · simp
  · exact keyBranch_ne_optionSlot

/-- The table is left if there are more words than rows. -/
theorem flowopParseOptions_optionSlot_iff :
    flowopParseOptions host strOptions = .error .optionSlot ↔
      maxOptions < (letterWords strOptions).length := by
  have hloop : ∀ (reads : List (Host × List UInt8)) (set : Setting),
      loop optionStep set reads ≠ .error .optionSlot := by
    intro reads set herror
    have hcases := loop_optionStep_cases set reads
    rw [herror] at hcases
    obtain ⟨read, -, hread⟩ := hcases
    exact parseOption_ne_optionSlot hread
  unfold flowopParseOptions
  rw [length_optionWords]
  split
  · rename_i hmany
    simp [hmany]
  · rename_i hfew
    exact iff_of_false (hloop _ _) hfew

/-- The words are passed as they are if none is longer than its row and only the last may
end the program. -/
theorem passed_optionWords_iff :
    passed (readWords host (optionWords strOptions)) = letterWords strOptions ↔
      (∀ word ∈ letterWords strOptions, word.length ≤ 99) ∧
        ∀ read ∈ (readWords host (letterWords strOptions)).dropLast,
          WordFits read.1 read.2 := by
  have hrows := @map_snd_readWords host (optionWords strOptions)
  constructor
  · intro hpassed
    -- as many words as rows are passed, so all rows are
    have hbegins : passed (readWords host (optionWords strOptions)) <+:
        (readWords host (optionWords strOptions)).map Prod.snd := passed_prefix
    have hall : passed (readWords host (optionWords strOptions)) =
        (readWords host (optionWords strOptions)).map Prod.snd := by
      apply hbegins.eq_of_length
      rw [hpassed, hrows, length_optionWords]
    have hsame : (letterWords strOptions).map tableRow = letterWords strOptions :=
      hrows.symm.trans (hall.symm.trans hpassed)
    refine ⟨fun word hword => ?_, ?_⟩
    · obtain ⟨i, hi, rfl⟩ := List.mem_iff_getElem.mp hword
      have hentry := List.getElem_of_eq hsame (by simpa using hi)
      rw [List.getElem_map] at hentry
      exact tableRow_eq_self_iff.mp hentry
    · rw [optionWords_eq, hsame] at hall
      exact passed_eq_iff.mp hall
  · rintro ⟨hshort, hfits⟩
    have hsame : optionWords strOptions = letterWords strOptions := by
      rw [optionWords_eq]
      calc (letterWords strOptions).map tableRow = (letterWords strOptions).map id :=
            List.map_congr_left fun word hword => tableRow_eq_self_iff.mpr (hshort word hword)
        _ = letterWords strOptions := List.map_id _
    rw [hsame]
    exact (passed_eq_iff.mpr hfits).trans map_snd_readWords

/-- The words arrive at `parse_option` as they are, or an error is recorded, and the table
is not left: there are no more words than rows, and either none is longer than its row
and only the last may end the program, or one of the rows is refused and none
before it ends the program. -/
theorem passesWords_iff :
    PassesWords host strOptions ↔ (letterWords strOptions).length ≤ maxOptions ∧
      (((∀ word ∈ letterWords strOptions, word.length ≤ 99) ∧
          ∀ read ∈ (readWords host (letterWords strOptions)).dropLast,
            WordFits read.1 read.2) ∨
        ∃ before read after, readWords host ((letterWords strOptions).map tableRow) =
            before ++ read :: after ∧
          (∀ earlier ∈ before, WordFits earlier.1 earlier.2) ∧ Refused read.1 read.2) := by
  rw [← passed_optionWords_iff, ← optionWords_eq, ← recorded_ne_nil_iff, ← not_lt,
    ← @flowopParseOptions_optionSlot_iff host strOptions]
  constructor
  · intro h
    exact ⟨h.stays, h.passes⟩
  · rintro ⟨hstays, hpasses⟩
    exact ⟨hstays, hpasses⟩

/-- A hundred and one options of one letter. -/
def manyOptions : List UInt8 := (List.replicate 101 [97, 32]).flatten

theorem not_passesWords_many :
    ¬ ∀ (host : Host) (strOptions : List UInt8), strOptions.length < symbolSize →
      PassesWords host strOptions := by
  intro h
  have hpasses := h bareHost manyOptions (by decide +kernel)
  refine hpasses.stays (flowopParseOptions_optionSlot_iff.mpr ?_)
  decide +kernel

end Uperf
