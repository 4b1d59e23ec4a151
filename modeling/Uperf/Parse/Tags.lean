import Uperf.Parse.Attaching
import Uperf.Parse.Accepted

/-!
# Tags and accepted texts

A token is a tag or an attribute by what it begins with, and the texts in `tlist`
begin none of the others.  In a text that is accepted every symbol is known, and
then the tokens that do not begin with `=` are symbols of their own.
-/

namespace Uperf

open Lib

/-- The types of the tags. -/
def tagTypes : List TokenType :=
  [.profileStart, .profileEnd, .groupStart, .groupEnd, .txnStart, .txnEnd, .flowopStart, .xmlEnd]

/-! ## What a token begins with -/

section

variable {token rest : List UInt8}

/-- What the texts of the table have in common. -/
structure EntryText (entry : TokenType × String) : Prop where
  long : 2 ≤ (str entry.2).length
  head_ne : (str entry.2).head? ≠ some '>'.toUInt8
  head_of_tag : entry.1 ∈ tagTypes →
    (str entry.2).head? = some '<'.toUInt8 ∨ (str entry.2).head? = some '/'.toUInt8
  equals : '='.toUInt8 ∉ (str entry.2).dropLast

theorem EntryText.ne_nil {entry : TokenType × String} (h : EntryText entry) :
    str entry.2 ≠ [] :=
  List.ne_nil_of_length_pos (by have := h.long; omega)

theorem entryText_of_mem : ∀ entry ∈ tlist, EntryText entry := by
  have hall : ∀ entry ∈ tlist, 2 ≤ (str entry.2).length ∧
      (str entry.2).head? ≠ some '>'.toUInt8 ∧
      (entry.1 ∈ tagTypes →
        (str entry.2).head? = some '<'.toUInt8 ∨ (str entry.2).head? = some '/'.toUInt8) ∧
      '='.toUInt8 ∉ (str entry.2).dropLast := by
    decide +kernel
  intro entry hentry
  obtain ⟨hlong, hhead, htag, hequals⟩ := hall entry hentry
  exact ⟨hlong, hhead, htag, hequals⟩

theorem eq_of_prefix_tlist : ∀ entry ∈ tlist, ∀ entry' ∈ tlist,
    str entry.2 <+: str entry'.2 → entry = entry' := by
  decide +kernel

theorem tokenType_eq {entry : TokenType × String} (hentry : entry ∈ tlist)
    (hbegins : str entry.2 <+: token) : tokenType token = entry.1 := by
  unfold tokenType
  cases hfind : tlist.find? fun entry => (str entry.2).isPrefixOf token with
  | none =>
      have hnot := List.find?_eq_none.mp hfind entry hentry
      exact absurd (List.isPrefixOf_iff_prefix.mpr hbegins) hnot
  | some found =>
      have hfound : (str found.2).isPrefixOf token = true := by
        have hsome := List.find?_some hfind
        exact hsome
      rw [List.isPrefixOf_iff_prefix] at hfound
      have hmem := List.mem_of_find?_eq_some hfind
      obtain h | h := List.prefix_or_prefix_of_prefix hfound hbegins
      · rw [eq_of_prefix_tlist found hmem entry hentry h]
      · rw [eq_of_prefix_tlist entry hentry found hmem h]

/-- A token of a known type begins with a text of the table. -/
theorem exists_entry (hknown : tokenType token ≠ .error) :
    ∃ entry ∈ tlist, str entry.2 <+: token ∧ tokenType token = entry.1 := by
  unfold tokenType at hknown
  cases hfind : tlist.find? fun entry => (str entry.2).isPrefixOf token with
  | none => exact absurd (by rw [hfind]) hknown
  | some entry =>
      have hmem := List.mem_of_find?_eq_some hfind
      have hbegins : (str entry.2).isPrefixOf token = true := by
        have hsome := List.find?_some hfind
        exact hsome
      rw [List.isPrefixOf_iff_prefix] at hbegins
      exact ⟨entry, hmem, hbegins, tokenType_eq hmem hbegins⟩

/-- What follows does not change a known type. -/
theorem tokenType_append (hknown : tokenType token ≠ .error) (rest : List UInt8) :
    tokenType (token ++ rest) = tokenType token := by
  obtain ⟨entry, hentry, hbegins, htype⟩ := exists_entry hknown
  rw [htype]
  exact tokenType_eq hentry (hbegins.trans (List.prefix_append _ _))

/-- A token of one character is not known, nor is the empty one. -/
theorem tokenType_of_short (hshort : token.length ≤ 1) : tokenType token = .error := by
  by_contra hknown
  obtain ⟨entry, hentry, hbegins, -⟩ := exists_entry hknown
  have hlength := hbegins.length_le
  have hlong := (entryText_of_mem entry hentry).long
  omega

theorem tokenType_close (rest : List UInt8) : tokenType ('>'.toUInt8 :: rest) = .error := by
  by_contra hknown
  obtain ⟨entry, hentry, hbegins, -⟩ := exists_entry hknown
  have hentryText := entryText_of_mem entry hentry
  have hhead := hentryText.head_ne
  obtain ⟨tail, htail⟩ := hbegins
  rw [← List.head?_append_of_ne_nil _ hentryText.ne_nil, htail] at hhead
  exact hhead rfl

theorem tokenType_ne_error_of_tag (htag : tokenType token ∈ tagTypes) :
    tokenType token ≠ .error := by
  intro herror
  rw [herror] at htag
  exact absurd htag (by decide)

/-- What tags begin with. -/
theorem head?_of_tag (htag : tokenType token ∈ tagTypes) :
    token.head? = some '<'.toUInt8 ∨ token.head? = some '/'.toUInt8 := by
  obtain ⟨entry, hentry, ⟨tail, rfl⟩, htype⟩ := exists_entry (tokenType_ne_error_of_tag htag)
  have hentryText := entryText_of_mem entry hentry
  rw [List.head?_append_of_ne_nil _ hentryText.ne_nil]
  exact hentryText.head_of_tag (htype ▸ htag)

/-- A tag does not begin with `=`, and is not a `>`. -/
theorem ne_of_tag (htag : tokenType token ∈ tagTypes) :
    token.head? ≠ some '='.toUInt8 ∧ token ≠ str ">" := by
  have hhead := head?_of_tag htag
  constructor
  · intro hequals
    rw [hequals] at hhead
    revert hhead
    decide
  · rintro rfl
    revert hhead
    decide

end

/-! ## The symbol of a token -/

section

variable {host : Host} {s : Symbol} {token : List UInt8}

theorem afterEquals_eq_none_iff {s : List UInt8} :
    afterEquals s = none ↔ '='.toUInt8 ∉ s := by
  induction s with
  | nil => simp [afterEquals]
  | cons c s ih =>
      unfold afterEquals
      split
      · rename_i hc
        simp [hc]
      · rename_i hc
        rw [ih, List.mem_cons, not_or]
        exact (and_iff_right fun h => hc h.symm).symm

/-- The text of a symbol is all of its token where nothing is cut out. -/
theorem getSymbol_token {text : List UInt8} (horigin : (getSymbol host text).1.2 = .token) :
    (getSymbol host text).1.1 = text ∧ '='.toUInt8 ∉ text := by
  unfold getSymbol at horigin ⊢
  cases hvalue : afterEquals text with
  | none =>
      have hequals := afterEquals_eq_none_iff.mp hvalue
      rw [hvalue] at horigin
      simp only [Option.getD_none, Option.isSome_none, Bool.false_eq_true, if_false] at horigin ⊢
      split
      · rename_i hhead
        rw [if_pos hhead] at horigin
        cases hget : host.getenv text.tail with
        | none => exact ⟨rfl, hequals⟩
        | some tmp =>
            cases tmp with
            | nil => exact ⟨rfl, hequals⟩
            | cons c tmp =>
                rw [hget] at horigin
                cases horigin
      · exact ⟨rfl, hequals⟩
  | some value =>
      rw [hvalue] at horigin
      simp only [Option.getD_some, Option.isSome_some, if_true] at horigin
      split at horigin
      · cases hget : host.getenv value.tail with
        | none => rw [hget] at horigin; cases horigin
        | some tmp => cases tmp <;> rw [hget] at horigin <;> cases horigin
      · cases horigin

/-- A text that is all of its token has the type of that token, which is unknown where the
text has an `=`. -/
def Symbol.Typed (s : Symbol) : Prop :=
  s.origin = .token → s.type = tokenType s.text ∧ ('='.toUInt8 ∈ s.text → s.type = .error)

theorem freshSymbol_type (host : Host) (token : List UInt8) :
    (freshSymbol host token).1.type = tokenType token := by
  unfold freshSymbol
  split
  · rename_i htype
    exact htype.symm
  · rfl

/-- The symbol of a token that is known. -/
theorem freshSymbol_of_known (host : Host) (hknown : tokenType token ≠ .error) :
    freshSymbol host token =
      (⟨tokenType token, (getSymbol host token).1.1, (getSymbol host token).1.2⟩,
        (getSymbol host token).2) := by
  unfold freshSymbol
  split
  · rename_i htype
    exact absurd htype hknown
  · rfl

theorem freshSymbol_errors (host : Host) (hknown : tokenType token ≠ .error) :
    (freshSymbol host token).2 = (getSymbol host token).2 := by
  rw [freshSymbol_of_known host hknown]

theorem typed_freshSymbol (host : Host) (token : List UInt8) :
    (freshSymbol host token).1.Typed := by
  unfold freshSymbol
  split
  · rename_i htype
    exact fun _ => ⟨htype.symm, fun _ => rfl⟩
  · intro horigin
    obtain ⟨htext, hequals⟩ := getSymbol_token horigin
    refine ⟨congrArg tokenType htext.symm, fun hmem => absurd ?_ hequals⟩
    exact htext ▸ hmem

theorem typed_mergedSymbol (host : Host) (s : Symbol) (token : List UInt8) :
    (mergedSymbol host s token).1.Typed := by
  intro horigin
  obtain ⟨htext, hequals⟩ := getSymbol_token horigin
  refine ⟨?_, fun hmem => absurd ?_ hequals⟩
  · exact congrArg tokenType htext.symm
  · exact htext ▸ hmem

/-- What a token other than one that begins with `=` goes on with. -/
theorem merges_iff (hhead : token.head? ≠ some '='.toUInt8) {text : List UInt8} :
    merges text token = true ↔
      text.getLast? = some '='.toUInt8 ∨ text = str "</" ∨ text = str "<" := by
  simp [merges, hhead, or_assoc]

/-- A known symbol is merged only with a token that begins with `=`. -/
theorem Symbol.Typed.head?_of_merges (hs : s.Typed) (horigin : s.origin = .token)
    (hknown : s.type ≠ .error) (hmerge : merges s.text token = true) :
    token.head? = some '='.toUInt8 := by
  obtain ⟨htype, hequals⟩ := hs horigin
  by_contra hhead
  have hslash : tokenType (str "</") = .error := rfl
  have hopen : tokenType (str "<") = .error := rfl
  obtain hlast | htext | htext := (merges_iff hhead).mp hmerge
  · exact hknown (hequals (List.mem_of_getLast? hlast))
  · exact hknown (by rw [htype, htext, hslash])
  · exact hknown (by rw [htype, htext, hopen])

/-- What can be merged begins no tag. -/
theorem not_prefix_tag : ∀ opener ∈ [str "</", str "<"], ∀ entry ∈ tlist, ∀ tag ∈ tlist,
    tag.1 ∈ tagTypes →
      ¬ str entry.2 <+: opener ++ str tag.2 ∧ ¬ opener ++ str tag.2 <+: str entry.2 := by
  decide +kernel

/-- A tag that goes on with a symbol makes an unknown one. -/
theorem Symbol.Typed.mergedSymbol_tag (hs : s.Typed) (horigin : s.origin = .token)
    (htag : tokenType token ∈ tagTypes) (hmerge : merges s.text token = true) :
    (mergedSymbol host s token).1.type = .error := by
  by_contra hknown
  obtain ⟨entry, hentry, hsym, -⟩ := exists_entry hknown
  have hbegins : str entry.2 <+: s.text ++ token := hsym.trans (List.take_prefix _ _)
  rw [merges_iff (ne_of_tag htag).1] at hmerge
  obtain hlast | hopen := hmerge
  · obtain ⟨htype, hequals⟩ := hs horigin
    have hmem := List.mem_of_getLast? hlast
    have hunknown : ¬ str entry.2 <+: s.text := by
      intro h
      have hall : ∀ entry ∈ tlist, entry.1 ≠ .error := by decide
      rw [tokenType_eq hentry h, hequals hmem] at htype
      exact hall entry hentry htype.symm
    obtain h | ⟨tail, htail⟩ :=
      List.prefix_or_prefix_of_prefix hbegins (List.prefix_append s.text token)
    · exact hunknown h
    · -- an `=` can only be the last character of a text of the table
      have hall : ∀ entry ∈ tlist, '='.toUInt8 ∉ (str entry.2).dropLast :=
        fun entry hentry => (entryText_of_mem entry hentry).equals
      cases tail with
      | nil =>
          rw [List.append_nil] at htail
          exact hunknown (htail ▸ List.prefix_rfl)
      | cons c tail =>
          apply hall entry hentry
          rw [← htail, List.dropLast_append_of_ne_nil (List.cons_ne_nil c tail)]
          exact List.mem_append_left _ hmem
  · obtain ⟨tag, htagmem, htoken, heq⟩ := exists_entry (tokenType_ne_error_of_tag htag)
    have hopener : s.text ∈ [str "</", str "<"] := by simpa using hopen
    obtain ⟨hfirst, hsecond⟩ :=
      not_prefix_tag s.text hopener entry hentry tag htagmem (heq ▸ htag)
    obtain h | h := List.prefix_or_prefix_of_prefix hbegins
      ((List.prefix_append_right_inj s.text).mpr htoken)
    · exact hfirst h
    · exact hsecond h

end

/-! ## Accepted texts -/

section

variable {host : Host} {st st' : Symbols} {ts : List (List UInt8)} {token : List UInt8}
  {new : List ErrorText} {text : List UInt8} {w : Workorder}

/-- What a caller of `parse_app_profile` sees. -/
def outcome (host : Host) (file : List UInt8) : Except Fault (Option Workorder) :=
  (parseAppProfile host file).map Prod.fst

/-- The tokens are made into symbols and these into a work order, without an error. -/
def Accepts (host : Host) (ts : List (List UInt8)) (w : Workorder) : Prop :=
  ∃ st b, attach host {} ts = .ok (st, []) ∧ run cleanStep {} (visits host st.list) = some b ∧
    w = b.workorder

theorem attachScan_ok_nil_iff {tooLong : Bool} :
    attachScan host st (ts, tooLong) = .ok (st', []) ↔
      tooLong = false ∧ attach host st ts = .ok (st', []) := by
  rw [attachScan_ok_iff]
  constructor
  · rintro ⟨new, hattach, heq⟩
    cases tooLong with
    | false => exact ⟨rfl, heq ▸ hattach⟩
    | true => simp at heq
  · rintro ⟨rfl, hattach⟩
    exact ⟨[], hattach, rfl⟩

theorem attach_append_ok_nil_iff {later : List (List UInt8)} :
    attach host st (ts ++ later) = .ok (st', []) ↔
      ∃ mid, attach host st ts = .ok (mid, []) ∧ attach host mid later = .ok (st', []) := by
  rw [attach_append_ok_iff]
  constructor
  · rintro ⟨mid, new, rest, hfirst, hsecond, heq⟩
    obtain ⟨rfl, rfl⟩ := List.append_eq_nil_iff.mp heq.symm
    exact ⟨mid, hfirst, hsecond⟩
  · rintro ⟨mid, hfirst, hsecond⟩
    exact ⟨mid, [], [], hfirst, hsecond, rfl⟩

theorem attach_singleton_ok_iff :
    attach host st [token] = .ok (st', new) ↔ parseStep host st token = .ok (st', new) := by
  rw [attach_cons_ok_iff]
  constructor
  · rintro ⟨mid, first, later, hstep, hrest, rfl⟩
    cases hrest
    rwa [List.append_nil]
  · intro hstep
    exact ⟨st', new, [], hstep, rfl, (List.append_nil _).symm⟩

/-- The tokens of a text that are looked at, and whether one was too long. -/
def significant (text : List UInt8) : List (List UInt8) × Bool :=
  ((tokens text).1.filter (· ≠ str ">"), (tokens text).2)

theorem loop_parseToken_filter (st : Symbols × List ErrorText) (ts : List (List UInt8)) :
    loop (parseToken host) st (ts.filter (· ≠ str ">")) = loop (parseToken host) st ts := by
  induction ts generalizing st with
  | nil => rfl
  | cons token ts ih =>
      by_cases hclose : token = str ">"
      · have hstep : parseToken host st token = .ok st := by
          rw [hclose, parseToken, parseStep_close]
          rfl
        rw [List.filter_cons_of_neg (by simpa using hclose), ih, loop_cons_ok hstep]
      · rw [List.filter_cons_of_pos (by simpa using hclose), loop, loop]
        exact congrArg _ (funext ih)

/-- `parse` makes the same of texts with the same significant tokens. -/
theorem parse_congr {text' : List UInt8} (hsame : significant text' = significant text) :
    parse host text' = parse host text := by
  simp only [significant, Prod.mk.injEq] at hsame
  unfold parse
  rw [← loop_parseToken_filter, hsame.1, hsame.2, loop_parseToken_filter]

theorem attach_filter (st : Symbols) (ts : List (List UInt8)) :
    attach host st (ts.filter (· ≠ str ">")) = attach host st ts := by
  induction ts generalizing st with
  | nil => rfl
  | cons token ts ih =>
      by_cases hclose : token = str ">"
      · rw [List.filter_cons_of_neg (by simpa using hclose), ih, hclose, attach, parseStep_close]
        simp only [Except.bind]
        cases attach host st ts <;> rfl
      · rw [List.filter_cons_of_pos (by simpa using hclose), attach, attach]
        simp only [ih]

theorem accepts_filter_iff :
    Accepts host (ts.filter (· ≠ str ">")) w ↔ Accepts host ts w := by
  unfold Accepts
  rw [attach_filter]

/-- A file is accepted exactly if no token of it is too long and its tokens are. -/
theorem outcome_eq_some_iff {file : List UInt8} :
    outcome host file = .ok (some w) ↔ file ≠ [] ∧ (significant (profileText file)).2 = false ∧
      Accepts host (significant (profileText file)).1 w := by
  have hmap : outcome host file = .ok (some w) ↔
      ∃ errors, parseAppProfile host file = .ok (some w, errors) := by
    unfold outcome
    cases hparse : parseAppProfile host file with
    | error fault => simp [Except.map]
    | ok result =>
        obtain ⟨found, errors⟩ := result
        simp [Except.map]
  rw [hmap, significant, accepts_filter_iff]
  by_cases hfile : file = []
  · subst hfile
    simp [parseAppProfile]
  simp only [parseAppProfile_eq_some_iff hfile, parse_ok_iff]
  constructor
  · rintro ⟨errors, rfl, list, b, ⟨st, hscan, rfl, -⟩, hrun, rfl⟩
    obtain ⟨htooLong, hattach⟩ := attachScan_ok_nil_iff.mp hscan
    exact ⟨hfile, htooLong, st, b, hattach, hrun, rfl⟩
  · rintro ⟨-, htooLong, st, b, hattach, hrun, rfl⟩
    refine ⟨[], rfl, st.list, b, ⟨st, ?_, rfl, Nat.zero_le _⟩, hrun, rfl⟩
    exact attachScan_ok_nil_iff.mpr ⟨htooLong, hattach⟩

/-- Files with the same significant tokens have the same outcome. -/
theorem outcome_congr {file file' : List UInt8} (hfile : file ≠ []) (hfile' : file' ≠ [])
    (hsame : significant (profileText file') = significant (profileText file)) :
    outcome host file' = outcome host file := by
  unfold outcome parseAppProfile
  rw [if_neg hfile, if_neg hfile', parse_congr hsame]

/-- Where one of two files is accepted they have the same outcome exactly if both are
accepted with one work order. -/
theorem outcome_eq_iff {file file' : List UInt8}
    (hone : ∃ w, outcome host file = .ok (some w) ∨ outcome host file' = .ok (some w)) :
    outcome host file = outcome host file' ↔
      ∃ w, outcome host file = .ok (some w) ∧ outcome host file' = .ok (some w) := by
  constructor
  · intro hsame
    obtain ⟨w, h | h⟩ := hone
    · exact ⟨w, h, hsame ▸ h⟩
    · exact ⟨w, hsame ▸ h, h⟩
  · rintro ⟨w, h, h'⟩
    rw [h, h']

/-- In a text that is accepted every symbol is known. -/
theorem known_of_run {b b' : Builder} {list : List Symbol}
    (hrun : run cleanStep b (visits host list) = some b') : ∀ s ∈ list, s.type ≠ .error := by
  induction list generalizing host b with
  | nil => exact fun _ => nofun
  | cons s rest ih =>
      obtain ⟨mid, hstep, hrest⟩ := run_cons.mp hrun
      refine List.forall_mem_cons.mpr ⟨fun herror => ?_, ih hrest⟩
      rw [cleanStep_eq_some_iff, buildStep, Symbol.type_visit, herror] at hstep
      exact absurd hstep reject_ne

/-- Of a tag only the type is looked at. -/
theorem buildStep_tag {b : Builder} {s s' : Visit} (htag : s.type ∈ tagTypes)
    (htype : s'.type = s.type) : buildStep b s' = buildStep b s := by
  unfold buildStep
  rw [htype]
  cases hs : s.type with
  | profileStart | profileEnd | groupStart | groupEnd | txnStart | txnEnd | flowopStart | xmlEnd =>
      rfl
  | _ => simp [hs, tagTypes] at htag

theorem cleanStep_tag {b : Builder} {s s' : Visit} (htag : s.type ∈ tagTypes)
    (htype : s'.type = s.type) : cleanStep b s' = cleanStep b s := by
  unfold cleanStep
  rw [buildStep_tag htag htype]

/-- A tag leaves the environment as it is. -/
theorem after_tag {s : Symbol} (htag : s.type ∈ tagTypes) (host : Host) :
    (s.visit host).after = host := by
  apply Visit.after_of_ne
  rintro hoptions
  rw [Symbol.type_visit] at hoptions
  rw [hoptions] at htag
  exact absurd htag (by decide)

/-- The last of the symbols is as `Typed` says. -/
theorem typed_of_attach (hattach : attach host st ts = .ok (st', new))
    (hst : ∀ s ∈ st.curr, s.Typed) : ∀ s ∈ st'.curr, s.Typed := by
  induction ts generalizing st new with
  | nil =>
      cases hattach
      exact hst
  | cons token ts ih =>
      obtain ⟨mid, first, later, hstep, hrest, -⟩ := attach_cons_ok_iff.mp hattach
      cases parseStep_cases hstep with
      | close => exact ih hrest hst
      | fresh =>
          apply ih hrest
          rintro s ⟨⟩
          exact typed_freshSymbol host token
      | merged curr =>
          apply ih hrest
          rintro s ⟨⟩
          exact typed_mergedSymbol host curr token

/-- Symbols with a closed text stay where no token that begins with `=` is next. -/
theorem list_prefix_of_settled (hst : st.Settled)
    (hnext : ∀ token ∈ ts.head?, token ≠ str ">" ∧ token.head? ≠ some '='.toUInt8)
    (hattach : attach host st ts = .ok (st', new)) : st.list <+: st'.list := by
  cases ts with
  | nil =>
      cases hattach
      exact List.prefix_rfl
  | cons token ts =>
      obtain ⟨hclose, hhead⟩ := hnext token rfl
      obtain ⟨mid, first, later, hstep, hrest, -⟩ := attach_cons_ok_iff.mp hattach
      rw [parseStep_fresh hst hclose hhead] at hstep
      cases hstep
      exact earlier_prefix_of_attach hrest

/-- What a token makes behind known symbols is unknown if the token is. -/
theorem Accepts.not_concat (h : Accepts host ts w) (hclose : token ≠ str ">")
    (hhead : token.head? ≠ some '='.toUInt8) (hunknown : tokenType token = .error)
    (w' : Workorder) : ¬ Accepts host (ts ++ [token]) w' := by
  rintro ⟨st', b', hattach', hrun', -⟩
  obtain ⟨st, b, hattach, hrun, -⟩ := h
  obtain ⟨mid, hfirst, hlast⟩ := attach_append_ok_nil_iff.mp hattach'
  cases hattach.symm.trans hfirst
  obtain ⟨new, hnew, hstep⟩ : ∃ new, new = [] ∧ parseStep host st token = .ok (st', new) :=
    ⟨[], rfl, attach_singleton_ok_iff.mp hlast⟩
  have htyped : ∀ s ∈ st.curr, s.Typed := typed_of_attach hattach nofun
  cases parseStep_cases hstep with
  | close heq => exact hclose heq
  | fresh =>
      apply known_of_run hrun' (freshSymbol host token).1
      · simp [Symbols.list]
      · rw [freshSymbol_type, hunknown]
  | merged curr _ hcurr horigin hmerge =>
      have hknown := known_of_run hrun curr (by simp [Symbols.list, hcurr])
      exact hhead ((htyped curr hcurr).head?_of_merges horigin hknown hmerge)

/-- A symbol with a tag merged to it has a closed text, if that was not cut out of a token. -/
theorem closed_mergedSymbol {s : Symbol} (htag : tokenType token ∈ tagTypes)
    (hmerge : merges s.text token = true)
    (horigin : (mergedSymbol host s token).1.origin = .token) :
    Closed (mergedSymbol host s token).1.text := by
  obtain ⟨htext, hequals⟩ := getSymbol_token horigin
  have hlength : 3 ≤ ((s.text ++ token).take (symbolSize - 1)).length := by
    have hsize : symbolSize = 1024 := rfl
    have htoken : 2 ≤ token.length := by
      by_contra hshort
      exact tokenType_ne_error_of_tag htag (tokenType_of_short (by omega))
    have hne : s.text ≠ [] := by
      rintro hnil
      rw [hnil, merges_iff (ne_of_tag htag).1] at hmerge
      revert hmerge
      decide
    have hpos := List.length_pos_iff.mpr hne
    rw [List.length_take, List.length_append]
    omega
  have hsame : (mergedSymbol host s token).1.text = (s.text ++ token).take (symbolSize - 1) :=
    htext
  rw [hsame]
  constructor
  · intro hnil
    rw [hnil] at hlength
    exact absurd hlength (by decide)
  · exact fun hlast => hequals (List.mem_of_getLast? hlast)
  · intro hopen
    rw [hopen] at hlength
    exact absurd hlength (by decide)
  · intro hslash
    rw [hslash] at hlength
    exact absurd hlength (by decide)

/-- In an accepted text a tag is a symbol of its own. -/
theorem settled_of_tag {mid : Symbols} {first later : List ErrorText}
    (htag : tokenType token ∈ tagTypes) (hst : ∀ s ∈ st.curr, s.Typed)
    (hstep : parseStep host st token = .ok (mid, first))
    (hnext : ∀ token ∈ ts.head?, token ≠ str ">" ∧ token.head? ≠ some '='.toUInt8)
    (hattach : attach host mid ts = .ok (st', later)) (hknown : ∀ s ∈ st'.list, s.type ≠ .error) :
    st.Settled := by
  cases parseStep_cases hstep with
  | close hclose => exact absurd hclose (ne_of_tag htag).2
  | fresh _ hlast hmerge =>
      have hhead := (ne_of_tag htag).1
      rw [← Bool.not_eq_true, merges_iff hhead, not_or, not_or] at hmerge
      exact ⟨hlast, hmerge.1, hmerge.2.2, hmerge.2.1⟩
  | merged curr _ hcurr horigin hmerge =>
      exfalso
      have herror : (mergedSymbol host curr token).1.type = .error :=
        (hst curr hcurr).mergedSymbol_tag horigin htag hmerge
      -- the unknown symbol stays
      have hbegins : Symbols.list { st with curr := some (mergedSymbol host curr token).1 } <+:
          st'.list := by
        by_cases hcut : (mergedSymbol host curr token).1.origin = .token
        · exact list_prefix_of_settled (closed_mergedSymbol htag hmerge hcut) hnext hattach
        · exact list_prefix_of_attach rfl hcut hattach
      refine hknown _ (hbegins.subset ?_) herror
      simp [Symbols.list]

end

end Uperf
