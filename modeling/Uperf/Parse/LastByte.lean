import Uperf.Parse.Endings
import Uperf.Parse.Tags

/-!
# The last byte of a file

`parse_app_profile` reads a file into a buffer of the same size and puts the
terminator over the last byte.  A file that ends with a separator loses nothing by
it.  Where the last byte belongs to a tag, what is left has to be a tag of the same
type, or the profile is accepted with the newline behind it only.
-/

namespace Uperf

open Lib

/-- The newline. -/
def newline : UInt8 := 10

/-- The token is that of a tag, and names no variable that is not set. -/
def IsTag (host : Host) (token : List UInt8) : Prop :=
  tokenType token ∈ tagTypes ∧ (getSymbol host token).2 = []

/-- The last token of the text is that of a tag, if there is one. -/
def EndsInTag (host : Host) (text : List UInt8) : Prop :=
  ∀ token ∈ (significant text).1.getLast?, IsTag host token

/-- The file has the same tokens with a newline behind it, but for the last ones, which may
be two tags of one type. -/
def EndsAlike (host : Host) (file : List UInt8) : Prop :=
  file ≠ [] ∧
    (significant (profileText (file ++ [newline])) = significant (profileText file) ∨
      ∃ before a b, significant (profileText file) = (before ++ [a], false) ∧
        significant (profileText (file ++ [newline])) = (before ++ [b], false) ∧
        IsTag host a ∧ IsTag host b ∧ tokenType b = tokenType a)

/-- With a newline behind it the text in the buffer has at most one more character. -/
theorem profileText_newline (file : List UInt8) :
    profileText (file ++ [newline]) = profileText file ∨
      ∃ c, profileText (file ++ [newline]) = profileText file ++ [c] := by
  unfold profileText
  rw [List.dropLast_concat]
  obtain rfl | ⟨start, c, rfl⟩ := List.eq_nil_or_concat' file
  · exact Or.inl rfl
  · rw [List.dropLast_concat, List.takeWhile_append]
    split
    · rename_i hall
      have hstart : start.takeWhile (· ≠ 0) = start :=
        (List.takeWhile_prefix _).eq_of_length hall
      rw [hstart]
      by_cases hc : c = 0
      · exact Or.inl (by simp [hc])
      · exact Or.inr ⟨c, by simp [hc]⟩
    · exact Or.inl rfl

theorem grown_newline (file : List UInt8) :
    Grown (tokens (profileText file)) (tokens (profileText (file ++ [newline]))) := by
  obtain h | ⟨c, h⟩ := profileText_newline file
  · rw [h]
    exact .same _
  · rw [h]
    exact grown_tokens _ c

section

variable {host : Host} {ts : List (List UInt8)} {a b : List UInt8} {w w' : Workorder}

/-- Before a tag at the end of an accepted text the symbols are settled. -/
theorem Accepts.settled_of_isTag (h : Accepts host (ts ++ [a]) w) (ha : IsTag host a) :
    ∃ mid, attach host {} ts = .ok (mid, []) ∧ mid.Settled := by
  obtain ⟨st, b, hattach, hrun, -⟩ := h
  obtain ⟨mid, hmid, hlast⟩ := attach_append_ok_nil_iff.mp hattach
  have hstep := attach_singleton_ok_iff.mp hlast
  have htyped : ∀ s ∈ mid.curr, s.Typed := typed_of_attach hmid nofun
  have hnone : attach host st [] = .ok (st, []) := rfl
  have hnext : ∀ token ∈ ([] : List (List UInt8)).head?,
      token ≠ str ">" ∧ token.head? ≠ some '='.toUInt8 := nofun
  exact ⟨mid, hmid, settled_of_tag ha.1 htyped hstep hnext hnone (known_of_run hrun)⟩

/-- Behind settled symbols the last token is known by itself. -/
theorem Accepts.known_of_settled {mid : Symbols} (h : Accepts host (ts ++ [b]) w)
    (hmid : attach host {} ts = .ok (mid, [])) (hsettled : mid.Settled) (hclose : b ≠ str ">")
    (hhead : b.head? ≠ some '='.toUInt8) :
    tokenType b ≠ .error ∧ (getSymbol host b).2 = [] := by
  obtain ⟨st, _, hattach, hrun, -⟩ := h
  obtain ⟨mid', hmid', hlast⟩ := attach_append_ok_nil_iff.mp hattach
  cases hmid.symm.trans hmid'
  rw [attach_singleton_ok_iff, parseStep_fresh hsettled hclose hhead, Except.ok.injEq,
    Prod.mk.injEq] at hlast
  obtain ⟨rfl, hnil⟩ := hlast
  have hknown := known_of_run hrun (freshSymbol host b).1 (by simp [Symbols.list])
  rw [freshSymbol_type] at hknown
  rw [freshSymbol_errors host hknown] at hnil
  exact ⟨hknown, hnil⟩

/-- A tag at the end of an accepted text may be any other of its type. -/
theorem Accepts.concat_tag (h : Accepts host (ts ++ [a]) w) (ha : IsTag host a)
    (hb : IsTag host b) (htype : tokenType b = tokenType a) : Accepts host (ts ++ [b]) w := by
  obtain ⟨mid, hmid, hsettled⟩ := h.settled_of_isTag ha
  obtain ⟨st, end', hattach, hrun, rfl⟩ := h
  obtain ⟨mid', hmid', hlast⟩ := attach_append_ok_nil_iff.mp hattach
  cases hmid.symm.trans hmid'
  obtain ⟨hheada, hclosea⟩ := ne_of_tag ha.1
  obtain ⟨hheadb, hcloseb⟩ := ne_of_tag hb.1
  rw [attach_singleton_ok_iff, parseStep_fresh hsettled hclosea hheada, Except.ok.injEq,
    Prod.mk.injEq] at hlast
  obtain ⟨rfl, -⟩ := hlast
  have hnil : (freshSymbol host b).2 = [] := by
    rw [freshSymbol_errors host (tokenType_ne_error_of_tag hb.1), hb.2]
  refine ⟨{ earlier := mid.list, curr := some (freshSymbol host b).1 }, end', ?_, ?_, rfl⟩
  · refine attach_append_ok_nil_iff.mpr ⟨mid, hmid, attach_singleton_ok_iff.mpr ?_⟩
    rw [parseStep_fresh hsettled hcloseb hheadb, hnil]
  · have hlist : ∀ s : Symbol,
        Symbols.list { earlier := mid.list, curr := some s } = mid.list ++ [s] := fun _ => rfl
    rw [hlist, visits_append, run_append] at hrun ⊢
    obtain ⟨before, hbefore, hstep⟩ := Option.bind_eq_some_iff.mp hrun
    rw [hbefore, Option.bind_some]
    obtain ⟨last, hlast, hnone⟩ := run_cons.mp hstep
    refine run_cons.mpr ⟨last, ?_, hnone⟩
    have hsame : (freshSymbol host b).1.type = (freshSymbol host a).1.type := by
      rw [freshSymbol_type, freshSymbol_type, htype]
    have htag : ((freshSymbol host a).1.visit (behind host mid.list)).type ∈ tagTypes := by
      rw [Symbol.type_visit, freshSymbol_type]
      exact ha.1
    rw [← hlast]
    exact cleanStep_tag htag hsame

/-- The significant tokens of a text with one more token. -/
theorem filter_concat (ts : List (List UInt8)) (hclose : a ≠ str ">") :
    (ts ++ [a]).filter (· ≠ str ">") = ts.filter (· ≠ str ">") ++ [a] := by
  rw [List.filter_append, List.filter_cons_of_pos (by simpa using hclose), List.filter_nil]

theorem filter_concat_close (ts : List (List UInt8)) :
    (ts ++ [str ">"]).filter (· ≠ str ">") = ts.filter (· ≠ str ">") := by
  rw [List.filter_append, List.filter_cons_of_neg (by simp), List.filter_nil, List.append_nil]

theorem isTag_of_filter_concat {tooLong : Bool} {text : List UInt8}
    (hend : EndsInTag host text) (htext : tokens text = (ts ++ [a], tooLong))
    (hclose : a ≠ str ">") : IsTag host a := by
  apply hend
  rw [significant, htext, filter_concat ts hclose]
  simp

/-- If a text that ends in a tag is accepted with and without its last character, its tokens
end alike. -/
theorem end_of_accepts {text text' : List UInt8} (hgrown : Grown (tokens text) (tokens text'))
    (htooLong : (significant text').2 = false) (h : Accepts host (significant text).1 w)
    (h' : Accepts host (significant text').1 w') (hend : EndsInTag host text') :
    significant text' = significant text ∨
      ∃ before a b, significant text = (before ++ [a], false) ∧
        significant text' = (before ++ [b], false) ∧
        IsTag host a ∧ IsTag host b ∧ tokenType b = tokenType a := by
  rw [significant] at h h' htooLong ⊢
  rw [significant]
  generalize hold : tokens text = old at *
  generalize hnew : tokens text' = new at *
  cases hgrown with
  | same => exact Or.inl rfl
  | @fresh ts token hshort =>
      -- only a `>` is as short as the new token
      by_cases hclose : token = str ">"
      · left
        rw [hclose, filter_concat_close]
      · have htag := isTag_of_filter_concat hend hnew hclose
        exact absurd (tokenType_of_short hshort) (tokenType_ne_error_of_tag htag.1)
  | longer ts token d =>
      by_cases hclose : token ++ [d] = str ">"
      · -- then the token was empty, and is unknown behind known symbols
        have hnil : token = [] := by
          have hlength := congrArg List.length hclose
          have hone : (str ">").length = 1 := by decide
          rw [List.length_append, hone] at hlength
          exact List.length_eq_zero_iff.mp (by simpa using hlength)
        subst hnil
        rw [hclose, filter_concat_close] at h'
        rw [filter_concat ts (by decide)] at h
        exact absurd h
          (h'.not_concat (by decide) (by decide) (tokenType_of_short (Nat.zero_le _)) w)
      · have htag := isTag_of_filter_concat hend hnew hclose
        obtain ⟨c, tail, rfl⟩ : ∃ c tail, token = c :: tail := by
          apply List.exists_cons_of_ne_nil
          rintro rfl
          exact tokenType_ne_error_of_tag htag.1 (tokenType_of_short le_rfl)
        have hclose' : c :: tail ≠ str ">" := by
          intro heq
          rw [heq] at htag
          exact tokenType_ne_error_of_tag htag.1 (tokenType_close [d])
        have hhead : (c :: tail).head? ≠ some '='.toUInt8 := (ne_of_tag htag.1).1
        rw [filter_concat ts hclose] at h'
        rw [filter_concat ts hclose'] at h
        obtain ⟨mid, hmid, hsettled⟩ := h'.settled_of_isTag htag
        obtain ⟨hknown, hnil⟩ := h.known_of_settled hmid hsettled hclose' hhead
        have htype := tokenType_append hknown [d]
        have htag' : IsTag host (c :: tail) := ⟨htype ▸ htag.1, hnil⟩
        refine Or.inr ⟨ts.filter (· ≠ str ">"), c :: tail, c :: tail ++ [d], ?_, ?_, htag', htag,
          htype⟩
        · rw [filter_concat ts hclose']
        · rw [filter_concat ts hclose]
  | tooLong ts token => cases htooLong
  | @opened ts token hopen =>
      have hunknown : token ≠ str ">" ∧ token.head? ≠ some '='.toUInt8 ∧
          tokenType token = .error := by
        obtain rfl | rfl := hopen <;> decide +kernel
      obtain ⟨hclose, hhead, herror⟩ := hunknown
      rw [filter_concat ts hclose] at h
      exact absurd h (h'.not_concat hclose hhead herror w)

end

/-- A file has the same outcome with a newline behind it if its tokens are the same.  Where
it ends in a tag and is accepted with or without the newline, it has the same outcome
exactly if its tokens end alike. -/
theorem outcome_newline (host : Host) (file : List UInt8) :
    (file ≠ [] →
      significant (profileText (file ++ [newline])) = significant (profileText file) →
      outcome host file = outcome host (file ++ [newline])) ∧
    ((∃ w, outcome host file = .ok (some w) ∨ outcome host (file ++ [newline]) = .ok (some w)) →
      EndsInTag host (profileText (file ++ [newline])) →
      (outcome host file = outcome host (file ++ [newline]) ↔ EndsAlike host file)) := by
  have hne : file ++ [newline] ≠ [] := by simp
  constructor
  · intro hfile hsame
    exact outcome_congr hne hfile hsame.symm
  · intro hone hend
    rw [outcome_eq_iff hone]
    constructor
    · rintro ⟨w, h, h'⟩
      obtain ⟨hfile, -, haccepts⟩ := outcome_eq_some_iff.mp h
      obtain ⟨-, htooLong, haccepts'⟩ := outcome_eq_some_iff.mp h'
      exact ⟨hfile, end_of_accepts (grown_newline file) htooLong haccepts haccepts' hend⟩
    · rintro ⟨hfile, hsame | ⟨before, a, b, hold, hnew, ha, hb, htype⟩⟩
      · obtain ⟨w, h | h⟩ := hone
        · exact ⟨w, h, outcome_congr hne hfile hsame.symm ▸ h⟩
        · exact ⟨w, (outcome_congr hfile hne hsame).symm ▸ h, h⟩
      · obtain ⟨w, h | h⟩ := hone
        · refine ⟨w, h, outcome_eq_some_iff.mpr ⟨hne, by rw [hnew], ?_⟩⟩
          have haccepts := (outcome_eq_some_iff.mp h).2.2
          rw [hold] at haccepts
          rw [hnew]
          exact haccepts.concat_tag ha hb htype
        · refine ⟨w, outcome_eq_some_iff.mpr ⟨hfile, by rw [hold], ?_⟩, h⟩
          have haccepts := (outcome_eq_some_iff.mp h).2.2
          rw [hnew] at haccepts
          rw [hold]
          exact haccepts.concat_tag hb ha htype.symm

/-- A profile without groups. -/
def emptyProfile : List UInt8 := str "<profile> </profile>"

/-- With the newline the profile is accepted, and has another newline to spare. -/
theorem outcome_newline_empty :
    outcome bareHost (emptyProfile ++ [newline]) =
        outcome bareHost (emptyProfile ++ [newline] ++ [newline]) ∧
      EndsAlike bareHost (emptyProfile ++ [newline]) := by
  have haccepts : outcome bareHost (emptyProfile ++ [newline]) = .ok (some { grp := [] }) :=
    rfl
  have hend : EndsInTag bareHost (profileText (emptyProfile ++ [newline] ++ [newline])) := by
    intro token htoken
    have hlast : (significant (profileText (emptyProfile ++ [newline] ++ [newline]))).1.getLast? =
        some (str "</profile>") := rfl
    cases hlast.symm.trans (Option.mem_def.mp htoken)
    exact ⟨by decide +kernel, by decide +kernel⟩
  have hsame := (outcome_newline bareHost (emptyProfile ++ [newline])).1 (by decide +kernel)
    (by decide +kernel)
  exact ⟨hsame, ((outcome_newline bareHost _).2 ⟨{ grp := [] }, Or.inl haccepts⟩ hend).mp hsame⟩

/-- Without the newline the last tag is cut, and the profile is rejected. -/
theorem outcome_newline_cut :
    ¬ ∀ (host : Host) (file : List UInt8),
      outcome host file = outcome host (file ++ [newline]) := by
  intro h
  have hcut : outcome bareHost emptyProfile = .ok none := rfl
  have haccepts : outcome bareHost (emptyProfile ++ [newline]) = .ok (some { grp := [] }) :=
    rfl
  have hsame := h bareHost emptyProfile
  rw [hcut, haccepts] at hsame
  cases hsame

end Uperf
