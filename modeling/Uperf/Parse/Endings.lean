import Uperf.Parse.Lexemes

/-!
# The end of a text

Every text is read piece by piece up to its end, which may lie in the middle of a
piece.  So one more character at the end of a text changes at most the last of its
tokens, or adds one, or makes the beginning of a comment of it.
-/

namespace Uperf

open Lib

/-! ## Up to the end -/

/-- The first place of a pattern in a list. -/
theorem exists_first_infix {α : Type*} {pattern list : List α} (hne : pattern ≠ [])
    (hwithin : pattern <:+: list) :
    ∃ before behind, list = before ++ (pattern ++ behind) ∧
      ¬ pattern <:+: before ++ pattern.dropLast := by
  induction list with
  | nil => exact absurd (List.infix_nil.mp hwithin) hne
  | cons a list ih =>
      by_cases hbegins : pattern <+: a :: list
      · obtain ⟨behind, hbehind⟩ := hbegins
        refine ⟨[], behind, hbehind.symm, fun h => ?_⟩
        have hle := h.length_le
        have hpos := List.length_pos_iff.mpr hne
        rw [List.nil_append, List.length_dropLast] at hle
        omega
      · have hrest : pattern <:+: list := by
          obtain h | h := List.infix_cons_iff.mp hwithin
          · exact absurd h hbegins
          · exact h
        obtain ⟨before, behind, rfl, hfirst⟩ := ih hrest
        refine ⟨a :: before, behind, rfl, fun h => ?_⟩
        rw [List.cons_append] at h
        obtain h | h := List.infix_cons_iff.mp h
        · apply hbegins
          have hall : a :: (before ++ pattern.dropLast) <+: a :: (before ++ (pattern ++ behind)) :=
            (List.prefix_cons_inj a).mpr ((List.prefix_append_right_inj before).mpr
              ((List.dropLast_prefix pattern).trans (List.prefix_append _ _)))
          exact h.trans hall
        · exact hfirst h

/-- The beginning of a piece, which the text does not end. -/
inductive Unended : List UInt8 → Prop
  | nil : Unended []
  | word {w : List UInt8} (hw : WordText w) (hne : w ≠ []) (hfits : w.length < symbolSize) :
      Unended w
  | quoted {w q : List UInt8} (hw : WordText w) (hq : quote ∉ q)
      (hfits : w.length + q.length < symbolSize) : Unended (w ++ quote :: q)
  | comment {s : List UInt8} (hopen : (str "<!--").isPrefixOf s = true)
      (hnone : ¬ str "-->" <:+: s) : Unended s
  | junk {s : List UInt8} (hopen : (str "<?").isPrefixOf s = true) (hnone : ¬ str "?>" <:+: s) :
      Unended s

/-- The characters before the first that is none of a word. -/
theorem exists_wordText {p : List UInt8} (hcomment : ¬ (str "<!--").isPrefixOf p = true)
    (hjunk : ¬ (str "<?").isPrefixOf p = true) :
    ∃ w rest, p = w ++ rest ∧ WordText w ∧ ∀ c ∈ rest.head?, wordChar c = false := by
  refine ⟨p.takeWhile wordChar, p.dropWhile wordChar, List.takeWhile_append_dropWhile.symm,
    ⟨fun c hc => List.mem_takeWhile_imp hc, ?_, ?_⟩, fun c hc => ?_⟩
  · rw [← Bool.not_eq_true]
    intro h
    rw [List.isPrefixOf_iff_prefix] at hcomment h
    exact hcomment (h.trans (List.takeWhile_prefix _))
  · rw [← Bool.not_eq_true]
    intro h
    rw [List.isPrefixOf_iff_prefix] at hjunk h
    exact hjunk (h.trans (List.takeWhile_prefix _))
  · have hhead := List.head?_dropWhile_not wordChar p
    rw [Option.mem_def.mp hc] at hhead
    simpa using hhead

/-- What opens a text lies before the end of what is closed in it. -/
theorem isPrefixOf_of_closed {opener close s behind : List UInt8}
    (hopen : opener.isPrefixOf (s ++ (close ++ behind)) = true)
    (hhead : ¬ opener.head? = close.head?) (hshort : opener.length ≤ close.length + 1)
    (hclose : close ≠ []) (hopener : opener ≠ []) : opener.isPrefixOf (s ++ close) = true := by
  rw [List.isPrefixOf_iff_prefix] at hopen ⊢
  have hne : s ≠ [] := by
    rintro rfl
    apply hhead
    obtain ⟨tail, htail⟩ := hopen
    rw [← List.head?_append_of_ne_nil _ hopener, htail, List.nil_append,
      List.head?_append_of_ne_nil _ hclose]
  have hpos := List.length_pos_iff.mpr hne
  rw [← List.append_assoc] at hopen
  apply List.prefix_of_prefix_length_le hopen (List.prefix_append _ _)
  rw [List.length_append]
  omega

/-- The text is read up to a piece that it does not end, or to a token that is too long. -/
def ReadThrough (p : List UInt8) : Prop :=
  ∃ done rest ts stopped, p = done ++ rest ∧ Lexed done ts stopped ∧
    (stopped = true ∨ Unended rest)

theorem Unended.readThrough {p : List UInt8} (h : Unended p) : ReadThrough p :=
  ⟨[], p, [], false, rfl, .nil, Or.inr h⟩

section

variable {w : List UInt8}

/-- A text with a word that a separator ends. -/
theorem ReadThrough.separator {c : UInt8} {later : List UInt8} (hw : WordText w)
    (hfits : w.length < symbolSize) (hc : isSeperator c = true) (hlater : ReadThrough later) :
    ReadThrough (w ++ c :: later) := by
  obtain ⟨done, rest, ts, stopped, rfl, hlexed, hrest⟩ := hlater
  by_cases hne : w = []
  · subst hne
    exact ⟨c :: done, rest, ts, stopped, rfl, .separator hc hlexed, hrest⟩
  · refine ⟨w ++ c :: done, rest, w.map tolower :: ts, stopped, by simp, ?_, hrest⟩
    exact .word hw hne hfits ⟨c, done, rfl, hc⟩ (.separator hc hlexed)

/-- A text with a quoted part, which is too long, or closed, or not. -/
theorem ReadThrough.quoted {behind : List UInt8} (hw : WordText w)
    (ih : ∀ later : List UInt8, later.length < behind.length → ReadThrough later) :
    ReadThrough (w ++ quote :: behind) := by
  obtain ⟨q, later, rfl, hq, hlater⟩ : ∃ q later, behind = q ++ later ∧ quote ∉ q ∧
      ∀ c ∈ later.head?, c = quote := by
    refine ⟨behind.takeWhile (· ≠ quote), behind.dropWhile (· ≠ quote),
      List.takeWhile_append_dropWhile.symm, fun hmem => ?_, fun c hc => ?_⟩
    · simpa using List.mem_takeWhile_imp hmem
    · have hhead := List.head?_dropWhile_not (· ≠ quote) behind
      rw [Option.mem_def.mp hc] at hhead
      simpa using hhead
  by_cases hlong : symbolSize ≤ w.length + q.length
  · exact ⟨w ++ quote :: (q ++ later), [], [], true, by simp, .longQuoted hw hq hlong, Or.inl rfl⟩
  rw [not_le] at hlong
  cases later with
  | nil =>
      rw [List.append_nil]
      exact (Unended.quoted hw hq hlong).readThrough
  | cons c later =>
      obtain rfl := hlater c rfl
      have hshorter : later.length < (q ++ quote :: later).length := by
        rw [List.length_append, List.length_cons]
        omega
      obtain ⟨done, rest, ts, stopped, rfl, hlexed, hrest⟩ := ih later hshorter
      exact ⟨w ++ quote :: (q ++ quote :: done), rest, (w.map tolower ++ folded q) :: ts, stopped,
        by simp, .quoted hw hq hlong hlexed, hrest⟩

/-- A text with a word, which is too long, or the last, or ends. -/
theorem ReadThrough.word {behind : List UInt8} (hw : WordText w)
    (hbehind : ∀ c ∈ behind.head?, wordChar c = false)
    (ih : ∀ later : List UInt8, later.length < behind.length → ReadThrough later) :
    ReadThrough (w ++ behind) := by
  by_cases hlong : symbolSize ≤ w.length
  · exact ⟨w ++ behind, [], [], true, by simp, .long hw hlong, Or.inl rfl⟩
  rw [not_le] at hlong
  cases behind with
  | nil =>
      rw [List.append_nil]
      by_cases hne : w = []
      · exact (hne ▸ Unended.nil).readThrough
      · exact (Unended.word hw hne hlong).readThrough
  | cons c behind =>
      have hshorter : behind.length < (c :: behind).length := Nat.lt_succ_self _
      by_cases hquote : c = quote
      · subst hquote
        exact .quoted hw fun later hlater => ih later (hlater.trans hshorter)
      · have hsep : isSeperator c = true := by
          have hchar := hbehind c rfl
          simpa [wordChar, hquote] using hchar
        exact .separator hw hlong hsep (ih behind hshorter)

/-- A text that begins with a comment, or with junk, that it closes. -/
theorem ReadThrough.closed {s close behind : List UInt8} (hclose : close ≠ [])
    (hlexed : ∀ {done ts stopped}, Lexed done ts stopped → Lexed (s ++ (close ++ done)) ts stopped)
    (ih : ∀ later : List UInt8, later.length < (s ++ (close ++ behind)).length →
      ReadThrough later) :
    ReadThrough (s ++ (close ++ behind)) := by
  have hshorter : behind.length < (s ++ (close ++ behind)).length := by
    have hpos := List.length_pos_iff.mpr hclose
    rw [List.length_append, List.length_append]
    omega
  obtain ⟨done, rest, ts, stopped, rfl, hdone, hrest⟩ := ih behind hshorter
  exact ⟨s ++ (close ++ done), rest, ts, stopped, by simp, hlexed hdone, hrest⟩

end

theorem readThrough (p : List UInt8) : ReadThrough p := by
  induction hlength : p.length using Nat.strong_induction_on generalizing p with
  | _ n ih =>
  subst hlength
  by_cases hcomment : (str "<!--").isPrefixOf p = true
  · by_cases hnone : str "-->" <:+: p
    · obtain ⟨s, behind, rfl, hfirst⟩ := exists_first_infix (by decide) hnone
      have hopen := isPrefixOf_of_closed hcomment (by decide) (by decide) (by decide) (by decide)
      exact .closed (by decide) (.comment hopen hfirst) fun later hlater => ih _ hlater later rfl
    · exact (Unended.comment hcomment hnone).readThrough
  by_cases hjunk : (str "<?").isPrefixOf p = true
  · by_cases hnone : str "?>" <:+: p
    · obtain ⟨s, behind, rfl, hfirst⟩ := exists_first_infix (by decide) hnone
      have hopen := isPrefixOf_of_closed hjunk (by decide) (by decide) (by decide) (by decide)
      exact .closed (by decide) (.junk hopen hfirst) fun later hlater => ih _ hlater later rfl
    · exact (Unended.junk hjunk hnone).readThrough
  obtain ⟨w, behind, rfl, hw, hbehind⟩ := exists_wordText hcomment hjunk
  refine .word hw hbehind fun later hlater => ih _ ?_ later rfl
  rw [List.length_append]
  omega

/-! ## One more character -/

/-- What one more character at the end of a text makes of its tokens. -/
inductive Grown : List (List UInt8) × Bool → List (List UInt8) × Bool → Prop
  | same (scanned : List (List UInt8) × Bool) : Grown scanned scanned
  | fresh (ts : List (List UInt8)) {token : List UInt8} (hshort : token.length ≤ 1) :
      Grown (ts, false) (ts ++ [token], false)
  | longer (ts : List (List UInt8)) (token : List UInt8) (d : UInt8) :
      Grown (ts ++ [token], false) (ts ++ [token ++ [d]], false)
  | tooLong (ts : List (List UInt8)) (token : List UInt8) : Grown (ts ++ [token], false) (ts, true)
  /-- The last token is the beginning of a comment or of junk. -/
  | opened (ts : List (List UInt8)) {token : List UInt8}
      (hopen : token = str "<!-" ∨ token = str "<") : Grown (ts ++ [token], false) (ts, false)

/-- What stands before stays. -/
theorem Grown.append {scanned scanned' : List (List UInt8) × Bool} (h : Grown scanned scanned')
    (before : List (List UInt8)) :
    Grown (before ++ scanned.1, scanned.2) (before ++ scanned'.1, scanned'.2) := by
  cases h with
  | same => exact .same _
  | fresh ts hshort =>
      rw [← List.append_assoc]
      exact .fresh (before ++ ts) hshort
  | longer ts token d =>
      rw [← List.append_assoc, ← List.append_assoc]
      exact .longer (before ++ ts) token d
  | tooLong ts token =>
      rw [← List.append_assoc]
      exact .tooLong (before ++ ts) token
  | opened ts hopen =>
      rw [← List.append_assoc]
      exact .opened (before ++ ts) hopen

section

variable {w q : List UInt8}

/-- A quoted part that the text does not end is copied up to the end. -/
theorem copyQuoted_unended (hq : quote ∉ q) : ∀ i, i + q.length ≤ symbolSize →
    copyQuoted i q = (folded q, []) := by
  induction q with
  | nil => exact fun i _ => rfl
  | cons c q ih =>
      intro i hroom
      rw [List.mem_cons, not_or] at hq
      rw [List.length_cons] at hroom
      have hstop : ¬ (c = quote ∨ symbolSize ≤ i) := by
        rintro (hquote | hfull)
        · exact hq.1 hquote.symm
        · omega
      rw [copyQuoted, if_neg hstop, ih hq.2 (i + 1) (by omega)]
      rfl

theorem tokens_unquoted (hw : WordText w) (hq : quote ∉ q)
    (hfits : w.length + q.length < symbolSize) :
    tokens (w ++ quote :: q) = ([w.map tolower ++ folded q], false) := by
  obtain ⟨c, p, htext, hc, hcomment, hjunk⟩ := hw.quoted_eq_cons q
  have hstop : ¬ (isSeperator quote = true ∨ symbolSize ≤ w.length) := by
    rintro (hsep | hfull)
    · exact absurd hsep (by decide)
    · omega
  have htoken : nextToken (w ++ quote :: q) = .token (w.map tolower ++ folded q) [] := by
    rw [htext, nextToken_of_copyToken hc hcomment hjunk, ← htext,
      copyToken_word_append _ hw.wordChar 0 (by omega), Nat.zero_add, copyToken, if_neg hstop,
      if_pos rfl, copyQuoted_unended hq w.length (by omega), if_pos (by simp; omega)]
    rfl
  rw [tokens_eq htoken]
  rfl

theorem tokens_word (hw : WordText w) (hne : w ≠ []) (hfits : w.length < symbolSize) :
    tokens w = ([w.map tolower], false) := by
  have htoken := nextToken_plain [] hw hne hfits nofun
  rw [List.append_nil] at htoken
  rw [tokens_eq htoken]
  rfl

/-! A comment that the text does not end is all of it, with one more character too. -/

theorem skipComment_unended {last : List UInt8} (hlast : last.length ≤ 1) {s : List UInt8} :
    ∀ a b, ¬ str "-->" <:+: a :: b :: s → skipComment a b (s ++ last) = [] := by
  have hclose : str "-->" = ['-'.toUInt8, '-'.toUInt8, '>'.toUInt8] := by decide
  induction s with
  | nil =>
      intro a b _
      match last, hlast with
      | [], _ => rfl
      | [c], _ => simp [skipComment]
  | cons c s ih =>
      intro a b hnone
      have hstop : ¬ (c = '>'.toUInt8 ∧ b = '-'.toUInt8 ∧ a = '-'.toUInt8) := by
        rintro ⟨rfl, rfl, rfl⟩
        apply hnone
        rw [hclose]
        exact (List.prefix_append _ _).isInfix
      rw [List.cons_append, skipComment, if_neg hstop]
      apply ih
      exact fun hwithin => hnone (hwithin.trans (List.suffix_cons _ _).isInfix)

theorem skipJunk_unended {last : List UInt8} (hlast : last.length ≤ 1) {s : List UInt8} :
    ∀ a, ¬ str "?>" <:+: a :: s → skipJunk a (s ++ last) = [] := by
  have hclose : str "?>" = ['?'.toUInt8, '>'.toUInt8] := by decide
  induction s with
  | nil =>
      intro a _
      match last, hlast with
      | [], _ => rfl
      | [c], _ => simp [skipJunk]
  | cons c s ih =>
      intro a hnone
      have hstop : ¬ (c = '>'.toUInt8 ∧ a = '?'.toUInt8) := by
        rintro ⟨rfl, rfl⟩
        apply hnone
        rw [hclose]
        exact (List.prefix_append _ _).isInfix
      rw [List.cons_append, skipJunk, if_neg hstop]
      apply ih
      exact fun hwithin => hnone (hwithin.trans (List.suffix_cons _ _).isInfix)

theorem tokens_unended_comment {s last : List UInt8} (hopen : (str "<!--").isPrefixOf s = true)
    (hnone : ¬ str "-->" <:+: s) (hlast : last.length ≤ 1) : tokens (s ++ last) = ([], false) := by
  have hskip : skipComment 0 0 (s ++ last) = [] := by
    apply skipComment_unended hlast
    have hzero : ¬ '-'.toUInt8 = 0 := by decide
    have hclose : str "-->" = '-'.toUInt8 :: str "->" := by decide
    rw [hclose] at hnone ⊢
    simp only [List.infix_cons_iff, List.cons_prefix_cons, hzero, false_and, false_or]
    exact hnone
  have hbegins : (str "<!--").isPrefixOf (s ++ last) = true := by
    rw [List.isPrefixOf_iff_prefix] at hopen ⊢
    exact hopen.trans (List.prefix_append _ _)
  have hnext := nextToken_comment hbegins
  rw [hskip] at hnext
  exact tokens_of_done hnext

theorem tokens_unended_junk {s last : List UInt8} (hopen : (str "<?").isPrefixOf s = true)
    (hnone : ¬ str "?>" <:+: s) (hlast : last.length ≤ 1) : tokens (s ++ last) = ([], false) := by
  have hskip : skipJunk 0 (s ++ last) = [] := by
    apply skipJunk_unended hlast
    have hzero : ¬ '?'.toUInt8 = 0 := by decide
    have hclose : str "?>" = '?'.toUInt8 :: str ">" := by decide
    rw [hclose] at hnone ⊢
    simp only [List.infix_cons_iff, List.cons_prefix_cons, hzero, false_and, false_or]
    exact hnone
  have hbegins : (str "<?").isPrefixOf (s ++ last) = true := by
    rw [List.isPrefixOf_iff_prefix] at hopen ⊢
    exact hopen.trans (List.prefix_append _ _)
  have hnext := nextToken_junk hbegins
  rw [hskip] at hnext
  exact tokens_of_done hnext

/-- A separator at the end of a text is no part of a token. -/
theorem tokens_word_separator (hw : WordText w) (hne : w ≠ []) (hfits : w.length < symbolSize)
    {c : UInt8} (hc : isSeperator c = true) : tokens (w ++ [c]) = ([w.map tolower], false) := by
  have hnil : tokens [c] = ([], false) := by
    rw [tokens_cons_seperator hc]
    rfl
  rw [tokens_eq (nextToken_plain [c] hw hne hfits (by simp [hc])), hnil]

/-- One more character of a word. -/
theorem grown_word (hw : WordText w) (hne : w ≠ []) (hfits : w.length < symbolSize) {c : UInt8}
    (hc : wordChar c = true) : Grown ([w.map tolower], false) (tokens (w ++ [c])) := by
  have hchars : ∀ d ∈ w ++ [c], wordChar d = true := by
    intro d hd
    rcases List.mem_append.mp hd with hd | hd
    · exact hw.wordChar d hd
    · exact List.mem_singleton.mp hd ▸ hc
  have hlow : ∀ token ∈ [str "<!-", str "<"], token.map tolower = token := by decide +kernel
  by_cases hcomment : (str "<!--").isPrefixOf (w ++ [c]) = true
  · have hnot := hw.noComment
    rw [← Bool.not_eq_true] at hnot
    rw [List.isPrefixOf_iff_prefix] at hcomment hnot
    obtain heq | h := List.prefix_concat_iff.mp hcomment
    · have hsplit : str "<!--" = str "<!-" ++ ['-'.toUInt8] := by decide
      rw [← heq, show tokens (str "<!--") = ([], false) by decide +kernel]
      rw [hsplit] at heq
      obtain ⟨rfl, -⟩ := List.append_inj' heq rfl
      rw [hlow _ (by simp)]
      exact .opened [] (Or.inl rfl)
    · exact absurd h hnot
  by_cases hjunk : (str "<?").isPrefixOf (w ++ [c]) = true
  · have hnot := hw.noJunk
    rw [← Bool.not_eq_true] at hnot
    rw [List.isPrefixOf_iff_prefix] at hjunk hnot
    obtain heq | h := List.prefix_concat_iff.mp hjunk
    · have hsplit : str "<?" = str "<" ++ ['?'.toUInt8] := by decide
      rw [← heq, show tokens (str "<?") = ([], false) by decide +kernel]
      rw [hsplit] at heq
      obtain ⟨rfl, -⟩ := List.append_inj' heq rfl
      rw [hlow _ (by simp)]
      exact .opened [] (Or.inr rfl)
    · exact absurd h hnot
  have hword : WordText (w ++ [c]) :=
    ⟨hchars, Bool.not_eq_true _ ▸ hcomment, Bool.not_eq_true _ ▸ hjunk⟩
  by_cases hlong : symbolSize ≤ (w ++ [c]).length
  · have htoken := nextToken_long [] hword hlong
    rw [List.append_nil] at htoken
    rw [tokens_of_tooLong htoken]
    exact .tooLong [] _
  · rw [tokens_word hword (by simp) (not_le.mp hlong), List.map_append]
    exact .longer [] _ _

/-- One more character of a quoted part. -/
theorem grown_quoted (hw : WordText w) (hq : quote ∉ q) (hfits : w.length + q.length < symbolSize)
    (c : UInt8) :
    Grown ([w.map tolower ++ folded q], false) (tokens (w ++ quote :: (q ++ [c]))) := by
  by_cases hc : c = quote
  · subst hc
    have htoken := nextToken_quoted [] hw hq
    rw [if_pos hfits] at htoken
    rw [tokens_eq htoken]
    exact .same _
  have hq' : quote ∉ q ++ [c] := by simp [hq, Ne.symm hc]
  by_cases hlong : symbolSize ≤ w.length + (q ++ [c]).length
  · have htoken := nextToken_longQuoted [] hw hq' hlong
    rw [List.append_nil] at htoken
    rw [tokens_of_tooLong htoken]
    exact .tooLong [] _
  · have hfolded : folded (q ++ [c]) = folded q ++ [tolower (unbreak c)] := List.map_append ..
    rw [tokens_unquoted hw hq' (not_le.mp hlong), hfolded, ← List.append_assoc]
    exact .longer [] _ _

theorem grown_of_unended {p : List UInt8} (h : Unended p) (c : UInt8) :
    Grown (tokens p) (tokens (p ++ [c])) := by
  cases h with
  | nil =>
      by_cases hsep : isSeperator c = true
      · rw [List.nil_append, tokens_cons_seperator hsep]
        exact .same _
      by_cases hquote : c = quote
      · subst hquote
        exact .fresh [] (Nat.zero_le _)
      · have hchar : wordChar c = true := by simp [wordChar, hsep, hquote]
        have hword : WordText [c] := by
          refine ⟨List.forall_mem_singleton.mpr hchar, ?_, ?_⟩
          · rw [← Bool.not_eq_true, List.isPrefixOf_iff_prefix]
            exact fun h => absurd (List.length_singleton ▸ h.length_le) (by decide)
          · rw [← Bool.not_eq_true, List.isPrefixOf_iff_prefix]
            exact fun h => absurd (List.length_singleton ▸ h.length_le) (by decide)
        rw [List.nil_append, tokens_word hword (by simp) (by simp [symbolSize])]
        exact .fresh [] le_rfl
  | word hw hne hfits =>
      rw [tokens_word hw hne hfits]
      by_cases hsep : isSeperator c = true
      · rw [tokens_word_separator hw hne hfits hsep]
        exact .same _
      by_cases hquote : c = quote
      · subst hquote
        rw [tokens_unquoted hw List.not_mem_nil hfits]
        simpa [folded] using Grown.same _
      · exact grown_word hw hne hfits (by simp [wordChar, hsep, hquote])
  | quoted hw hq hfits =>
      rw [tokens_unquoted hw hq hfits, List.append_assoc, List.cons_append]
      exact grown_quoted hw hq hfits c
  | comment hopen hnone =>
      have hnil := @tokens_unended_comment p [] hopen hnone (Nat.zero_le _)
      rw [List.append_nil] at hnil
      rw [hnil, tokens_unended_comment hopen hnone le_rfl]
      exact .same _
  | junk hopen hnone =>
      have hnil := @tokens_unended_junk p [] hopen hnone (Nat.zero_le _)
      rw [List.append_nil] at hnil
      rw [hnil, tokens_unended_junk hopen hnone le_rfl]
      exact .same _

end

/-- The tokens of a text with one more character are those of the text but for the end. -/
theorem grown_tokens (p : List UInt8) (c : UInt8) : Grown (tokens p) (tokens (p ++ [c])) := by
  obtain ⟨done, rest, ts, stopped, rfl, hlexed, hrest⟩ := readThrough p
  rw [List.append_assoc, hlexed.tokens_append, hlexed.tokens_append]
  obtain rfl | hrest := hrest
  · exact .same _
  · cases stopped with
    | true => exact .same _
    | false => exact (grown_of_unended hrest c).append ts

end Uperf
