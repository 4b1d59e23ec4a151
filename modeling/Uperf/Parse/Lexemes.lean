import Uperf.Parse.Folding

/-!
# Texts read piece by piece

A text is made of separators, comments, junk, words and words with a quoted part.
`Lexed` says that a text is read up to the end of such a piece, and which tokens
`next_token` has returned by then.  What it returns later depends on the rest
alone, unless a token was too long: then it returns nothing more.
-/

namespace Uperf

open Lib

/-- The text is read up to the end of a piece, with these tokens; `stopped` says that one
was too long. -/
inductive Lexed : List UInt8 → List (List UInt8) → (stopped : Bool) → Prop
  | nil : Lexed [] [] false
  | separator {c : UInt8} {p : List UInt8} {ts : List (List UInt8)} {stopped : Bool}
      (hc : isSeperator c = true) (hrest : Lexed p ts stopped) : Lexed (c :: p) ts stopped
  /-- A comment ends with the first `-->` in it. -/
  | comment {s p : List UInt8} {ts : List (List UInt8)} {stopped : Bool}
      (hopen : (str "<!--").isPrefixOf (s ++ str "-->") = true)
      (hfirst : ¬ str "-->" <:+: s ++ str "--") (hrest : Lexed p ts stopped) :
      Lexed (s ++ (str "-->" ++ p)) ts stopped
  | junk {s p : List UInt8} {ts : List (List UInt8)} {stopped : Bool}
      (hopen : (str "<?").isPrefixOf (s ++ str "?>") = true)
      (hfirst : ¬ str "?>" <:+: s ++ str "?") (hrest : Lexed p ts stopped) :
      Lexed (s ++ (str "?>" ++ p)) ts stopped
  /-- A word ends at a separator. -/
  | word {w p : List UInt8} {ts : List (List UInt8)} {stopped : Bool} (hw : WordText w)
      (hne : w ≠ []) (hfits : w.length < symbolSize)
      (hsep : ∃ c rest, p = c :: rest ∧ isSeperator c = true) (hrest : Lexed p ts stopped) :
      Lexed (w ++ p) (w.map tolower :: ts) stopped
  /-- A quoted part ends with its closing quotation mark. -/
  | quoted {w q p : List UInt8} {ts : List (List UInt8)} {stopped : Bool} (hw : WordText w)
      (hq : quote ∉ q) (hfits : w.length + q.length < symbolSize) (hrest : Lexed p ts stopped) :
      Lexed (w ++ quote :: (q ++ quote :: p)) ((w.map tolower ++ folded q) :: ts) stopped
  | long {w p : List UInt8} (hw : WordText w) (hlong : symbolSize ≤ w.length) :
      Lexed (w ++ p) [] true
  | longQuoted {w q p : List UInt8} (hw : WordText w) (hq : quote ∉ q)
      (hlong : symbolSize ≤ w.length + q.length) : Lexed (w ++ quote :: (q ++ p)) [] true

/-! ## Comments -/

/-- The loop over a comment stops behind the first `-->`. -/
theorem skipComment_append (rest s : List UInt8) : ∀ before last,
    ¬ str "-->" <:+: before :: last :: (s ++ str "--") →
    skipComment before last (s ++ (str "-->" ++ rest)) = rest := by
  have hclose : str "-->" = ['-'.toUInt8, '-'.toUInt8, '>'.toUInt8] := by decide
  have hdash : ¬ '-'.toUInt8 = '>'.toUInt8 := by decide
  induction s with
  | nil =>
      intro before last _
      simp [hclose, skipComment, hdash]
  | cons c s ih =>
      intro before last hfirst
      have hstop : ¬ (c = '>'.toUInt8 ∧ last = '-'.toUInt8 ∧ before = '-'.toUInt8) := by
        rintro ⟨rfl, rfl, rfl⟩
        apply hfirst
        rw [hclose]
        exact (List.prefix_append _ _).isInfix
      rw [List.cons_append, skipComment, if_neg hstop]
      apply ih
      exact fun hwithin => hfirst (hwithin.trans (List.suffix_cons _ _).isInfix)

/-- The loop over junk stops behind the first `?>`. -/
theorem skipJunk_append (rest s : List UInt8) : ∀ last,
    ¬ str "?>" <:+: last :: (s ++ str "?") → skipJunk last (s ++ (str "?>" ++ rest)) = rest := by
  have hclose : str "?>" = ['?'.toUInt8, '>'.toUInt8] := by decide
  have hmark : ¬ '?'.toUInt8 = '>'.toUInt8 := by decide
  induction s with
  | nil =>
      intro last _
      simp [hclose, skipJunk, hmark]
  | cons c s ih =>
      intro last hfirst
      have hstop : ¬ (c = '>'.toUInt8 ∧ last = '?'.toUInt8) := by
        rintro ⟨rfl, rfl⟩
        apply hfirst
        rw [hclose]
        exact (List.prefix_append _ _).isInfix
      rw [List.cons_append, skipJunk, if_neg hstop]
      apply ih
      exact fun hwithin => hfirst (hwithin.trans (List.suffix_cons _ _).isInfix)

section

variable {p q : List UInt8} {ts : List (List UInt8)} {stopped : Bool}

/-- The tokens of a text are those that are read of it. -/
theorem tokens_congr (hnext : nextToken p = nextToken q) : tokens p = tokens q := by
  cases hq : nextToken q with
  | done => rw [tokens_of_done hq, tokens_of_done (hnext.trans hq)]
  | tooLong => rw [tokens, tokensFrom, hnext, hq, tokens, tokensFrom, hq]
  | token symbol tail => rw [tokens_eq hq, tokens_eq (hnext.trans hq)]

theorem tokens_of_tooLong (hlong : nextToken p = .tooLong) : tokens p = ([], true) := by
  rw [tokens, tokensFrom, hlong]

/-- A text that begins with a comment goes on behind it. -/
theorem nextToken_comment (hopen : (str "<!--").isPrefixOf p = true) :
    nextToken p = nextToken (skipComment 0 0 p) := by
  obtain ⟨c, p, rfl, hc⟩ : ∃ c rest, p = c :: rest ∧ isSeperator c = false := by
    obtain ⟨rest, rfl⟩ := List.isPrefixOf_iff_prefix.mp hopen
    exact ⟨'<'.toUInt8, str "!--" ++ rest, rfl, by decide⟩
  have hlt := length_skipComment_lt hopen
  have hdrop : (c :: p).dropWhile isSeperator = c :: p := by simp [hc]
  rw [nextToken, nextTokenFrom]
  simp only [hdrop, hopen, if_true]
  exact nextTokenFrom_eq hlt (Nat.lt_succ_self _)

theorem nextToken_junk (hopen : (str "<?").isPrefixOf p = true) :
    nextToken p = nextToken (skipJunk 0 p) := by
  obtain ⟨rest, rfl⟩ : ∃ rest, p = '<'.toUInt8 :: '?'.toUInt8 :: rest := by
    obtain ⟨rest, rfl⟩ := List.isPrefixOf_iff_prefix.mp hopen
    exact ⟨rest, rfl⟩
  have hlt := length_skipJunk_lt hopen
  have hsep : isSeperator '<'.toUInt8 = false := by decide
  have hcomment : (str "<!--").isPrefixOf ('<'.toUInt8 :: '?'.toUInt8 :: rest) = false := rfl
  rw [nextToken, nextTokenFrom, List.dropWhile_cons_of_neg (by simp [hsep])]
  simp only [hcomment, hopen, Bool.false_eq_true, if_false, if_true]
  exact nextTokenFrom_eq hlt (Nat.lt_succ_self _)

/-- A comment is no part of any token. -/
theorem tokens_comment {s : List UInt8}
    (hopen : (str "<!--").isPrefixOf (s ++ str "-->") = true)
    (hfirst : ¬ str "-->" <:+: s ++ str "--") (rest : List UInt8) :
    tokens (s ++ (str "-->" ++ rest)) = tokens rest := by
  have hskip : skipComment 0 0 (s ++ (str "-->" ++ rest)) = rest := by
    apply skipComment_append
    have hzero : ¬ '-'.toUInt8 = 0 := by decide
    have hclose : str "-->" = '-'.toUInt8 :: str "->" := by decide
    rw [hclose] at hfirst ⊢
    simp only [List.infix_cons_iff, List.cons_prefix_cons, hzero, false_and, false_or]
    exact hfirst
  have hbegins : (str "<!--").isPrefixOf (s ++ (str "-->" ++ rest)) = true := by
    rw [List.isPrefixOf_iff_prefix] at hopen ⊢
    rw [← List.append_assoc]
    exact hopen.trans (List.prefix_append _ _)
  apply tokens_congr
  rw [nextToken_comment hbegins, hskip]

theorem tokens_junk {s : List UInt8} (hopen : (str "<?").isPrefixOf (s ++ str "?>") = true)
    (hfirst : ¬ str "?>" <:+: s ++ str "?") (rest : List UInt8) :
    tokens (s ++ (str "?>" ++ rest)) = tokens rest := by
  have hskip : skipJunk 0 (s ++ (str "?>" ++ rest)) = rest := by
    apply skipJunk_append
    have hzero : ¬ '?'.toUInt8 = 0 := by decide
    have hclose : str "?>" = '?'.toUInt8 :: str ">" := by decide
    rw [hclose] at hfirst ⊢
    simp only [List.infix_cons_iff, List.cons_prefix_cons, hzero, false_and, false_or]
    exact hfirst
  have hbegins : (str "<?").isPrefixOf (s ++ (str "?>" ++ rest)) = true := by
    rw [List.isPrefixOf_iff_prefix] at hopen ⊢
    rw [← List.append_assoc]
    exact hopen.trans (List.prefix_append _ _)
  apply tokens_congr
  rw [nextToken_junk hbegins, hskip]

/-- What follows a piece is read as if it stood alone. -/
theorem Lexed.tokens_append (h : Lexed p ts stopped) (rest : List UInt8) :
    tokens (p ++ rest) =
      if stopped then (ts, true) else (ts ++ (tokens rest).1, (tokens rest).2) := by
  induction h with
  | nil => simp
  | separator hc _ ih =>
      rw [List.cons_append, tokens_cons_seperator hc]
      exact ih
  | comment hopen hfirst _ ih =>
      rw [List.append_assoc, List.append_assoc, tokens_comment hopen hfirst]
      exact ih
  | junk hopen hfirst _ ih =>
      rw [List.append_assoc, List.append_assoc, tokens_junk hopen hfirst]
      exact ih
  | @word w p ts stopped hw hne hfits hsep _ ih =>
      obtain ⟨c, tail, rfl, hc⟩ := hsep
      have hword := nextToken_plain (c :: tail ++ rest) hw hne hfits (by simp [hc])
      rw [List.append_assoc, tokens_eq hword, ih]
      cases stopped <;> simp
  | @quoted w q p ts stopped hw hq hfits _ ih =>
      have hword := nextToken_quoted (p ++ rest) hw hq
      rw [if_pos hfits] at hword
      rw [List.append_assoc, List.cons_append, List.append_assoc, List.cons_append,
        tokens_eq hword, ih]
      cases stopped <;> simp
  | long hw hlong =>
      rw [List.append_assoc]
      exact tokens_of_tooLong (nextToken_long _ hw hlong)
  | longQuoted hw hq hlong =>
      rw [List.append_assoc, List.cons_append, List.append_assoc]
      exact tokens_of_tooLong (nextToken_longQuoted _ hw hq hlong)

theorem Lexed.tokens_eq (h : Lexed p ts stopped) : tokens p = (ts, stopped) := by
  have hall := h.tokens_append []
  rw [List.append_nil, tokens_of_done (show nextToken [] = .done from rfl)] at hall
  rw [hall]
  cases stopped <;> simp

/-- Separators before the rest are skipped. -/
theorem tokens_separators {gap : List UInt8} (hgap : ∀ c ∈ gap, isSeperator c = true)
    (rest : List UInt8) : tokens (gap ++ rest) = tokens rest := by
  induction gap with
  | nil => rfl
  | cons c gap ih =>
      rw [List.cons_append, tokens_cons_seperator (hgap c List.mem_cons_self)]
      exact ih fun d hd => hgap d (List.mem_cons_of_mem c hd)

/-- What begins with separators. -/
theorem head?_separators {gap : List UInt8} (hgap : ∀ c ∈ gap, isSeperator c = true)
    (hne : gap ≠ []) (rest : List UInt8) : ∀ c ∈ (gap ++ rest).head?, isSeperator c = true := by
  obtain ⟨c, gap, rfl⟩ := List.exists_cons_of_ne_nil hne
  rintro d ⟨⟩
  exact hgap c List.mem_cons_self

/-- One piece after another. -/
theorem Lexed.append {ts' : List (List UInt8)} {stopped' : Bool} (h : Lexed p ts false)
    (h' : Lexed q ts' stopped') : Lexed (p ++ q) (ts ++ ts') stopped' := by
  generalize hfalse : false = stopped at h
  induction h with
  | nil => exact h'
  | separator hc _ ih => exact .separator hc (ih hfalse)
  | comment hopen hfirst _ ih =>
      rw [List.append_assoc, List.append_assoc]
      exact .comment hopen hfirst (ih hfalse)
  | junk hopen hfirst _ ih =>
      rw [List.append_assoc, List.append_assoc]
      exact .junk hopen hfirst (ih hfalse)
  | word hw hne hfits hsep _ ih =>
      obtain ⟨c, tail, rfl, hc⟩ := hsep
      rw [List.append_assoc]
      exact .word hw hne hfits ⟨c, tail ++ q, rfl, hc⟩ (ih hfalse)
  | quoted hw hq hfits _ ih =>
      rw [List.append_assoc, List.cons_append, List.append_assoc, List.cons_append]
      exact .quoted hw hq hfits (ih hfalse)
  | long hw hlong => cases hfalse
  | longQuoted hw hq hlong => cases hfalse

end

end Uperf
