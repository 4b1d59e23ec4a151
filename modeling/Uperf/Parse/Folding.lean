import Uperf.Parse.Spelling

/-!
# The token of a word

A word of a profile is a run of characters, none of them a separator, and it may
end with a quoted part.  Here is the token that `next_token` makes of any word: it
is folded to lower case, and newlines inside the quotes become blanks.
-/

namespace Uperf

open Lib

/-- The characters that a token is copied from outside quotes. -/
def wordChar (c : UInt8) : Bool := !isSeperator c && c ≠ quote

/-- What a token has for a quoted text. -/
def folded (text : List UInt8) : List UInt8 := text.map fun c => tolower (unbreak c)

@[simp] theorem length_folded (text : List UInt8) : (folded text).length = text.length :=
  List.length_map ..

@[simp] theorem folded_eq_nil_iff {text : List UInt8} : folded text = [] ↔ text = [] :=
  List.map_eq_nil_iff

theorem wordChar_iff {c : UInt8} : wordChar c = true ↔ isSeperator c = false ∧ c ≠ quote := by
  simp [wordChar]

/-- The characters of a token outside quotes, which begin neither a comment nor junk. -/
structure WordText (w : List UInt8) : Prop where
  wordChar : ∀ c ∈ w, wordChar c = true
  noComment : (str "<!--").isPrefixOf w = false
  noJunk : (str "<?").isPrefixOf w = false

/-- A word does not go on where something else than its characters follows. -/
theorem isPrefixOf_append {opener : List UInt8} (hopener : ∀ c ∈ opener, wordChar c = true)
    {w rest : List UInt8} (hrest : ∀ c ∈ rest.head?, wordChar c = false) :
    opener.isPrefixOf (w ++ rest) = opener.isPrefixOf w := by
  induction opener generalizing w with
  | nil => simp
  | cons c opener ih =>
      have htail : ∀ d ∈ opener, wordChar d = true := fun d hd =>
        hopener d (List.mem_cons_of_mem c hd)
      cases w with
      | cons d w =>
          rw [List.cons_append, List.isPrefixOf, List.isPrefixOf, ih htail]
      | nil =>
          cases rest with
          | nil => rfl
          | cons d rest =>
              have hne : (c == d) = false := by
                rw [beq_eq_false_iff_ne]
                rintro rfl
                exact absurd (hopener c List.mem_cons_self) (by simp [hrest c rfl])
              simp [List.isPrefixOf, hne]

theorem WordText.append {w : List UInt8} (hw : WordText w) (rest : List UInt8)
    (hrest : ∀ c ∈ rest.head?, Uperf.wordChar c = false) :
    (str "<!--").isPrefixOf (w ++ rest) = false ∧ (str "<?").isPrefixOf (w ++ rest) = false := by
  have hcomment : ∀ c ∈ str "<!--", Uperf.wordChar c = true :=
    List.all_eq_true.mp (by decide)
  have hjunk : ∀ c ∈ str "<?", Uperf.wordChar c = true := List.all_eq_true.mp (by decide)
  rw [isPrefixOf_append hcomment hrest, isPrefixOf_append hjunk hrest]
  exact ⟨hw.noComment, hw.noJunk⟩

/-- A word of four characters has begun what it may begin. -/
theorem WordText.append_of_long {w : List UInt8} (hw : WordText w) (hlong : 4 ≤ w.length)
    (rest : List UInt8) :
    (str "<!--").isPrefixOf (w ++ rest) = false ∧ (str "<?").isPrefixOf (w ++ rest) = false := by
  have hcomment := hw.noComment
  have hjunk := hw.noJunk
  rw [← Bool.not_eq_true, List.isPrefixOf_iff_prefix] at hcomment hjunk ⊢
  rw [← Bool.not_eq_true, List.isPrefixOf_iff_prefix]
  constructor
  · exact fun h => hcomment (List.prefix_of_prefix_length_le h (List.prefix_append w rest) hlong)
  · intro h
    refine hjunk (List.prefix_of_prefix_length_le h (List.prefix_append w rest) ?_)
    exact le_trans (by decide) hlong

section

variable {w q : List UInt8} (rest : List UInt8)

/-! ## The quoted part -/

/-- A quoted part that fits is copied up to its closing quote. -/
theorem copyQuoted_of_fits (hq : quote ∉ q) : ∀ i, i + q.length ≤ symbolSize →
    copyQuoted i (q ++ quote :: rest) = (folded q, quote :: rest) := by
  induction q with
  | nil =>
      intro i hroom
      simp [copyQuoted, folded]
  | cons c q ih =>
      intro i hroom
      rw [List.mem_cons, not_or] at hq
      rw [List.length_cons] at hroom
      have hstop : ¬ (c = quote ∨ symbolSize ≤ i) := by
        rintro (hquote | hfull)
        · exact hq.1 hquote.symm
        · omega
      rw [List.cons_append, copyQuoted, if_neg hstop, ih hq.2 (i + 1) (by omega)]
      rfl

/-- A quoted part that does not fit fills the token. -/
theorem length_copyQuoted_of_long (hq : quote ∉ q) : ∀ i, i ≤ symbolSize →
    symbolSize ≤ i + q.length → (copyQuoted i (q ++ rest)).1.length = symbolSize - i := by
  induction q with
  | nil =>
      intro i hi hlong
      have hfull : symbolSize ≤ i := by simpa using hlong
      have hzero : symbolSize - i = 0 := by omega
      cases rest with
      | nil => simp [copyQuoted, hzero]
      | cons c rest => simp [copyQuoted, hfull, hzero]
  | cons c q ih =>
      intro i hi hlong
      rw [List.mem_cons, not_or] at hq
      rw [List.length_cons] at hlong
      by_cases hfull : symbolSize ≤ i
      · rw [List.cons_append, copyQuoted, if_pos (Or.inr hfull), List.length_nil]
        omega
      · have hstop : ¬ (c = quote ∨ symbolSize ≤ i) := by
          rintro (hquote | hfull')
          · exact hq.1 hquote.symm
          · exact hfull hfull'
        rw [List.cons_append, copyQuoted, if_neg hstop, List.length_cons,
          ih hq.2 (i + 1) (by omega) (by omega)]
        omega

/-! ## The word -/

/-- The characters of a word are copied in lower case. -/
theorem copyToken_word_append (hw : ∀ c ∈ w, wordChar c = true) :
    ∀ i, i + w.length ≤ symbolSize → copyToken i (w ++ rest) =
      (w.map tolower ++ (copyToken (i + w.length) rest).1, (copyToken (i + w.length) rest).2) := by
  induction w with
  | nil =>
      intro i hroom
      simp
  | cons c w ih =>
      intro i hroom
      obtain ⟨hsep, hquote⟩ := wordChar_iff.mp (hw c List.mem_cons_self)
      rw [List.length_cons] at hroom ⊢
      have hstop : ¬ (isSeperator c = true ∨ symbolSize ≤ i) := by
        rintro (hsep' | hfull)
        · exact absurd (hsep.symm.trans hsep') (by decide)
        · omega
      have htail := ih (fun d hd => hw d (List.mem_cons_of_mem c hd)) (i + 1) (by omega)
      have hindex : i + 1 + w.length = i + (w.length + 1) := by omega
      rw [hindex] at htail
      rw [List.cons_append, copyToken, if_neg hstop, if_neg hquote, htail]
      rfl

/-- A word that does not fit fills the token. -/
theorem length_copyToken_of_long (hw : ∀ c ∈ w, wordChar c = true) : ∀ i, i ≤ symbolSize →
    symbolSize ≤ i + w.length → (copyToken i (w ++ rest)).1.length = symbolSize - i := by
  induction w with
  | nil =>
      intro i hi hlong
      have hfull : symbolSize ≤ i := by simpa using hlong
      have hzero : symbolSize - i = 0 := by omega
      cases rest with
      | nil => simp [copyToken, hzero]
      | cons c rest => simp [copyToken, hfull, hzero]
  | cons c w ih =>
      intro i hi hlong
      obtain ⟨hsep, hquote⟩ := wordChar_iff.mp (hw c List.mem_cons_self)
      rw [List.length_cons] at hlong
      by_cases hfull : symbolSize ≤ i
      · rw [List.cons_append, copyToken, if_pos (Or.inr hfull), List.length_nil]
        omega
      · have hstop : ¬ (isSeperator c = true ∨ symbolSize ≤ i) := by
          rintro (hsep' | hfull')
          · exact absurd (hsep.symm.trans hsep') (by decide)
          · exact hfull hfull'
        have htail := ih (fun d hd => hw d (List.mem_cons_of_mem c hd)) (i + 1) (by omega)
          (by omega)
        rw [List.cons_append, copyToken, if_neg hstop, if_neg hquote, List.length_cons, htail]
        omega

/-! ## The token -/

/-- A text that does not begin with a separator, a comment or junk is copied. -/
theorem nextToken_of_copyToken {c : UInt8} {p : List UInt8} (hc : isSeperator c = false)
    (hcomment : (str "<!--").isPrefixOf (c :: p) = false)
    (hjunk : (str "<?").isPrefixOf (c :: p) = false) :
    nextToken (c :: p) =
      if (copyToken 0 (c :: p)).1.length < symbolSize then
        .token (copyToken 0 (c :: p)).1 (copyToken 0 (c :: p)).2
      else .tooLong := by
  have hdrop : (c :: p).dropWhile isSeperator = c :: p := by simp [hc]
  unfold nextToken nextTokenFrom
  simp only [hdrop, hcomment, hjunk, Bool.false_eq_true, if_false]

/-- Only what begins with `<` is taken for a comment or junk. -/
theorem WordText.of_head? (hw : ∀ c ∈ w, Uperf.wordChar c = true)
    (hhead : w.head? ≠ some '<'.toUInt8) : WordText w := by
  have hcomment : str "<!--" = '<'.toUInt8 :: str "!--" := by decide
  have hjunk : str "<?" = '<'.toUInt8 :: str "?" := by decide
  cases w with
  | nil => exact ⟨hw, by decide, by decide⟩
  | cons c p =>
      have hne : ('<'.toUInt8 == c) = false := by
        rw [beq_eq_false_iff_ne]
        rintro rfl
        exact hhead rfl
      refine ⟨hw, ?_, ?_⟩
      · rw [hcomment, List.isPrefixOf, hne, Bool.false_and]
      · rw [hjunk, List.isPrefixOf, hne, Bool.false_and]

/-- The token of a word without a quoted part. -/
theorem nextToken_plain (hw : WordText w) (hne : w ≠ []) (hfits : w.length < symbolSize)
    (hrest : ∀ c ∈ rest.head?, isSeperator c = true) :
    nextToken (w ++ rest) = .token (w.map tolower) rest := by
  obtain ⟨hcomment, hjunk⟩ := hw.append rest fun c hc => by simp [wordChar, hrest c hc]
  have hcopy := copyToken_word_append rest hw.wordChar 0 (by omega)
  obtain ⟨c, p, rfl⟩ := List.exists_cons_of_ne_nil hne
  have hc := (wordChar_iff.mp (hw.wordChar c List.mem_cons_self)).1
  rw [List.cons_append] at hcomment hjunk
  rw [List.cons_append, nextToken_of_copyToken hc hcomment hjunk, ← List.cons_append, hcopy,
    copyToken_end hrest, List.append_nil, List.length_map, if_pos hfits]

/-- A word that fills the buffer is too long, whatever follows. -/
theorem nextToken_long (hw : WordText w) (hlong : symbolSize ≤ w.length) :
    nextToken (w ++ rest) = .tooLong := by
  have hsize : symbolSize = 1024 := rfl
  obtain ⟨hcomment, hjunk⟩ := hw.append_of_long (by omega) rest
  have hfull := length_copyToken_of_long rest hw.wordChar 0 (by omega) (by omega)
  obtain ⟨c, p, rfl⟩ : ∃ c p, w = c :: p := by
    cases w with
    | nil => simp [hsize] at hlong
    | cons c p => exact ⟨c, p, rfl⟩
  have hc := (wordChar_iff.mp (hw.wordChar c List.mem_cons_self)).1
  rw [List.cons_append] at hcomment hjunk
  rw [List.cons_append, nextToken_of_copyToken hc hcomment hjunk, ← List.cons_append,
    if_neg (by omega)]

/-- A word with a quoted part begins a token. -/
theorem WordText.quoted_eq_cons (hw : WordText w) :
    ∃ c p, w ++ quote :: rest = c :: p ∧ isSeperator c = false ∧
      (str "<!--").isPrefixOf (c :: p) = false ∧ (str "<?").isPrefixOf (c :: p) = false := by
  have hopen := hw.append (quote :: rest) (by simp [Uperf.wordChar])
  cases w with
  | nil => exact ⟨quote, _, rfl, by decide, hopen⟩
  | cons c w =>
      exact ⟨c, _, rfl, (wordChar_iff.mp (hw.wordChar c List.mem_cons_self)).1, hopen⟩

/-- A quoted part that does not fit is too long, wherever it ends. -/
theorem nextToken_longQuoted (hw : WordText w) (hq : quote ∉ q)
    (hlong : symbolSize ≤ w.length + q.length) :
    nextToken (w ++ quote :: (q ++ rest)) = .tooLong := by
  by_cases hfull : symbolSize ≤ w.length
  · exact nextToken_long _ hw hfull
  have hstop : ¬ (isSeperator quote = true ∨ symbolSize ≤ w.length) := by
    rintro (hsep | hfull')
    · exact absurd hsep (by decide)
    · exact hfull hfull'
  have hquoted := length_copyQuoted_of_long rest hq w.length (by omega) hlong
  have hlength : (w.map tolower).length = w.length := List.length_map ..
  obtain ⟨c, p, htext, hc, hcomment, hjunk⟩ := hw.quoted_eq_cons (q ++ rest)
  rw [htext, nextToken_of_copyToken hc hcomment hjunk, ← htext,
    copyToken_word_append _ hw.wordChar 0 (by omega), Nat.zero_add, copyToken, if_neg hstop,
    if_pos rfl, if_neg (by simp only [List.length_append, hquoted, hlength]; omega)]

/-- The token of a word with a quoted part, if it is not too long. -/
theorem nextToken_quoted (hw : WordText w) (hq : quote ∉ q) :
    nextToken (w ++ quote :: (q ++ quote :: rest)) =
      if w.length + q.length < symbolSize then .token (w.map tolower ++ folded q) rest
      else .tooLong := by
  by_cases hfits : w.length + q.length < symbolSize
  · obtain ⟨c, p, htext, hc, hcomment, hjunk⟩ := hw.quoted_eq_cons (q ++ quote :: rest)
    have hstop : ¬ (isSeperator quote = true ∨ symbolSize ≤ w.length) := by
      rintro (hsep | hfull)
      · exact absurd hsep (by decide)
      · omega
    rw [htext, nextToken_of_copyToken hc hcomment hjunk, ← htext,
      copyToken_word_append _ hw.wordChar 0 (by omega), Nat.zero_add, copyToken, if_neg hstop,
      if_pos rfl, copyQuoted_of_fits _ hq w.length (by omega), if_pos (by simp; omega),
      if_pos hfits]
    simp [skipQuote]
  · rw [if_neg hfits]
    exact nextToken_longQuoted _ hw hq (not_lt.mp hfits)

end

end Uperf
