import Uperf.Parse.Tokens
import Uperf.Parse.Profile

/-!
# The tokens of a canonical text

`next_token` gives back the words that a canonical text is made of, each without
its quotes.
-/

namespace Uperf

open Lib

/-- A character that is copied as it is and does not end a token. -/
def plainChar (c : UInt8) : Bool := !isSeperator c && c ≠ quote && tolower c = c && c ≠ 0

/-- A character that is copied as it is inside quotes. -/
def quotedChar (c : UInt8) : Bool := c ≠ quote && tolower (unbreak c) = c && c ≠ 0

/-- The text does not begin a comment. -/
def NoComment (text : List UInt8) : Prop :=
  ∀ rest, (str "<!--").isPrefixOf (text ++ rest) = false ∧
    (str "<?").isPrefixOf (text ++ rest) = false

/-- A word that `next_token` reads as it is written. -/
inductive Spelled : Word → Prop
  | tag {text : List UInt8} (hne : text ≠ []) (hplain : ∀ c ∈ text, plainChar c = true)
      (hopen : NoComment text) (hfit : text.length < symbolSize) : Spelled (.tag text)
  | assign {key value : List UInt8} (hne : key ≠ []) (hkey : ∀ c ∈ key, plainChar c = true)
      (hvalue : ∀ c ∈ value, quotedChar c = true) (hopen : NoComment key)
      (hfit : (Word.assign key value).token.length < symbolSize) : Spelled (.assign key value)

section

variable {w rest value : List UInt8} {c : UInt8}

theorem plainChar_iff : plainChar c = true ↔
    isSeperator c = false ∧ c ≠ quote ∧ tolower c = c ∧ c ≠ 0 := by
  simp [plainChar, and_assoc]

theorem quotedChar_iff : quotedChar c = true ↔
    c ≠ quote ∧ tolower (unbreak c) = c ∧ c ≠ 0 := by
  simp [quotedChar, and_assoc]

/-- Plain characters are copied. -/
theorem copyToken_append (hplain : ∀ c ∈ w, plainChar c = true) :
    ∀ i, i + w.length ≤ symbolSize → copyToken i (w ++ rest) =
      (w ++ (copyToken (i + w.length) rest).1, (copyToken (i + w.length) rest).2) := by
  induction w with
  | nil => simp
  | cons c w ih =>
      intro i hroom
      obtain ⟨hsep, hquote, hlower, -⟩ := plainChar_iff.mp (hplain c List.mem_cons_self)
      rw [List.length_cons] at hroom ⊢
      have hi : ¬ symbolSize ≤ i := by omega
      have hrest := ih (fun d hd => hplain d (List.mem_cons_of_mem c hd)) (i + 1) (by omega)
      rw [List.cons_append, copyToken]
      simp only [hsep, hi, Bool.false_eq_true, or_self, if_false, hquote, hrest, hlower,
        List.cons_append]
      rw [show i + 1 + w.length = i + (w.length + 1) by omega]

/-- Quoted characters are copied up to the closing quote. -/
theorem copyQuoted_append (hvalue : ∀ c ∈ value, quotedChar c = true) :
    ∀ i, i + value.length ≤ symbolSize →
      copyQuoted i (value ++ quote :: rest) = (value, quote :: rest) := by
  induction value with
  | nil => simp [copyQuoted]
  | cons c value ih =>
      intro i hroom
      obtain ⟨hquote, hlower, -⟩ := quotedChar_iff.mp (hvalue c List.mem_cons_self)
      rw [List.length_cons] at hroom
      have hi : ¬ symbolSize ≤ i := by omega
      have hrest := ih (fun d hd => hvalue d (List.mem_cons_of_mem c hd)) (i + 1) (by omega)
      rw [List.cons_append, copyQuoted]
      simp only [hquote, hi, or_self, if_false, hrest, hlower]

/-- A separator or the end of the text ends a token. -/
theorem copyToken_end (hrest : ∀ c ∈ rest.head?, isSeperator c = true) (i : ℕ) :
    copyToken i rest = ([], rest) := by
  cases rest with
  | nil => rfl
  | cons c rest => simp [copyToken, hrest c (by simp)]

theorem copyToken_word {word : Word} (h : Spelled word)
    (hrest : ∀ c ∈ rest.head?, isSeperator c = true) :
    copyToken 0 (word.print ++ rest) = (word.token, rest) := by
  cases h with
  | @tag text hne hplain hopen hfit =>
      rw [Word.print, copyToken_append hplain 0 (by omega), copyToken_end hrest]
      simp [Word.token]
  | @assign key value hne hkey hvalue hopen hfit =>
      have hprint : (Word.assign key value).print ++ rest =
          (key ++ ['='.toUInt8]) ++ (quote :: (value ++ quote :: rest)) := by
        simp [Word.print]
      have hlen : (key ++ ['='.toUInt8]).length + value.length < symbolSize := by
        simp only [Word.token, List.length_append, List.length_cons, List.length_nil] at hfit ⊢
        omega
      have hplain : ∀ c ∈ key ++ ['='.toUInt8], plainChar c = true := by
        intro c hc
        rcases List.mem_append.mp hc with hc | hc
        · exact hkey c hc
        · rw [List.mem_singleton.mp hc]
          decide
      have hquoted : copyToken (0 + (key ++ ['='.toUInt8]).length)
          (quote :: (value ++ quote :: rest)) = (value, rest) := by
        have hsep : isSeperator quote = false := by decide
        have hroom : ¬ symbolSize ≤ 0 + (key ++ ['='.toUInt8]).length := by omega
        rw [copyToken]
        simp only [hsep, hroom, Bool.false_eq_true, or_self, if_false, if_true]
        rw [copyQuoted_append hvalue _ (by omega)]
        simp [skipQuote]
      rw [hprint, copyToken_append hplain 0 (by omega), hquoted]
      simp [Word.token]

theorem Spelled.noComment {word : Word} (h : Spelled word) : NoComment word.print := by
  cases h with
  | tag hne hplain hopen hfit => exact hopen
  | @assign key value hne hkey hvalue hopen hfit =>
      intro rest
      have h := hopen ('='.toUInt8 :: quote :: value ++ [quote] ++ rest)
      simpa [Word.print] using h

theorem Spelled.print_eq_cons {word : Word} (h : Spelled word) :
    ∃ c p, word.print = c :: p ∧ isSeperator c = false := by
  have hhead : ∀ {text : List UInt8}, text ≠ [] → (∀ c ∈ text, plainChar c = true) →
      ∃ c p, text = c :: p ∧ isSeperator c = false := by
    intro text hne hplain
    obtain ⟨c, p, rfl⟩ := List.exists_cons_of_ne_nil hne
    exact ⟨c, p, rfl, (plainChar_iff.mp (hplain c List.mem_cons_self)).1⟩
  cases h with
  | tag hne hplain hopen hfit => exact hhead hne hplain
  | @assign key value hne hkey hvalue hopen hfit =>
      obtain ⟨c, p, rfl, hc⟩ := hhead hne hkey
      exact ⟨c, _, rfl, hc⟩

theorem Spelled.length_token {word : Word} (h : Spelled word) :
    word.token.length < symbolSize := by
  cases h with
  | tag hne hplain hopen hfit => exact hfit
  | assign hne hkey hvalue hopen hfit => exact hfit

/-- A word is read as its token, up to the separator behind it. -/
theorem nextToken_word {word : Word} (h : Spelled word)
    (hrest : ∀ c ∈ rest.head?, isSeperator c = true) :
    nextToken (word.print ++ rest) = .token word.token rest := by
  obtain ⟨c, p, hprint, hc⟩ := h.print_eq_cons
  obtain ⟨hcomment, hjunk⟩ := h.noComment rest
  have hcopy := copyToken_word h hrest
  rw [hprint, List.cons_append] at hcomment hjunk hcopy ⊢
  have hdrop : (c :: (p ++ rest)).dropWhile isSeperator = c :: (p ++ rest) := by
    simp [hc]
  unfold nextToken nextTokenFrom
  simp only [hdrop, hcomment, hjunk, Bool.false_eq_true, if_false, hcopy, if_pos h.length_token]

/-- Separators before a token are skipped. -/
theorem nextToken_cons_seperator (hc : isSeperator c = true) :
    nextToken (c :: rest) = nextToken rest := by
  have hfuel : nextToken rest = nextTokenFrom ((c :: rest).length + 1) rest :=
    nextTokenFrom_eq (Nat.lt_succ_self _) (by rw [List.length_cons]; omega)
  rw [hfuel, nextToken, nextTokenFrom, nextTokenFrom, List.dropWhile_cons_of_pos hc]

theorem tokens_of_done (hdone : nextToken rest = .done) : tokens rest = ([], false) := by
  rw [tokens, tokensFrom, hdone]

/-- A separator is not part of any token. -/
theorem tokens_cons_seperator (hc : isSeperator c = true) : tokens (c :: rest) = tokens rest := by
  have hnext : nextToken (c :: rest) = nextToken rest := nextToken_cons_seperator hc
  cases hrest : nextToken rest with
  | done => rw [tokens_of_done hrest, tokens_of_done (hnext.trans hrest)]
  | tooLong =>
      rw [tokens, tokensFrom, hnext, hrest, tokens, tokensFrom, hrest]
  | token symbol tail => rw [tokens_eq hrest, tokens_eq (hnext.trans hrest)]

end

theorem isSeperator_byte (s : Separator) : isSeperator s.byte = true := by
  cases s <;> decide

/-- The tokens of a canonical text are its words. -/
theorem tokens_printWords {words : List Word} (hwords : ∀ word ∈ words, Spelled word)
    (sep : ℕ → Separator) (i : ℕ) :
    tokens (printWords sep i words) = (words.map Word.token, false) := by
  induction words generalizing i with
  | nil => exact tokens_of_done rfl
  | cons word rest ih =>
      have hword := hwords word List.mem_cons_self
      have htail := ih (fun w hw => hwords w (List.mem_cons_of_mem word hw)) (i + 1)
      rw [printWords]
      by_cases hnil : rest = []
      · subst hnil
        rw [if_pos rfl, tokens_eq (nextToken_word hword (by simp)), tokens_of_done rfl]
        rfl
      · rw [if_neg hnil, tokens_eq (nextToken_word hword (by simp [isSeperator_byte])),
          tokens_cons_seperator (isSeperator_byte _), htail]
        rfl

end Uperf
