import Uperf.CString

/-!
# The tokens of a profile

`next_token` of `parse.c`.  A text is the list of its bytes up to the
terminator, and the pointer `p` of the source is what is left of it.  The
function walks over the text with a pointer that it keeps between its calls;
here it returns the rest, and `tokens` calls it until it has no token left.
-/

namespace Uperf

/-- `is_seperator`.  A `char` is signed, so that the bytes from 128 on are
negative and no separators. -/
def isSeperator (c : UInt8) : Bool := c < 33 && 0 < c

/-- `sizeof (symbol)`. -/
def symbolSize : ℕ := 1024

/-- The quotation mark. -/
def quote : UInt8 := 34

/-- The loop over a comment: to behind a `>` that follows `--`.  The arguments
are `*(p-2)` and `*(p-1)`. -/
def skipComment : UInt8 → UInt8 → List UInt8 → List UInt8
  | _, _, [] => []
  | before, last, c :: p =>
      if c = '>'.toUInt8 ∧ last = '-'.toUInt8 ∧ before = '-'.toUInt8 then p
      else skipComment last c p

/-- The loop over `<? … ?>`: to behind a `>` that follows `?`. -/
def skipJunk : UInt8 → List UInt8 → List UInt8
  | _, [] => []
  | last, c :: p => if c = '>'.toUInt8 ∧ last = '?'.toUInt8 then p else skipJunk c p

/-- A newline inside quotes becomes a blank. -/
def unbreak (c : UInt8) : UInt8 := if c = 10 ∨ c = 13 then 32 else c

/-- The inner loop: copies up to the closing quotation mark, from index `i` of
`symbol` on. -/
def copyQuoted : ℕ → List UInt8 → List UInt8 × List UInt8
  | _, [] => ([], [])
  | i, c :: p =>
      if c = quote ∨ symbolSize ≤ i then ([], c :: p)
      else
        let (symbol, rest) := copyQuoted (i + 1) p
        (tolower (unbreak c) :: symbol, rest)

/-- `if (*p == '"') p++;`. -/
def skipQuote : List UInt8 → List UInt8
  | [] => []
  | c :: p => if c = quote then p else c :: p

/-- The loop that copies a token, from index `i` of `symbol` on.  A quoted part
ends the token. -/
def copyToken : ℕ → List UInt8 → List UInt8 × List UInt8
  | _, [] => ([], [])
  | i, c :: p =>
      if isSeperator c ∨ symbolSize ≤ i then ([], c :: p)
      else if c = quote then
        let (symbol, rest) := copyQuoted i p
        (symbol, skipQuote rest)
      else
        let (symbol, rest) := copyToken (i + 1) p
        (tolower c :: symbol, rest)

/-- What `next_token` returns: `NULL` at the end of the text, `NULL` with the
error `token too long.`, or a token, with the rest of the text. -/
inductive Scan
  | done
  | tooLong
  | token (symbol rest : List UInt8)
deriving DecidableEq

/-- `next_token`.  The recursion behind a comment is on a shorter text, so that
its length is fuel enough. -/
def nextTokenFrom : ℕ → List UInt8 → Scan
  | 0, _ => .done
  | fuel + 1, p =>
      match p.dropWhile isSeperator with
      | [] => .done
      | c :: p =>
          if (str "<!--").isPrefixOf (c :: p) then nextTokenFrom fuel (skipComment 0 0 (c :: p))
          else if (str "<?").isPrefixOf (c :: p) then nextTokenFrom fuel (skipJunk 0 (c :: p))
          else
            let (symbol, rest) := copyToken 0 (c :: p)
            if symbol.length < symbolSize then .token symbol rest else .tooLong

/-- `next_token`. -/
def nextToken (p : List UInt8) : Scan := nextTokenFrom (p.length + 1) p

/-- The tokens that `next_token` returns call after call, and whether the last
call failed. -/
def tokensFrom : ℕ → List UInt8 → List (List UInt8) × Bool
  | 0, _ => ([], false)
  | fuel + 1, p =>
      match nextToken p with
      | .done => ([], false)
      | .tooLong => ([], true)
      | .token symbol rest =>
          let (symbols, tooLong) := tokensFrom fuel rest
          (symbol :: symbols, tooLong)

/-- All tokens of a text.  Each takes at least one byte of it. -/
def tokens (p : List UInt8) : List (List UInt8) × Bool := tokensFrom (p.length + 1) p

/-! ## The fuel suffices -/

theorem length_skipComment_le (p : List UInt8) : ∀ before last,
    (skipComment before last p).length ≤ p.length := by
  induction p with
  | nil => intro before last; simp [skipComment]
  | cons c p ih =>
      intro before last
      unfold skipComment
      split
      · simp
      · exact (ih last c).trans (Nat.le_succ _)

theorem length_skipJunk_le (p : List UInt8) : ∀ last, (skipJunk last p).length ≤ p.length := by
  induction p with
  | nil => intro last; simp [skipJunk]
  | cons c p ih =>
      intro last
      unfold skipJunk
      split
      · simp
      · exact (ih c).trans (Nat.le_succ _)

theorem length_copyQuoted_le (p : List UInt8) : ∀ i, (copyQuoted i p).2.length ≤ p.length := by
  induction p with
  | nil => intro i; simp [copyQuoted]
  | cons c p ih =>
      intro i
      unfold copyQuoted
      split
      · simp
      · exact (ih (i + 1)).trans (Nat.le_succ _)

theorem length_skipQuote_le (p : List UInt8) : (skipQuote p).length ≤ p.length := by
  cases p with
  | nil => simp [skipQuote]
  | cons c p =>
      simp only [skipQuote]
      split <;> simp

theorem length_copyToken_le (p : List UInt8) : ∀ i, (copyToken i p).2.length ≤ p.length := by
  induction p with
  | nil => intro i; simp [copyToken]
  | cons c p ih =>
      intro i
      unfold copyToken
      split
      · simp
      · split
        · calc (skipQuote (copyQuoted i p).2).length
            _ ≤ (copyQuoted i p).2.length := length_skipQuote_le _
            _ ≤ p.length := length_copyQuoted_le p i
            _ ≤ (c :: p).length := Nat.le_succ _
        · exact (ih (i + 1)).trans (Nat.le_succ _)

/-- A token takes at least the byte that it starts with. -/
theorem length_copyToken_lt {c : UInt8} (p : List UInt8) (hc : isSeperator c = false) :
    (copyToken 0 (c :: p)).2.length < (c :: p).length := by
  have hroom : ¬ symbolSize ≤ 0 := by decide
  unfold copyToken
  simp only [hc, hroom, Bool.false_eq_true, or_self, if_false]
  split
  · calc (skipQuote (copyQuoted 0 p).2).length
      _ ≤ (copyQuoted 0 p).2.length := length_skipQuote_le _
      _ ≤ p.length := length_copyQuoted_le p 0
      _ < (c :: p).length := Nat.lt_succ_self _
  · exact Nat.lt_succ_of_le (length_copyToken_le p _)

/-- A comment loses at least its first byte. -/
theorem length_skipComment_lt {c : UInt8} {p : List UInt8}
    (hopen : (str "<!--").isPrefixOf (c :: p) = true) :
    (skipComment 0 0 (c :: p)).length < (c :: p).length := by
  have hc : c = '<'.toUInt8 := by
    rw [List.isPrefixOf_iff_prefix] at hopen
    exact (List.cons_prefix_cons.mp hopen).1.symm
  subst hc
  exact Nat.lt_succ_of_le (length_skipComment_le p 0 _)

theorem length_skipJunk_lt {c : UInt8} {p : List UInt8}
    (hopen : (str "<?").isPrefixOf (c :: p) = true) :
    (skipJunk 0 (c :: p)).length < (c :: p).length := by
  have hc : c = '<'.toUInt8 := by
    rw [List.isPrefixOf_iff_prefix] at hopen
    exact (List.cons_prefix_cons.mp hopen).1.symm
  subst hc
  exact Nat.lt_succ_of_le (length_skipJunk_le p _)

theorem nextTokenFrom_eq {fuel fuel' : ℕ} {p : List UInt8} (hfuel : p.length < fuel)
    (hfuel' : p.length < fuel') : nextTokenFrom fuel p = nextTokenFrom fuel' p := by
  induction fuel generalizing fuel' p with
  | zero => omega
  | succ fuel ih =>
      obtain ⟨fuel', rfl⟩ : ∃ n, fuel' = n + 1 := ⟨fuel' - 1, by omega⟩
      simp only [nextTokenFrom]
      cases hp : p.dropWhile isSeperator with
      | nil => rfl
      | cons c q =>
          have hq : (c :: q).length ≤ p.length := by
            rw [← hp]
            exact (List.dropWhile_suffix _).length_le
          simp only
          split
          · rename_i hopen
            have hlt := length_skipComment_lt hopen
            exact ih (by omega) (by omega)
          · split
            · rename_i hopen
              have hlt := length_skipJunk_lt hopen
              exact ih (by omega) (by omega)
            · rfl

/-- The rest behind a token is shorter than the text. -/
theorem length_rest_lt {fuel : ℕ} {p symbol rest : List UInt8}
    (htoken : nextTokenFrom fuel p = .token symbol rest) : rest.length < p.length := by
  induction fuel generalizing p with
  | zero => cases htoken
  | succ fuel ih =>
      simp only [nextTokenFrom] at htoken
      cases hp : p.dropWhile isSeperator with
      | nil => rw [hp] at htoken; cases htoken
      | cons c q =>
          rw [hp] at htoken
          have hq : (c :: q).length ≤ p.length := by
            rw [← hp]
            exact (List.dropWhile_suffix _).length_le
          have hc : isSeperator c = false := by
            have := List.head?_dropWhile_not isSeperator p
            rw [hp] at this
            simpa using this
          simp only at htoken
          split at htoken
          · rename_i hopen
            exact (ih htoken).trans_le ((length_skipComment_lt hopen).le.trans hq)
          · split at htoken
            · rename_i hopen
              exact (ih htoken).trans_le ((length_skipJunk_lt hopen).le.trans hq)
            · split at htoken
              · cases htoken
                exact (length_copyToken_lt q hc).trans_le hq
              · cases htoken

theorem tokensFrom_eq {fuel fuel' : ℕ} {p : List UInt8} (hfuel : p.length < fuel)
    (hfuel' : p.length < fuel') : tokensFrom fuel p = tokensFrom fuel' p := by
  induction fuel generalizing fuel' p with
  | zero => omega
  | succ fuel ih =>
      obtain ⟨fuel', rfl⟩ : ∃ n, fuel' = n + 1 := ⟨fuel' - 1, by omega⟩
      simp only [tokensFrom]
      cases htoken : nextToken p with
      | done => rfl
      | tooLong => rfl
      | token symbol rest =>
          have hlt := length_rest_lt htoken
          simp only
          rw [ih (by omega : rest.length < fuel) (by omega : rest.length < fuel')]

/-- The tokens of a text are its first one and those of the rest. -/
theorem tokens_eq {p symbol rest : List UInt8} (htoken : nextToken p = .token symbol rest) :
    tokens p = (symbol :: (tokens rest).1, (tokens rest).2) := by
  have hlt := length_rest_lt htoken
  have hrest : tokensFrom p.length rest = tokens rest := tokensFrom_eq hlt (Nat.lt_succ_self _)
  calc tokens p = tokensFrom (p.length + 1) p := rfl
    _ = (symbol :: (tokensFrom p.length rest).1, (tokensFrom p.length rest).2) := by
      rw [tokensFrom, htoken]
    _ = (symbol :: (tokens rest).1, (tokens rest).2) := by rw [hrest]

end Uperf
