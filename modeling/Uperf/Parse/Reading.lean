import Uperf.Parse.Symbols
import Uperf.Parse.Spelling

/-!
# The symbols of a canonical text

Every word of a canonical text but the `>` becomes a symbol of its own: no two of
them are merged.
-/

namespace Uperf

open Lib

/-- The symbol of a word. -/
def Word.symbol : Word → Option Symbol
  | tag text => if text = str ">" then none else some ⟨tokenType text, text, .token⟩
  | assign key value =>
      some ⟨tokenType (Word.assign key value).token, value, .tail⟩

/-- The text of a symbol with which no token goes on. -/
structure Closed (text : List UInt8) : Prop where
  ne_nil : text ≠ []
  last : text.getLast? ≠ some '='.toUInt8
  ne_open : text ≠ str "<"
  ne_slash : text ≠ str "</"

/-- A word that becomes a symbol as it is. -/
inductive Tidy : Word → Prop
  | close : Tidy (.tag (str ">"))
  | tag {text : List UInt8} (hne : text ≠ str ">") (hhead : text.head? ≠ some '='.toUInt8)
      (hdollar : text.head? ≠ some '$'.toUInt8) (hequals : afterEquals text = none)
      (hclosed : Closed text) : Tidy (.tag text)
  | assign {key value : List UInt8} (hne : key ≠ []) (hequals : afterEquals key = none)
      (htype : tokenType (Word.assign key value).token ≠ .error)
      (hdollar : value.head? ≠ some '$'.toUInt8) (hclosed : Closed value) :
      Tidy (.assign key value)

theorem afterEquals_append {key rest : List UInt8} (hkey : afterEquals key = none) :
    afterEquals (key ++ '='.toUInt8 :: rest) = some rest := by
  induction key with
  | nil => simp [afterEquals]
  | cons c key ih =>
      rw [afterEquals] at hkey
      split at hkey
      · cases hkey
      · rename_i hc
        rw [List.cons_append, afterEquals, if_neg hc, ih hkey]

/-- Nothing is merged with a closed text but a token that begins with `=`. -/
theorem merges_closed {text token : List UInt8} (h : Closed text)
    (hhead : token.head? ≠ some '='.toUInt8) : merges text token = false := by
  simp [merges, hhead, h.last, h.ne_open, h.ne_slash]

theorem closed_start : Closed (str "START") := by
  constructor <;> decide

section

variable (host : Host)

/-- The symbol of a tidy word is that of its token alone. -/
theorem Tidy.freshSymbol {word : Word} (h : Tidy word) {s : Symbol} (hs : word.symbol = some s) :
    freshSymbol host word.token = (s, []) ∧ Closed s.text ∧ word.token ≠ str ">" ∧
      word.token.head? ≠ some '='.toUInt8 := by
  cases h with
  | close => simp [Word.symbol] at hs
  | @tag text hne hhead hdollar hequals hclosed =>
      rw [Word.symbol, if_neg hne, Option.some.injEq] at hs
      subst hs
      refine ⟨?_, hclosed, hne, hhead⟩
      have hsymbol : getSymbol host text = ((text, .token), []) := by
        simp [getSymbol, hequals, hdollar]
      unfold Uperf.freshSymbol
      simp only [Word.token, hsymbol]
      split
      · rename_i htype
        rw [htype]
      · rfl
  | @assign key value hne hequals htype hdollar hclosed =>
      cases hs
      have hsymbol : getSymbol host (Word.assign key value).token = ((value, .tail), []) := by
        simp [getSymbol, Word.token, afterEquals_append hequals, hdollar]
      obtain ⟨c, key, rfl⟩ := List.exists_cons_of_ne_nil hne
      refine ⟨?_, hclosed, ?_, ?_⟩
      · unfold Uperf.freshSymbol
        rw [hsymbol]
        split
        · rename_i herror
          exact absurd herror htype
        · rfl
      · intro heq
        have hlen := congrArg List.length heq
        have hone : (str ">").length = 1 := by decide
        simp [Word.token, hone] at hlen
      · rw [afterEquals] at hequals
        split at hequals
        · cases hequals
        · rename_i hc
          simpa [Word.token] using hc

/-- A state that no token goes on with. -/
def Symbols.Settled (st : Symbols) : Prop := Closed st.lastText

theorem Symbols.settled_start : ({} : Symbols).Settled := closed_start

theorem parseToken_tidy {word : Word} (h : Tidy word) {st : Symbols} (hst : st.Settled) :
    ∃ st' : Symbols, st'.Settled ∧ st'.list = st.list ++ word.symbol.toList ∧
      parseToken host (st, []) word.token = .ok (st', []) := by
  cases hs : word.symbol with
  | none =>
      have hclose : word.token = str ">" := by
        cases h with
        | close => rfl
        | tag hne hhead hdollar hequals hclosed => simp [Word.symbol, hne] at hs
        | assign hne hequals htype hdollar hclosed => cases hs
      refine ⟨st, hst, by simp, ?_⟩
      rw [parseToken, parseStep, if_pos hclose]
      rfl
  | some s =>
      obtain ⟨hfresh, hclosed, hne, hhead⟩ := h.freshSymbol host hs
      refine ⟨{ earlier := st.list, curr := some s }, hclosed, by simp [Symbols.list], ?_⟩
      have hbefore : ¬ (word.token.head? ≠ some '='.toUInt8 ∧ st.lastText = []) :=
        fun hbad => hst.ne_nil hbad.2
      have hmerge := merges_closed hst hhead
      rw [parseToken, parseStep, if_neg hne, if_neg hbefore, if_neg (by simp [hmerge]), hfresh]
      rfl

theorem loop_parseToken_tidy {words : List Word} (hwords : ∀ word ∈ words, Tidy word)
    {st : Symbols} (hst : st.Settled) :
    ∃ st' : Symbols, st'.list = st.list ++ words.filterMap Word.symbol ∧
      loop (parseToken host) (st, []) (words.map Word.token) = .ok (st', []) := by
  induction words generalizing st with
  | nil => exact ⟨st, by simp, rfl⟩
  | cons word rest ih =>
      obtain ⟨mid, hmid, hlist, hstep⟩ := parseToken_tidy host
        (hwords word List.mem_cons_self) hst
      obtain ⟨st', hlist', hloop⟩ := ih (fun w hw => hwords w (List.mem_cons_of_mem word hw)) hmid
      refine ⟨st', ?_, ?_⟩
      · rw [hlist', hlist, List.append_assoc]
        cases hs : word.symbol <;> simp [hs]
      · rw [List.map_cons, loop_cons_ok hstep, hloop]

/-- The symbols of a canonical text are those of its words. -/
theorem parse_printWords {words : List Word} (hspelled : ∀ word ∈ words, Spelled word)
    (htidy : ∀ word ∈ words, Tidy word) (sep : ℕ → Separator) (i : ℕ) :
    parse host (printWords sep i words) = .ok (words.filterMap Word.symbol, []) := by
  obtain ⟨st, hlist, hloop⟩ := loop_parseToken_tidy host htidy Symbols.settled_start
  rw [parse, tokens_printWords hspelled, hloop]
  simpa [Except.bind, Symbols.list] using hlist

end

end Uperf
