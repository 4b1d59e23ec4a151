import Uperf.Parse.Attaching
import Uperf.Parse.Lexemes
import Uperf.Parse.Variables

/-!
# Attributes in every spelling

An attribute may have separators on either side of its `=`.  Those before it make
a token of the key, with which the rest is merged.  Behind it the value would have
to be merged with a symbol whose text is empty and has been cut out of a token:
`parse` looks at the character before the text, and frees the inside of a token.
-/

namespace Uperf

open Lib

/-- An attribute as a profile may write it, with the separators before its key and on
either side of its `=`. -/
structure Attribute where
  type : TokenType
  key : String
  value : List UInt8
  gap : List UInt8
  before : List UInt8
  behind : List UInt8
  known : (type, key) ∈ keyTypes
  unquoted : quote ∉ value
  separators : ∀ c ∈ gap ++ before ++ behind, isSeperator c = true

/-- What a value stands for: itself, or the value of the variable that it names. -/
def attributeValue (host : Host) (value : List UInt8) : List UInt8 :=
  if value.head? = some '$'.toUInt8 then
    ((host.getenv value.tail).filter (· ≠ [])).getD value
  else value

/-- The errors about a value: it names a variable that is not set. -/
def unsetVariables (host : Host) (value : List UInt8) : ℕ :=
  if value.head? = some '$'.toUInt8 ∧ (host.getenv value.tail).getD [] = [] then 1 else 0

namespace Attribute

/-- The attribute in a profile. -/
def text (a : Attribute) : List UInt8 :=
  a.gap ++ (str a.key ++ (a.before ++ '='.toUInt8 :: (a.behind ++ quote :: (a.value ++ [quote]))))

/-- The part of the value that is read.  A key and a value in two tokens are cut at the
length of one. -/
def read (a : Attribute) : List UInt8 :=
  (folded a.value).take (symbolSize - 2 - (str a.key).length)

/-- The tokens of the attribute are not too long, and nothing is cut off that matters. -/
def Fits (host : Host) (a : Attribute) : Prop :=
  if a.before = [] then (str a.key).length + 1 + a.value.length < symbolSize
  else 1 + a.value.length < symbolSize ∧
    attributeValue host a.read = attributeValue host (folded a.value)

end Attribute

/-- A list of attributes in a profile. -/
def attributesText (attrs : List Attribute) : List UInt8 := attrs.flatMap Attribute.text

/-- What `build_worklist` looks at in a symbol. -/
def Symbol.shown (s : Symbol) : TokenType × List UInt8 := (s.type, s.text)

/-- The symbol that an attribute should become. -/
def Attribute.shown (host : Host) (a : Attribute) : TokenType × List UInt8 :=
  (a.type, attributeValue host (folded a.value))

/-- Between the symbols of the text before the attributes and those of the text behind them,
each attribute is a symbol with the type of its key and its value. -/
def Recognised (host : Host) (before : List UInt8) (attrs : List Attribute)
    (after : List UInt8) (list₁ list₂ : List Symbol) : Prop :=
  ∃ list errors, parse host (before ++ (attributesText attrs ++ after)) = .ok (list, errors) ∧
    list.map Symbol.shown =
      list₁.map Symbol.shown ++ (attrs.map (Attribute.shown host) ++ list₂.map Symbol.shown)

/-- The text has no token but `>`. -/
def OnlyClose (text : List UInt8) : Prop := ∀ token ∈ (tokens text).1, token = str ">"

instance (text : List UInt8) : Decidable (OnlyClose text) :=
  inferInstanceAs (Decidable (∀ token ∈ _, _))

/-- The attributes are spelled as the parser can read them: nothing stands behind an `=`,
they fit, a value that another symbol follows is closed, and there is room for the errors
about them. -/
structure AttributesFit (host : Host) (attrs : List Attribute) (after : List UInt8)
    (others : ℕ) : Prop where
  joined : ∀ a ∈ attrs, a.behind = []
  fits : ∀ a ∈ attrs, a.Fits host
  closed : ∀ a ∈ if OnlyClose after then attrs.dropLast else attrs,
    Closed (attributeValue host (folded a.value))
  room : others + (attrs.map fun a => unsetVariables host a.read).sum ≤ maxErrors

/-! ## Values -/

section

variable {host : Host} {value : List UInt8}

/-- Only an empty value stands for an empty text. -/
theorem attributeValue_eq_nil_iff : attributeValue host value = [] ↔ value = [] := by
  unfold attributeValue
  split
  · rename_i hhead
    cases value with
    | nil => cases hhead
    | cons c rest =>
        cases hget : host.getenv (c :: rest).tail with
        | none => simp
        | some tmp => by_cases htmp : tmp = [] <;> simp [Option.filter, htmp]
  · rfl

/-- What `get_symbol` makes of a key with a value. -/
theorem getSymbol_assign {key : List UInt8} (hequals : afterEquals key = none) (host : Host)
    (value : List UInt8) :
    ∃ origin errors, getSymbol host (key ++ '='.toUInt8 :: value) =
        ((attributeValue host value, origin), errors) ∧ origin ≠ .token ∧
      errors.length = unsetVariables host value := by
  have hvalue := @afterEquals_append _ value hequals
  unfold getSymbol attributeValue unsetVariables
  simp only [hvalue, Option.getD_some, Option.isSome_some, if_true]
  by_cases hhead : value.head? = some '$'.toUInt8
  · simp only [hhead, if_true, true_and]
    cases hget : host.getenv value.tail with
    | none => exact ⟨.tail, _, rfl, by decide, by simp⟩
    | some tmp =>
        cases tmp with
        | nil => exact ⟨.tail, _, rfl, by decide, by simp⟩
        | cons c rest =>
            exact ⟨.environment value.tail, [], by simp [Option.filter], nofun, by simp⟩
  · simp only [hhead, if_false, false_and]
    exact ⟨.tail, [], rfl, by decide, rfl⟩

end

/-! ## One attribute -/

namespace Attribute

variable (a : Attribute)

theorem keyText : KeyText (str a.key) := keyText_of_mem _ a.known

theorem type_ne_error : a.type ≠ .error := by
  have hall : ∀ key ∈ keyTypes, key.1 ≠ .error := by decide
  exact hall _ a.known

theorem gap_separators : ∀ c ∈ a.gap, isSeperator c = true := fun c hc =>
  a.separators c (List.mem_append_left _ (List.mem_append_left _ hc))

theorem before_separators : ∀ c ∈ a.before, isSeperator c = true := fun c hc =>
  a.separators c (List.mem_append_left _ (List.mem_append_right _ hc))

theorem behind_separators : ∀ c ∈ a.behind, isSeperator c = true := fun c hc =>
  a.separators c (List.mem_append_right _ hc)

theorem length_key : (str a.key).length ≤ 10 := a.keyText.short

/-- The key is a word. -/
theorem wordText_key : WordText (str a.key) := .of_head? a.keyText.wordChar a.keyText.head.1

theorem wordText_equals : WordText ['='.toUInt8] :=
  .of_head? (by decide +kernel) (by decide)

/-- A key that separators follow is a token. -/
theorem nextToken_key {rest : List UInt8} (hrest : ∀ c ∈ rest.head?, isSeperator c = true) :
    nextToken (str a.key ++ rest) = .token (str a.key) rest := by
  have hshort := a.length_key
  have hsize : symbolSize = 1024 := rfl
  have htoken := nextToken_plain rest a.wordText_key a.keyText.ne_nil (by omega) hrest
  rwa [a.keyText.lower] at htoken

/-- The tokens of an attribute without separators. -/
theorem tokens_joined (hbefore : a.before = []) (hbehind : a.behind = []) (rest : List UInt8) :
    tokens (a.text ++ rest) =
      if (str a.key).length + 1 + a.value.length < symbolSize then
        ((str a.key ++ '='.toUInt8 :: folded a.value) :: (tokens rest).1, (tokens rest).2)
      else ([], true) := by
  have htext : a.text ++ rest = a.gap ++ (attributeText a.key a.value ++ rest) := by
    simp [text, attributeText, hbefore, hbehind]
  have htoken := nextToken_attributeText a.known rest a.unquoted
  rw [htext, tokens_separators a.gap_separators]
  split at htoken
  · rename_i hfits
    rw [if_pos hfits]
    exact tokens_eq htoken
  · rename_i hlong
    rw [if_neg hlong]
    exact tokens_of_tooLong htoken

/-- The tokens of an attribute with separators before the `=`. -/
theorem tokens_apart (hbefore : a.before ≠ []) (hbehind : a.behind = []) (rest : List UInt8) :
    tokens (a.text ++ rest) =
      if 1 + a.value.length < symbolSize then
        (str a.key :: ('='.toUInt8 :: folded a.value) :: (tokens rest).1, (tokens rest).2)
      else ([str a.key], true) := by
  have htext : a.text ++ rest = a.gap ++ (str a.key ++ (a.before ++
      (['='.toUInt8] ++ quote :: (a.value ++ quote :: rest)))) := by
    simp [text, hbehind]
  have hhead := head?_separators a.before_separators hbefore
    (['='.toUInt8] ++ quote :: (a.value ++ quote :: rest))
  have htoken := nextToken_quoted rest wordText_equals a.unquoted
  rw [htext, tokens_separators a.gap_separators, tokens_eq (a.nextToken_key hhead),
    tokens_separators a.before_separators]
  have hone : ['='.toUInt8].length = 1 := rfl
  rw [hone] at htoken
  split at htoken
  · rename_i hfits
    rw [tokens_eq htoken, if_pos hfits]
    rfl
  · rename_i hlong
    rw [tokens_of_tooLong htoken, if_neg hlong]

/-- The tokens of an attribute with separators behind the `=`: the value is a token of its
own. -/
theorem tokens_behind (hbehind : a.behind ≠ []) (rest : List UInt8) :
    ∃ first later tooLong, tokens (a.text ++ rest) = (first ++ later, tooLong) ∧
      (first = [str a.key ++ ['='.toUInt8]] ∨ first = [str a.key, ['='.toUInt8]]) ∧
      (a.value = [] → [] ∈ later) := by
  have hsize : symbolSize = 1024 := rfl
  have hshort := a.length_key
  have hquoted : a.value = [] → ([] : List UInt8) ∈
      (tokens (quote :: (a.value ++ quote :: rest))).1 := by
    intro hnil
    have htoken := @nextToken_quoted [] [] rest ⟨nofun, by decide, by decide⟩ List.not_mem_nil
    rw [if_pos (by decide)] at htoken
    have htokens : tokens (quote :: quote :: rest) = ([] :: (tokens rest).1, (tokens rest).2) :=
      tokens_eq htoken
    rw [hnil, List.nil_append, htokens]
    exact List.mem_cons_self
  have hhead := head?_separators a.behind_separators hbehind
    (quote :: (a.value ++ quote :: rest))
  by_cases hbefore : a.before = []
  · have htext : a.text ++ rest = a.gap ++ ((str a.key ++ ['='.toUInt8]) ++
        (a.behind ++ quote :: (a.value ++ quote :: rest))) := by
      simp [text, hbefore]
    have hword : WordText (str a.key ++ ['='.toUInt8]) := by
      apply WordText.of_head?
      · intro c hc
        rcases List.mem_append.mp hc with hc | hc
        · exact a.keyText.wordChar c hc
        · exact wordText_equals.wordChar c hc
      · rw [List.head?_append_of_ne_nil _ a.keyText.ne_nil]
        exact a.keyText.head.1
    have hlower : (str a.key ++ ['='.toUInt8]).map tolower = str a.key ++ ['='.toUInt8] := by
      rw [List.map_append, a.keyText.lower]
      rfl
    have htoken := nextToken_plain _ hword (by simp) (by simp; omega) hhead
    rw [hlower] at htoken
    refine ⟨_, _, (tokens (quote :: (a.value ++ quote :: rest))).2, ?_, Or.inl rfl, hquoted⟩
    rw [htext, tokens_separators a.gap_separators, tokens_eq htoken,
      tokens_separators a.behind_separators]
    rfl
  · have htext : a.text ++ rest = a.gap ++ (str a.key ++ (a.before ++
        (['='.toUInt8] ++ (a.behind ++ quote :: (a.value ++ quote :: rest))))) := by
      simp [text]
    have hkey := head?_separators a.before_separators hbefore
      (['='.toUInt8] ++ (a.behind ++ quote :: (a.value ++ quote :: rest)))
    have htoken := nextToken_plain _ wordText_equals (by simp) (by decide) hhead
    refine ⟨_, _, (tokens (quote :: (a.value ++ quote :: rest))).2, ?_, Or.inr rfl, hquoted⟩
    rw [htext, tokens_separators a.gap_separators, tokens_eq (a.nextToken_key hkey),
      tokens_separators a.before_separators, tokens_eq htoken,
      tokens_separators a.behind_separators]
    rfl

/-- What is cut off of an attribute that fits does not matter. -/
theorem Fits.value_eq {host : Host} {a : Attribute} (h : a.Fits host) :
    attributeValue host a.read = attributeValue host (folded a.value) := by
  unfold Fits at h
  split at h
  · have hsize : symbolSize = 1024 := rfl
    rw [read, List.take_of_length_le (by rw [length_folded]; omega)]
  · exact h.2

section

variable (host : Host) {st : Symbols}

/-- A key with a text in one token becomes a symbol. -/
theorem attach_joined (hst : st.Settled) (value : List UInt8) :
    ∃ curr errors, attach host st [str a.key ++ '='.toUInt8 :: value] =
        .ok ({ earlier := st.list, curr := some curr }, errors) ∧
      curr.shown = (a.type, attributeValue host value) ∧ curr.origin ≠ .token ∧
      errors.length = unsetVariables host value := by
  obtain ⟨origin, errors, hsymbol, horigin, hlength⟩ :=
    getSymbol_assign a.keyText.equals host value
  have htype := tokenType_of_key a.known value
  obtain ⟨c, key, hkey⟩ := List.exists_cons_of_ne_nil a.keyText.ne_nil
  have hhead : (str a.key ++ '='.toUInt8 :: value).head? ≠ some '='.toUInt8 := by
    rw [List.head?_append_of_ne_nil _ a.keyText.ne_nil]
    exact a.keyText.head.2.1
  have hclose : str a.key ++ '='.toUInt8 :: value ≠ str ">" := by
    intro hclose
    have hfirst := a.keyText.head.2.2.1
    rw [← List.head?_append_of_ne_nil _ a.keyText.ne_nil, hclose] at hfirst
    exact hfirst rfl
  have hfresh : freshSymbol host (str a.key ++ '='.toUInt8 :: value) =
      (⟨a.type, attributeValue host value, origin⟩, errors) := by
    unfold freshSymbol
    rw [htype, hsymbol]
    split
    · rename_i herror
      exact absurd herror a.type_ne_error
    · rfl
  refine ⟨⟨a.type, attributeValue host value, origin⟩, errors, ?_, rfl, horigin, hlength⟩
  refine attach_cons_ok_iff.mpr ⟨_, errors, [], ?_, rfl, (List.append_nil _).symm⟩
  rw [parseStep_fresh hst hclose hhead, hfresh]

theorem tokenType_key : tokenType (str a.key) = .error := by
  have hall : ∀ key ∈ keyTypes, tokenType (str key.2) = .error := by decide +kernel
  exact hall _ a.known

/-- A key alone is an unknown symbol. -/
theorem parseStep_key (hst : st.Settled) : parseStep host st (str a.key) =
    .ok ({ earlier := st.list, curr := some ⟨.error, str a.key, .token⟩ }, []) := by
  have hfresh : freshSymbol host (str a.key) = (⟨.error, str a.key, .token⟩, []) := by
    unfold freshSymbol
    rw [a.tokenType_key]
  have hclose : str a.key ≠ str ">" := by
    intro hclose
    have hfirst := a.keyText.head.2.2.1
    rw [hclose] at hfirst
    exact hfirst rfl
  rw [parseStep_fresh hst hclose a.keyText.head.2.1, hfresh]

/-- A key and a text in two tokens become one symbol, of which the text may be cut. -/
theorem attach_apart (hst : st.Settled) (value : List UInt8) :
    ∃ curr errors, attach host st [str a.key, '='.toUInt8 :: value] =
        .ok ({ earlier := st.list, curr := some curr }, errors) ∧
      curr.shown = (a.type, attributeValue host
        (value.take (symbolSize - 2 - (str a.key).length))) ∧
      curr.origin ≠ .token ∧ errors.length =
        unsetVariables host (value.take (symbolSize - 2 - (str a.key).length)) := by
  have hsize : symbolSize = 1024 := rfl
  have hshort := a.length_key
  obtain ⟨origin, errors, hsymbol, horigin, hlength⟩ := getSymbol_assign a.keyText.equals host
    (value.take (symbolSize - 2 - (str a.key).length))
  have htake : (str a.key ++ '='.toUInt8 :: value).take (symbolSize - 1) =
      str a.key ++ '='.toUInt8 :: value.take (symbolSize - 2 - (str a.key).length) := by
    have hrest : symbolSize - 1 - (str a.key).length =
        (symbolSize - 2 - (str a.key).length) + 1 := by omega
    rw [List.take_append, List.take_of_length_le (by omega), hrest, List.take_succ_cons]
  have hmerged : mergedSymbol host ⟨.error, str a.key, .token⟩ ('='.toUInt8 :: value) =
      (⟨a.type, attributeValue host (value.take (symbolSize - 2 - (str a.key).length)), origin⟩,
        errors) := by
    unfold mergedSymbol
    simp only [htake, hsymbol]
    rw [tokenType_of_key a.known]
  refine ⟨⟨a.type, attributeValue host (value.take (symbolSize - 2 - (str a.key).length)),
    origin⟩, errors, ?_, rfl, horigin, hlength⟩
  refine attach_cons_ok_iff.mpr ⟨_, [], errors, a.parseStep_key host hst, ?_, rfl⟩
  refine attach_cons_ok_iff.mpr ⟨_, errors, [], ?_, rfl, (List.append_nil _).symm⟩
  rw [parseStep_equals rfl rfl rfl, hmerged]

end

end Attribute

/-! ## A list of attributes -/

/-- From symbols `st` on, with `others` errors elsewhere, the attributes are recognised. -/
def RecognisedFrom (host : Host) (st : Symbols) (attrs : List Attribute) (after : List UInt8)
    (list₂ : List Symbol) (others : ℕ) : Prop :=
  ∃ st' errors, attachScan host st (tokens (attributesText attrs ++ after)) = .ok (st', errors) ∧
    st'.list.map Symbol.shown = st.list.map Symbol.shown ++
      (attrs.map (Attribute.shown host) ++ list₂.map Symbol.shown) ∧
    others + errors.length ≤ maxErrors

section

variable {host : Host} {st st₂ : Symbols} {a : Attribute} {rest : List Attribute}
  {after : List UInt8} {errors errors₂ : List ErrorText} {curr : Symbol} {others : ℕ}
  {toks : List (List UInt8)}

theorem attributesFit_nil_iff : AttributesFit host [] after others ↔ others ≤ maxErrors := by
  constructor
  · exact fun h => h.room
  · intro hroom
    exact ⟨nofun, nofun, by simp, hroom⟩

theorem attributesFit_cons_iff :
    AttributesFit host (a :: rest) after others ↔
      a.behind = [] ∧ a.Fits host ∧
        (rest ≠ [] ∨ ¬ OnlyClose after → Closed (attributeValue host (folded a.value))) ∧
        AttributesFit host rest after (others + unsetVariables host a.read) := by
  have hclosed : (∀ b ∈ if OnlyClose after then (a :: rest).dropLast else a :: rest,
        Closed (attributeValue host (folded b.value))) ↔
      (rest ≠ [] ∨ ¬ OnlyClose after → Closed (attributeValue host (folded a.value))) ∧
        ∀ b ∈ if OnlyClose after then rest.dropLast else rest,
          Closed (attributeValue host (folded b.value)) := by
    by_cases honly : OnlyClose after
    · cases rest with
      | nil => simp [honly]
      | cons b rest => simp [honly]
    · simp [honly]
  constructor
  · intro h
    obtain ⟨hfirst, hlater⟩ := hclosed.mp h.closed
    obtain ⟨hjoined, hjoined'⟩ := List.forall_mem_cons.mp h.joined
    obtain ⟨hfits, hfits'⟩ := List.forall_mem_cons.mp h.fits
    have hroom := h.room
    rw [List.map_cons, List.sum_cons, ← Nat.add_assoc] at hroom
    exact ⟨hjoined, hfits, hfirst, hjoined', hfits', hlater, hroom⟩
  · rintro ⟨hjoined, hfits, hfirst, h⟩
    constructor
    · exact List.forall_mem_cons.mpr ⟨hjoined, h.joined⟩
    · exact List.forall_mem_cons.mpr ⟨hfits, h.fits⟩
    · exact hclosed.mpr ⟨hfirst, h.closed⟩
    · rw [List.map_cons, List.sum_cons, ← Nat.add_assoc]
      exact h.room

/-- Behind a symbol whose text was cut out of a token the rest is read as behind settled
symbols, if the text is closed; else nothing but `>` may follow. -/
theorem recognisedFrom_behind_iff
    (hafter : attachScan host {} (tokens after) = .ok (st₂, errors₂))
    (hcurr : st.curr = some curr) (horigin : curr.origin ≠ .token)
    (ih : st.Settled → (RecognisedFrom host st rest after st₂.list others ↔
      AttributesFit host rest after (others + errors₂.length))) :
    RecognisedFrom host st rest after st₂.list others ↔
      (rest ≠ [] ∨ ¬ OnlyClose after → Closed curr.text) ∧
        AttributesFit host rest after (others + errors₂.length) := by
  by_cases hclosed : Closed curr.text
  · have hsettled : st.Settled := by
      rw [Symbols.Settled, Symbols.lastText, hcurr]
      exact hclosed
    rw [ih hsettled]
    exact (and_iff_right fun _ => hclosed).symm
  have hstuck : st.Stuck := ⟨curr, hcurr, horigin, hclosed⟩
  obtain ⟨new, hattach, heq⟩ : ∃ new, attach host {} (tokens after).1 = .ok (st₂, new) ∧
      errors₂ = if (tokens after).2 then new ++ [str "token too long."] else new :=
    attachScan_ok_iff.mp hafter
  have hnil : st₂.list = [] ↔ OnlyClose after := list_eq_nil_iff_of_attach hattach
  have hscan : OnlyClose after → attachScan host st (tokens after) = .ok (st, errors₂) := by
    intro honly
    rw [attach_close honly] at hattach
    cases hattach
    exact attachScan_ok_iff.mpr ⟨[], attach_close honly, heq⟩
  constructor
  · rintro ⟨st', errors, hread, hlist, hroom⟩
    obtain ⟨new', hattach', -⟩ := attachScan_ok_iff.mp hread
    obtain ⟨-, rfl, -⟩ := hstuck.attach_ok_iff.mp hattach'
    have hnone : rest = [] ∧ st₂.list = [] := by simpa using hlist
    obtain ⟨rfl, hlist₂⟩ := hnone
    have honly := hnil.mp hlist₂
    have hsame := hread.symm.trans (hscan honly)
    cases hsame
    refine ⟨fun h => ?_, attributesFit_nil_iff.mpr hroom⟩
    rcases h with h | h
    · exact absurd rfl h
    · exact absurd honly h
  · rintro ⟨hfollowed, hfit⟩
    obtain ⟨hrest, honly⟩ : rest = [] ∧ OnlyClose after := by
      by_contra hsome
      rw [not_and_or] at hsome
      exact hclosed (hfollowed hsome)
    subst hrest
    exact ⟨st, errors₂, hscan honly, by simp [hnil.mpr honly], attributesFit_nil_iff.mp hfit⟩

/-- An attribute that has become a symbol is recognised if the text of the symbol is its
value, and the rest is recognised behind it. -/
theorem recognisedFrom_cons_iff (toks : List (List UInt8)) {list₂ : List Symbol}
    (htokens : tokens (a.text ++ (attributesText rest ++ after)) =
      (toks ++ (tokens (attributesText rest ++ after)).1,
        (tokens (attributesText rest ++ after)).2))
    (hattach : attach host st toks = .ok ({ earlier := st.list, curr := some curr }, errors))
    (hshown : curr.shown = (a.type, attributeValue host a.read)) (horigin : curr.origin ≠ .token)
    (herrors : errors.length = unsetVariables host a.read) :
    RecognisedFrom host st (a :: rest) after list₂ others ↔
      attributeValue host a.read = attributeValue host (folded a.value) ∧
        RecognisedFrom host { earlier := st.list, curr := some curr } rest after list₂
          (others + unsetVariables host a.read) := by
  have htext : attributesText (a :: rest) ++ after =
      a.text ++ (attributesText rest ++ after) := by
    simp [attributesText]
  have hmid : Symbols.list { earlier := st.list, curr := some curr } = st.list ++ [curr] := rfl
  have hcount : ∀ later : List ErrorText,
      others + (errors ++ later).length =
        others + unsetVariables host a.read + later.length := by
    intro later
    rw [List.length_append, herrors, Nat.add_assoc]
  unfold RecognisedFrom
  rw [htext, htokens, hmid]
  constructor
  · rintro ⟨st', all, hread, hlist, hroom⟩
    obtain ⟨mid, new, later, hfirst, hlater, rfl⟩ := attachScan_append_ok_iff.mp hread
    cases hattach.symm.trans hfirst
    obtain ⟨new', hattach', -⟩ := attachScan_ok_iff.mp hlater
    obtain ⟨tail, htail⟩ := list_prefix_of_attach rfl horigin hattach'
    -- the symbol is the first one behind the others
    have hsymbol : curr.shown = a.shown host := by
      rw [← htail, hmid] at hlist
      simp only [List.map_append, List.map_cons, List.append_assoc, List.cons_append,
        List.nil_append, List.append_cancel_left_eq, List.cons.injEq] at hlist
      exact hlist.1
    rw [hshown, Attribute.shown, Prod.mk.injEq] at hsymbol
    refine ⟨hsymbol.2, st', later, hlater, ?_, ?_⟩
    · rw [hlist]
      simp [hshown, hsymbol.2, Attribute.shown]
    · rw [← hcount]
      exact hroom
  · rintro ⟨hvalue, st', later, hlater, hlist, hroom⟩
    refine ⟨st', errors ++ later, ?_, ?_, ?_⟩
    · exact attachScan_append_ok_iff.mpr ⟨_, errors, later, hattach, hlater, rfl⟩
    · rw [hlist]
      simp [hshown, hvalue, Attribute.shown]
    · rw [hcount]
      exact hroom

/-- A text that ends in the middle of an attribute does not have it as a symbol. -/
theorem not_recognisedFrom_cut {list₂ : List Symbol}
    (htokens : tokens (a.text ++ (attributesText rest ++ after)) = (toks, true))
    (hattach : ∀ st' new, attach host st toks = .ok (st', new) →
      st'.list = st.list ∨ ∃ curr : Symbol, st'.list = st.list ++ [curr] ∧ curr.type = .error) :
    ¬ RecognisedFrom host st (a :: rest) after list₂ others := by
  rintro ⟨st', errors, hread, hlist, -⟩
  have htext : attributesText (a :: rest) ++ after =
      a.text ++ (attributesText rest ++ after) := by
    simp [attributesText]
  rw [htext, htokens] at hread
  obtain ⟨new, hattach', -⟩ := attachScan_ok_iff.mp hread
  obtain hsame | ⟨curr, hone, htype⟩ := hattach st' new hattach'
  · rw [hsame] at hlist
    simp at hlist
  · rw [hone] at hlist
    simp only [List.map_append, List.map_cons, List.cons_append, List.append_cancel_left_eq,
      List.cons.injEq, Symbol.shown, Attribute.shown, Prod.mk.injEq] at hlist
    exact a.type_ne_error (hlist.1.1.symm.trans htype)

/-- With separators behind the `=` the value cannot be read. -/
theorem not_recognisedFrom_behind {list₂ : List Symbol} (hst : st.Settled)
    (hbehind : a.behind ≠ []) : ¬ RecognisedFrom host st (a :: rest) after list₂ others := by
  rintro ⟨st', errors, hread, hlist, -⟩
  have htext : attributesText (a :: rest) ++ after =
      a.text ++ (attributesText rest ++ after) := by
    simp [attributesText]
  obtain ⟨first, later, tooLong, htokens, hfirst, hempty⟩ :=
    a.tokens_behind hbehind (attributesText rest ++ after)
  have hnil : attributeValue host [] = [] := attributeValue_eq_nil_iff.mpr rfl
  have hkey : ∃ curr new, attach host st first =
      .ok ({ earlier := st.list, curr := some curr }, new) ∧ curr.shown = (a.type, []) ∧
        curr.origin ≠ .token := by
    rcases hfirst with rfl | rfl
    · obtain ⟨curr, new, hattach, hshown, horigin, -⟩ := a.attach_joined host hst []
      exact ⟨curr, new, hattach, hnil ▸ hshown, horigin⟩
    · obtain ⟨curr, new, hattach, hshown, horigin, -⟩ := a.attach_apart host hst []
      rw [List.take_nil, hnil] at hshown
      exact ⟨curr, new, hattach, hshown, horigin⟩
  obtain ⟨curr, new, hattach, hshown, horigin⟩ := hkey
  rw [Symbol.shown, Prod.mk.injEq] at hshown
  rw [htext, htokens] at hread
  obtain ⟨mid, new', later', hfirst', hlater, -⟩ := attachScan_append_ok_iff.mp hread
  cases hattach.symm.trans hfirst'
  have hstuck : Symbols.Stuck { earlier := st.list, curr := some curr } :=
    ⟨curr, rfl, horigin, fun hclosed => hclosed.ne_nil hshown.2⟩
  obtain ⟨new'', hattach', -⟩ := attachScan_ok_iff.mp hlater
  obtain ⟨hclose, rfl, -⟩ := hstuck.attach_ok_iff.mp hattach'
  have hvalue : attributeValue host (folded a.value) = [] := by
    simp only [Symbols.list, Option.toList_some, List.map_append, List.map_cons, List.cons_append,
      List.append_cancel_left_eq, List.cons.injEq, Symbol.shown, Attribute.shown,
      Prod.mk.injEq] at hlist
    exact hlist.1.2.symm.trans hshown.2
  have hmem := hempty (folded_eq_nil_iff.mp (attributeValue_eq_nil_iff.mp hvalue))
  exact absurd (hclose [] hmem) (by decide)

/-- An attribute with nothing behind its `=` becomes a symbol, if it fits. -/
theorem recognisedFrom_joined_iff (hst : st.Settled) (hbehind : a.behind = [])
    (rest : List Attribute) (after : List UInt8) (list₂ : List Symbol) (others : ℕ) :
    ∃ curr : Symbol, curr.shown = (a.type, attributeValue host a.read) ∧ curr.origin ≠ .token ∧
      (RecognisedFrom host st (a :: rest) after list₂ others ↔ a.Fits host ∧
        attributeValue host a.read = attributeValue host (folded a.value) ∧
        RecognisedFrom host { earlier := st.list, curr := some curr } rest after list₂
          (others + unsetVariables host a.read)) := by
  by_cases hbefore : a.before = []
  · have htokens := a.tokens_joined hbefore hbehind (attributesText rest ++ after)
    rw [Attribute.Fits, if_pos hbefore]
    obtain ⟨curr, errors, hattach, hshown, horigin, herrors⟩ :=
      a.attach_joined host hst a.read
    refine ⟨curr, hshown, horigin, ?_⟩
    split at htokens
    · rename_i hfits
      have hread : folded a.value = a.read := by
        have hsize : symbolSize = 1024 := rfl
        rw [Attribute.read, List.take_of_length_le (by rw [length_folded]; omega)]
      rw [hread] at htokens
      rw [recognisedFrom_cons_iff [_] htokens hattach hshown horigin herrors]
      exact (and_iff_right hfits).symm
    · rename_i hlong
      refine iff_of_false ?_ fun h => hlong h.1
      apply not_recognisedFrom_cut htokens
      intro st' new hattach
      cases hattach
      exact Or.inl rfl
  · have htokens := a.tokens_apart hbefore hbehind (attributesText rest ++ after)
    rw [Attribute.Fits, if_neg hbefore]
    obtain ⟨curr, errors, hattach, hshown, horigin, herrors⟩ :=
      a.attach_apart host hst (folded a.value)
    refine ⟨curr, hshown, horigin, ?_⟩
    split at htokens
    · rename_i hfits
      rw [recognisedFrom_cons_iff [_, _] htokens hattach hshown horigin herrors]
      constructor
      · exact fun h => ⟨⟨hfits, h.1⟩, h⟩
      · exact fun h => h.2
    · rename_i hlong
      refine iff_of_false ?_ fun h => hlong h.1.1
      apply not_recognisedFrom_cut htokens
      intro st' new hattach
      obtain ⟨mid, new', later, hstep, hrest, -⟩ := attach_cons_ok_iff.mp hattach
      cases (a.parseStep_key host hst).symm.trans hstep
      cases hrest
      exact Or.inr ⟨_, rfl, rfl⟩

/-- The attributes are recognised exactly if they are spelled so. -/
theorem recognisedFrom_iff (hafter : attachScan host {} (tokens after) = .ok (st₂, errors₂))
    (attrs : List Attribute) (hst : st.Settled) :
    RecognisedFrom host st attrs after st₂.list others ↔
      AttributesFit host attrs after (others + errors₂.length) := by
  induction attrs generalizing st others with
  | nil =>
      rw [attributesFit_nil_iff]
      obtain ⟨st₁, hscan, hlist⟩ := attachScan_settled hafter hst
      constructor
      · rintro ⟨st', errors, hread, -, hroom⟩
        cases hscan.symm.trans hread
        exact hroom
      · intro hroom
        exact ⟨st₁, errors₂, hscan, by simp [hlist], hroom⟩
  | cons a rest ih =>
      rw [attributesFit_cons_iff]
      by_cases hbehind : a.behind = []
      · obtain ⟨curr, hshown, horigin, hiff⟩ :=
          @recognisedFrom_joined_iff host st a hst hbehind rest after st₂.list others
        rw [Symbol.shown, Prod.mk.injEq] at hshown
        rw [hiff, recognisedFrom_behind_iff hafter rfl horigin fun hmid => ih hmid, hshown.2,
          and_iff_right hbehind, Nat.add_right_comm]
        refine and_congr_right fun hfits => ?_
        have hvalue := hfits.value_eq
        rw [hvalue]
        exact and_iff_right rfl
      · exact iff_of_false (not_recognisedFrom_behind hst hbehind) fun h => hbehind h.1

end

/-! ## A tag with attributes -/

/-- The tags that have attributes. -/
def tagStarts : List (TokenType × String) :=
  [(.profileStart, "<profile"), (.groupStart, "<group"), (.txnStart, "<transaction"),
    (.flowopStart, "<flowop")]

theorem closed_tagStart : ∀ tag ∈ tagStarts, Closed (str tag.2) := by
  have hall : ∀ tag ∈ tagStarts, str tag.2 ≠ [] ∧ (str tag.2).getLast? ≠ some '='.toUInt8 ∧
      str tag.2 ≠ str "<" ∧ str tag.2 ≠ str "</" := by decide +kernel
  intro tag htag
  obtain ⟨hne, hlast, hopen, hslash⟩ := hall tag htag
  exact ⟨hne, hlast, hopen, hslash⟩

/-- The attributes of a tag are recognised exactly if nothing stands behind an `=`, they
fit, and the values that another symbol follows are closed. -/
theorem recognised_iff {host : Host} {before after : List UInt8} {attrs : List Attribute}
    {ts : List (List UInt8)} {list₁ list₂ : List Symbol} {errors₁ errors₂ : List ErrorText}
    (hbefore : Lexed before ts false) (hparse₁ : parse host before = .ok (list₁, errors₁))
    (htag : ∃ tag ∈ tagStarts, list₁.getLast? = some ⟨tag.1, str tag.2, .token⟩)
    (hparse₂ : parse host after = .ok (list₂, errors₂)) :
    Recognised host before attrs after list₁ list₂ ↔
      AttributesFit host attrs after (errors₁.length + errors₂.length) := by
  obtain ⟨st₁, hscan₁, rfl, -⟩ := parse_ok_iff.mp hparse₁
  obtain ⟨st₂, hscan₂, rfl, -⟩ := parse_ok_iff.mp hparse₂
  rw [hbefore.tokens_eq] at hscan₁
  obtain ⟨new, hattach, heq⟩ := attachScan_ok_iff.mp hscan₁
  rw [if_neg (by decide)] at heq
  subst heq
  obtain ⟨tag, hmem, hlast⟩ := htag
  have hcurr := curr_of_getLast? hattach hlast
  have hsettled : st₁.Settled := by
    rw [Symbols.Settled, Symbols.lastText, hcurr]
    exact closed_tagStart tag hmem
  rw [← recognisedFrom_iff hscan₂ attrs hsettled]
  unfold Recognised RecognisedFrom
  have hread := hbefore.tokens_append (attributesText attrs ++ after)
  simp only [Bool.false_eq_true, if_false] at hread
  constructor
  · rintro ⟨list, errors, hparse, hlist⟩
    obtain ⟨st', hscan, rfl, hroom⟩ := parse_ok_iff.mp hparse
    rw [hread] at hscan
    obtain ⟨mid, new', later, hfirst, hlater, rfl⟩ := attachScan_append_ok_iff.mp hscan
    cases hattach.symm.trans hfirst
    rw [List.length_append] at hroom
    exact ⟨st', later, hlater, hlist, hroom⟩
  · rintro ⟨st', later, hlater, hlist, hroom⟩
    refine ⟨st'.list, errors₁ ++ later, ?_, hlist⟩
    rw [← List.length_append] at hroom
    refine parse_ok_iff.mpr ⟨st', ?_, rfl, hroom⟩
    rw [hread]
    exact attachScan_append_ok_iff.mpr ⟨st₁, errors₁, later, hattach, hlater, rfl⟩

/-! ## Two spellings -/

/-- The number of threads of a group, with separators around the `=`. -/
def threadsAttribute (before behind : List Separator) : Attribute where
  type := .nthreads
  key := "nthreads"
  value := str "4"
  gap := []
  before := before.map Separator.byte
  behind := behind.map Separator.byte
  known := by decide
  unquoted := by decide
  separators := by
    intro c hc
    simp only [List.nil_append, ← List.map_append, List.mem_map] at hc
    obtain ⟨s, -, rfl⟩ := hc
    exact isSeperator_byte s

/-- What is read of `<group `. -/
theorem lexed_group : Lexed (str "<group ") [str "<group"] false := by
  have hword : WordText (str "<group") := ⟨List.all_eq_true.mp rfl, rfl, rfl⟩
  exact .word hword (by decide) (by decide) ⟨32, [], rfl, rfl⟩ (.separator rfl .nil)

/-- The symbol of the tag. -/
def groupSymbol : Symbol := ⟨.groupStart, str "<group", .token⟩

theorem parse_group : parse bareHost (str "<group ") = .ok ([groupSymbol], []) := rfl

theorem tag_group : ∃ tag ∈ tagStarts, [groupSymbol].getLast? =
    some ⟨tag.1, str tag.2, .token⟩ :=
  ⟨(.groupStart, "<group"), by simp [tagStarts], rfl⟩

/-- The symbol behind the attributes. -/
def endSymbol : Symbol := ⟨.xmlEnd, str "/>", .token⟩

theorem parse_end : parse bareHost (str " />\n") = .ok ([endSymbol], []) := rfl

theorem recognised_before :
    Recognised bareHost (str "<group ") [threadsAttribute [.blank, .newline] []] (str " />\n")
      [groupSymbol] [endSymbol] := by
  refine (recognised_iff lexed_group parse_group tag_group parse_end).mpr ⟨?_, ?_, ?_, ?_⟩
  · exact List.forall_mem_singleton.mpr rfl
  · refine List.forall_mem_singleton.mpr ?_
    rw [Attribute.Fits, if_neg (by decide)]
    exact ⟨by decide, by decide⟩
  · refine List.forall_mem_singleton.mpr ?_
    constructor <;> decide +kernel
  · decide +kernel

/-- With a blank behind its `=` an attribute ends the program: the empty text of the symbol
before the value lies inside a token. -/
theorem not_recognised_behind :
    ¬ ∀ (host : Host) (before after : List UInt8) (attrs : List Attribute)
      (ts : List (List UInt8)) (list₁ list₂ : List Symbol) (errors₁ errors₂ : List ErrorText),
      Lexed before ts false → parse host before = .ok (list₁, errors₁) →
      (∃ tag ∈ tagStarts, list₁.getLast? = some ⟨tag.1, str tag.2, .token⟩) →
      parse host after = .ok (list₂, errors₂) → Recognised host before attrs after list₁ list₂ := by
  intro h
  obtain ⟨list, errors, hparse, -⟩ := h bareHost (str "<group ") (str " />\n")
    [threadsAttribute [] [.blank]] _ _ _ _ _ lexed_group parse_group tag_group parse_end
  have hfault : parse bareHost (str "<group nthreads= \"4\" />\n") = .error .readsBefore := rfl
  exact absurd (hfault.symm.trans hparse) nofun

end Uperf
