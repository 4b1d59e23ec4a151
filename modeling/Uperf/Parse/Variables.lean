import Uperf.Parse.Folding
import Uperf.Parse.OptionTable
import Uperf.Parse.Reading
import Uperf.Parse.Sizes
import Uperf.Parse.Tags
import Uperf.Parse.Values

/-!
# Variables of the environment

A profile may have `$v` for a value in three places: an attribute, an option, and a
bound of random sizes.  `get_symbol`, `parse_option` and `string_to_int` replace it,
each in its own way.  An option reaches `parse_option` in a row of a hundred bytes,
and in the environment that the options before it have left.
-/

namespace Uperf

open Lib

/-! ## Keys -/

/-- The keys of attributes and their types: the entries of `tlist` that end with `=`. -/
def keyTypes : List (TokenType × String) :=
  [(.name, "name"), (.iterations, "iterations"), (.type, "type"), (.options, "options"),
    (.duration, "duration"), (.nthreads, "nthreads"), (.nprocesses, "nprocs"), (.rate, "rate")]

example : keyTypes.map (fun key => (key.1, key.2 ++ "=")) = tlist.drop 8 := by decide

/-- What a key has in common with the others. -/
structure KeyText (key : List UInt8) : Prop where
  ne_nil : key ≠ []
  wordChar : ∀ c ∈ key, wordChar c = true
  lower : key.map tolower = key
  equals : afterEquals key = none
  head : key.head? ≠ some '<'.toUInt8 ∧ key.head? ≠ some '='.toUInt8 ∧
    key.head? ≠ some '>'.toUInt8 ∧ key.head? ≠ some '$'.toUInt8
  short : key.length ≤ 10

theorem keyText_of_mem : ∀ key ∈ keyTypes, KeyText (str key.2) := by
  have hall : ∀ key ∈ keyTypes, str key.2 ≠ [] ∧ (str key.2).all wordChar = true ∧
      (str key.2).map tolower = str key.2 ∧ afterEquals (str key.2) = none ∧
      ((str key.2).head? ≠ some '<'.toUInt8 ∧ (str key.2).head? ≠ some '='.toUInt8 ∧
        (str key.2).head? ≠ some '>'.toUInt8 ∧ (str key.2).head? ≠ some '$'.toUInt8) ∧
      (str key.2).length ≤ 10 := by decide +kernel
  intro key hkey
  obtain ⟨hne, hword, hlower, hequals, hhead, hshort⟩ := hall key hkey
  exact ⟨hne, List.all_eq_true.mp hword, hlower, hequals, hhead, hshort⟩

/-- A token that begins with a key and `=` has the type of the key. -/
theorem tokenType_of_key {key : TokenType × String} (hkey : key ∈ keyTypes)
    (value : List UInt8) : tokenType (str key.2 ++ '='.toUInt8 :: value) = key.1 := by
  simp only [keyTypes, List.mem_cons, List.not_mem_nil, or_false] at hkey
  rcases hkey with rfl | rfl | rfl | rfl | rfl | rfl | rfl | rfl <;> rfl

/-- An attribute as a profile writes it. -/
def attributeText (key : String) (value : List UInt8) : List UInt8 :=
  str key ++ '='.toUInt8 :: quote :: (value ++ [quote])

/-- The token of an attribute, where it is not too long. -/
theorem nextToken_attributeText {key : TokenType × String} (hkey : key ∈ keyTypes)
    {value : List UInt8} (rest : List UInt8) (hvalue : quote ∉ value) :
    nextToken (attributeText key.2 value ++ rest) =
      if (str key.2).length + 1 + value.length < symbolSize then
        .token (str key.2 ++ '='.toUInt8 :: folded value) rest
      else .tooLong := by
  have htext := keyText_of_mem key hkey
  have hshort := htext.short
  have hsize : symbolSize = 1024 := rfl
  have hword : ∀ c ∈ str key.2 ++ ['='.toUInt8], wordChar c = true := by
    intro c hc
    rcases List.mem_append.mp hc with hc | hc
    · exact htext.wordChar c hc
    · rw [List.mem_singleton.mp hc]
      decide
  have hhead : (str key.2 ++ ['='.toUInt8]).head? ≠ some '<'.toUInt8 := by
    rw [List.head?_append_of_ne_nil _ htext.ne_nil]
    exact htext.head.1
  have hlength : (str key.2 ++ ['='.toUInt8]).length = (str key.2).length + 1 := by simp
  have hlower : (str key.2 ++ ['='.toUInt8]).map tolower = str key.2 ++ ['='.toUInt8] := by
    rw [List.map_append, htext.lower]
    rfl
  have htoken := nextToken_quoted rest (.of_head? hword hhead) hvalue
  rw [hlength, hlower] at htoken
  simpa [attributeText] using htoken

/-! ## Names -/

/-- The name of a variable: letters of either case, digits and underscores. -/
structure VarName where
  name : List UInt8
  ne_nil : name ≠ []
  chars : ∀ c ∈ name, isAlpha c = true ∨ isDigit c = true ∨ c = '_'.toUInt8

namespace VarName

variable (v : VarName)

/-- `$v`. -/
def reference : List UInt8 := '$'.toUInt8 :: v.name

/-- The name in lower case. -/
def lower : List UInt8 := v.name.map tolower

/-- What the tokenizer makes of `$v`. -/
theorem folded_reference : folded v.reference = '$'.toUInt8 :: v.lower := by
  have hchar : ∀ c : UInt8, isAlpha c = true ∨ isDigit c = true ∨ c = '_'.toUInt8 →
      tolower (unbreak c) = tolower c := by decide +kernel
  have hdollar : tolower (unbreak '$'.toUInt8) = '$'.toUInt8 := by decide
  unfold reference lower folded
  rw [List.map_cons, hdollar, List.map_congr_left fun c hc => hchar c (v.chars c hc)]

theorem quote_not_mem_reference : quote ∉ v.reference := by
  have hchar : ∀ c : UInt8, isAlpha c = true ∨ isDigit c = true ∨ c = '_'.toUInt8 →
      c ≠ quote := by decide +kernel
  unfold reference
  rw [List.mem_cons, not_or]
  exact ⟨by decide, fun hmem => hchar quote (v.chars quote hmem) rfl⟩

end VarName

/-- Where a text with `$v` in it is taken from. -/
inductive Source
  /-- A token of the profile, which is folded. -/
  | profile
  /-- The value of a variable that the attribute `options` names. -/
  | environment

namespace Source

/-- The text as the parser has it. -/
def read : Source → List UInt8 → List UInt8
  | .profile, text => folded text
  | .environment, text => text

/-- The name of the variable as the parser has it. -/
def name (v : VarName) : Source → List UInt8
  | .profile => v.lower
  | .environment => v.name

variable (source : Source) (v : VarName)

@[simp] theorem length_read (text : List UInt8) : (source.read text).length = text.length := by
  cases source with
  | profile => exact length_folded text
  | environment => rfl

theorem read_append (s t : List UInt8) : source.read (s ++ t) = source.read s ++ source.read t := by
  cases source with
  | profile => exact List.map_append
  | environment => rfl

theorem read_ne_nil {text : List UInt8} (hne : text ≠ []) : source.read text ≠ [] := by
  rw [← List.length_pos_iff, length_read]
  exact List.length_pos_iff.mpr hne

theorem read_reference : source.read v.reference = '$'.toUInt8 :: source.name v := by
  cases source with
  | profile => exact v.folded_reference
  | environment => rfl

/-- A character that folding neither makes nor takes away. -/
theorem not_mem_read {d : UInt8} {text : List UInt8}
    (hfold : ∀ c, tolower (unbreak c) = d → c = d) (htext : d ∉ text) : d ∉ source.read text := by
  cases source with
  | profile =>
      rintro hmem
      obtain ⟨c, hc, heq⟩ := List.mem_map.mp hmem
      exact htext (hfold c heq ▸ hc)
  | environment => exact htext

/-- The characters of a name end nothing that `$v` is a part of. -/
theorem of_mem_name {c : UInt8} (hc : c ∈ source.name v) :
    c ≠ ','.toUInt8 ∧ c ≠ ')'.toUInt8 ∧ c ≠ 32 := by
  have hchar : ∀ c : UInt8, isAlpha c = true ∨ isDigit c = true ∨ c = '_'.toUInt8 →
      (c ≠ ','.toUInt8 ∧ c ≠ ')'.toUInt8 ∧ c ≠ 32) ∧
        tolower c ≠ ','.toUInt8 ∧ tolower c ≠ ')'.toUInt8 ∧ tolower c ≠ 32 := by
    decide +kernel
  cases source with
  | profile =>
      obtain ⟨d, hd, rfl⟩ := List.mem_map.mp hc
      exact (hchar d (v.chars d hd)).2
  | environment => exact (hchar c (v.chars c hc)).1

end Source

/-! ## The places -/

/-- The key of an option. -/
structure OptionKey where
  key : List UInt8
  ne_nil : key ≠ []
  noEquals : '='.toUInt8 ∉ key

/-- What stands for the other bound: a text that ends no bound and no option. -/
structure BoundText where
  text : List UInt8
  ne_nil : text ≠ []
  noComma : ','.toUInt8 ∉ text
  noParen : ')'.toUInt8 ∉ text
  noBlank : ∀ c ∈ text, isSpace c = false

/-- A place for `$v`. -/
inductive Site
  /-- An attribute. -/
  | inAttribute (key : TokenType × String) (hkey : key ∈ keyTypes)
  /-- An option. -/
  | inOption (source : Source) (key : OptionKey)
  /-- The first bound of `size=rand($v,high)`. -/
  | lowBound (source : Source) (high : BoundText)
  /-- The second one of `size=rand(low,$v)`. -/
  | highBound (source : Source) (low : BoundText)

/-- A size with two bounds. -/
def boundsText (low high : List UInt8) : List UInt8 :=
  str "rand(" ++ (low ++ ','.toUInt8 :: (high ++ [')'.toUInt8]))

/-- `string_to_int` reads the bound from `value`, of a size in a row of options. -/
def ReadsBound (now : Host) (row : List UInt8)
    (bound : Option (List UInt8) × Option (List UInt8) → Option (List UInt8))
    (value : List UInt8) : Prop :=
  ∃ size text, optionPair now row = .ok (str "size", size) ∧ isRandom size = true ∧
    bound (boundTexts size) = some text ∧ numberText now text = some value

/-- The `$v` of the place is replaced with the value.  The profile is read in the
environment `host`, and `now` is what `build_worklist` comes to the place in. -/
def Substituted (host now : Host) (v : VarName) (value : List UInt8) : Site → Prop
  | .inAttribute key _ =>
      -- the symbol has the text of the variable, and the variable is what it was
      ∀ rest, ∃ token rest' name,
        nextToken (attributeText key.2 v.reference ++ rest) = .token token rest' ∧
          freshSymbol host token = (⟨key.1, value, .environment name⟩, []) ∧
          now.getenv name = some value
  | .inOption source key =>
      optionPair now (tableRow (source.read (key.key ++ '='.toUInt8 :: v.reference))) =
        .ok (source.read key.key, value)
  | .lowBound source high =>
      ReadsBound now (tableRow (source.read (str "size=" ++ boundsText v.reference high.text)))
        Prod.fst value
  | .highBound source low =>
      ReadsBound now (tableRow (source.read (str "size=" ++ boundsText low.text v.reference)))
        Prod.snd value

/-- The name that is looked up for the place is that of a variable with the value. -/
def Found (host now : Host) (v : VarName) (value : List UInt8) : Site → Prop
  | .inAttribute key _ =>
      (str key.2).length + 2 + v.name.length < symbolSize ∧
        host.getenv v.lower = some value ∧ now.getenv v.lower = some value
  | .inOption source key =>
      key.key.length ≤ 97 ∧
        now.getenv ((source.name v).take (97 - key.key.length)) = some value
  | .lowBound source _ =>
      now.getenv ('$'.toUInt8 :: (source.name v).take 88) = some value
  | .highBound source low =>
      low.text.length ≤ 87 ∧
        now.getenv ('$'.toUInt8 :: (source.name v).take (87 - low.text.length)) = some value

/-! ## An attribute -/

section

variable {host now : Host} {v : VarName} {value : List UInt8}

/-- `get_symbol` looks for the name in lower case. -/
theorem freshSymbol_attribute {key : TokenType × String} (hkey : key ∈ keyTypes)
    (hne : value ≠ []) (name : List UInt8) :
    freshSymbol host (str key.2 ++ '='.toUInt8 :: folded v.reference) =
        (⟨key.1, value, .environment name⟩, []) ↔
      name = v.lower ∧ host.getenv v.lower = some value := by
  have hequals := @afterEquals_append _ (folded v.reference) (keyText_of_mem key hkey).equals
  have hsymbol : getSymbol host (str key.2 ++ '='.toUInt8 :: folded v.reference) =
        ((value, .environment name), []) ↔
      name = v.lower ∧ host.getenv v.lower = some value := by
    unfold getSymbol
    rw [hequals, v.folded_reference]
    simp only [Option.getD_some, List.head?_cons, if_true, List.tail_cons]
    split
    · rename_i hnone
      simp [hnone]
    · rename_i hempty
      simp [hempty, hne.symm]
    · rename_i tmp _ htmp
      rw [htmp]
      simp only [Prod.mk.injEq, Origin.environment.injEq, and_true, Option.some.injEq]
      rw [and_comm, eq_comm (a := v.lower)]
  have htype := tokenType_of_key hkey (folded v.reference)
  have hknown : tokenType (str key.2 ++ '='.toUInt8 :: folded v.reference) ≠ .error := by
    have hkeys : ∀ key ∈ keyTypes, key.1 ≠ .error := by decide
    rw [htype]
    exact hkeys key hkey
  rw [← hsymbol, freshSymbol_of_known host hknown, htype]
  simp [Prod.ext_iff]

/-- The variable of an attribute is replaced if the token is not too long, and the name
in lower case has the value. -/
theorem substituted_attribute {key : TokenType × String} (hkey : key ∈ keyTypes)
    (hne : value ≠ []) :
    Substituted host now v value (.inAttribute key hkey) ↔
      Found host now v value (.inAttribute key hkey) := by
  have hlength : (str key.2).length + 1 + v.reference.length =
      (str key.2).length + 2 + v.name.length := by
    simp only [VarName.reference, List.length_cons]
    omega
  simp only [Substituted, Found,
    nextToken_attributeText hkey _ v.quote_not_mem_reference, hlength]
  constructor
  · intro h
    obtain ⟨token, rest', name, htoken, hfresh, hnow⟩ := h []
    split at htoken
    · rename_i hshort
      cases htoken
      obtain ⟨rfl, hset⟩ := (freshSymbol_attribute hkey hne name).mp hfresh
      exact ⟨hshort, hset, hnow⟩
    · cases htoken
  · rintro ⟨hshort, hset, hnow⟩ rest
    rw [if_pos hshort]
    exact ⟨_, _, v.lower, rfl, (freshSymbol_attribute hkey hne v.lower).mpr ⟨rfl, hset⟩, hnow⟩

end

/-! ## An option -/

section

variable {now : Host} {key text : List UInt8}

/-- What is found of a key and the text behind it in their row. -/
theorem optionParts_tableRow (hne : key ≠ []) (hkey : '='.toUInt8 ∉ key) (htext : text ≠ [])
    (hblank : ∀ c ∈ text, c ≠ 32) :
    if key.length ≤ 97 then
      optionParts now (tableRow (key ++ '='.toUInt8 :: text)) =
        .ok (key, text.take (98 - key.length))
    else ∃ set, optionParts now (tableRow (key ++ '='.toUInt8 :: text)) = .error set := by
  have hequals : str "=" = ['='.toUInt8] := by decide
  have hspace : str " " = [32] := by decide
  -- the row begins with what it has of the key
  have hfirst : strtok (str "=") (tableRow (key ++ '='.toUInt8 :: text)) =
      (some (key.take 99), text.take (98 - key.length)) := by
    rw [hequals, tableRow, strtok_take hne hkey text (by decide), Nat.sub_right_comm]
  -- behind the `=` there is no blank
  have hsecond : (strtok (str " ") (text.take (98 - key.length))).1 =
      if key.length ≤ 97 then some (text.take (98 - key.length)) else none := by
    have hnoblank : ∀ c ∈ text.take (98 - key.length), c ∉ ([32] : List UInt8) := by
      intro c hc hmem
      exact hblank c (List.mem_of_mem_take hc) (List.mem_singleton.mp hmem)
    rw [hspace]
    split
    · have hkept : text.take (98 - key.length) ≠ [] := by
        rw [Ne, List.take_eq_nil_iff, not_or]
        exact ⟨by omega, htext⟩
      have hread := @strtok_of_forall [32] _ hkept hnoblank [] (by simp)
      rw [List.append_nil] at hread
      rw [hread]
    · have hnone : 98 - key.length = 0 := by omega
      rw [hnone, List.take_zero]
      rfl
  split
  · rename_i hfits
    have hmem : '='.toUInt8 ∈ tableRow (key ++ '='.toUInt8 :: text) := by
      obtain ⟨room, hroom⟩ : ∃ room, 99 - key.length = room + 1 := ⟨98 - key.length, by omega⟩
      rw [tableRow, List.take_append, hroom, List.take_succ_cons]
      simp
    have hkept : key.take 99 = key := List.take_of_length_le (by omega)
    rw [if_pos hfits] at hsecond
    unfold optionParts
    rw [find?_optionFlags now hmem]
    simp only [hfirst, hsecond, hkept, Option.getD_some]
  · rename_i hlong
    rw [if_neg hlong] at hsecond
    unfold optionParts
    split
    · exact ⟨_, rfl⟩
    · simp only [hfirst, hsecond]
      exact ⟨_, rfl⟩

/-- An option is read as its key and the text behind it, where this is no variable. -/
theorem optionPair_tableRow (hne : key ≠ []) (hkey : '='.toUInt8 ∉ key) (htext : text ≠ [])
    (hblank : ∀ c ∈ text, c ≠ 32) (hfits : key.length ≤ 97)
    (hdollar : text.head? ≠ some '$'.toUInt8) :
    optionPair now (tableRow (key ++ '='.toUInt8 :: text)) =
      .ok (key, text.take (98 - key.length)) := by
  have hparts := @optionParts_tableRow now _ _ hne hkey htext hblank
  rw [if_pos hfits] at hparts
  have hhead : (text.take (98 - key.length)).head? ≠ some '$'.toUInt8 := by
    rw [List.head?_take, if_neg (by omega)]
    exact hdollar
  unfold optionPair optionValue
  rw [hparts]
  simp only [if_neg hhead]

/-- `parse_option` looks for what its row has of the name. -/
theorem optionPair_reference {name : List UInt8} (hne : key ≠ []) (hkey : '='.toUInt8 ∉ key)
    (hname : ∀ c ∈ name, c ≠ 32) {value : List UInt8} :
    optionPair now (tableRow (key ++ '='.toUInt8 :: '$'.toUInt8 :: name)) = .ok (key, value) ↔
      key.length ≤ 97 ∧ now.getenv (name.take (97 - key.length)) = some value := by
  have hblank : ∀ c ∈ '$'.toUInt8 :: name, c ≠ 32 :=
    List.forall_mem_cons.mpr ⟨by decide, hname⟩
  have hparts := @optionParts_tableRow now _ _ hne hkey (List.cons_ne_nil _ _) hblank
  unfold optionPair
  by_cases hfits : key.length ≤ 97
  · obtain ⟨room, hroom⟩ : ∃ room, 98 - key.length = room + 1 := ⟨97 - key.length, by omega⟩
    have hshort : 97 - key.length = room := by omega
    rw [if_pos hfits, hroom, List.take_succ_cons] at hparts
    rw [hparts, hshort]
    unfold optionValue
    simp only [List.head?_cons, if_true, List.tail_cons, hfits, true_and]
    cases now.getenv (name.take room) <;> simp
  · rw [if_neg hfits] at hparts
    obtain ⟨set, hset⟩ := hparts
    rw [hset]
    simp [hfits]

/-- The variable of an option is replaced if what its row has of the name has the value. -/
theorem substituted_option {host : Host} {v : VarName} {value : List UInt8} (source : Source)
    (key : OptionKey) :
    Substituted host now v value (.inOption source key) ↔
      Found host now v value (.inOption source key) := by
  have hequals : ∀ c : UInt8, tolower (unbreak c) = '='.toUInt8 → c = '='.toUInt8 := by
    decide +kernel
  have hsign : source.read ['='.toUInt8] = ['='.toUInt8] := by
    cases source with
    | profile => decide
    | environment => rfl
  have htext : source.read (key.key ++ '='.toUInt8 :: v.reference) =
      source.read key.key ++ '='.toUInt8 :: '$'.toUInt8 :: source.name v := by
    rw [List.append_cons, source.read_append, source.read_append, hsign, source.read_reference,
      List.append_assoc, List.singleton_append]
  simp only [Substituted, Found]
  rw [htext, optionPair_reference (source.read_ne_nil key.ne_nil)
    (source.not_mem_read hequals key.noEquals) fun c hc => (source.of_mem_name v hc).2.2,
    source.length_read]

end

/-! ## A bound -/

section

variable {host now : Host} {low high : List UInt8}

theorem strip_of_forall {s : List UInt8} (hs : ∀ c ∈ s, c ≠ 32) : strip s = s := by
  have hdrop : ∀ t : List UInt8, (∀ c ∈ t, c ≠ 32) → t.dropWhile (· = 32) = t := by
    intro t ht
    cases t with
    | nil => rfl
    | cons c t => simp [ht c List.mem_cons_self]
  unfold strip
  rw [hdrop s hs, List.rdropWhile, hdrop s.reverse fun c hc => hs c (List.mem_reverse.mp hc),
    List.reverse_reverse]

/-- What a row has of two bounds. -/
theorem boundTexts_take (hlow : low ≠ []) (hcomma : ','.toUInt8 ∉ low)
    (hlowBlank : ∀ c ∈ low, c ≠ 32) (hhigh : high ≠ []) (hparen : ')'.toUInt8 ∉ high)
    (hhighBlank : ∀ c ∈ high, c ≠ 32) :
    isRandom ((boundsText low high).take 94) = true ∧
      boundTexts ((boundsText low high).take 94) =
        (some (low.take 89),
          if low.length ≤ 87 then some (high.take (88 - low.length)) else none) := by
  have hlength : (str "rand(").length = 5 := by decide
  -- the row begins with `rand(`
  have htake : (boundsText low high).take 94 =
      str "rand(" ++ (low ++ ','.toUInt8 :: (high ++ [')'.toUInt8])).take 89 := by
    rw [boundsText, List.take_append, hlength, List.take_of_length_le (by rw [hlength]; omega)]
  have hrandom : isRandom ((boundsText low high).take 94) = true := by
    unfold isRandom
    rw [htake, List.take_left' hlength]
    decide
  have hcommas : str "," = [','.toUInt8] := by decide
  have hparens : str ")" = [')'.toUInt8] := by decide
  have hfirst : strtok (str ",") (((boundsText low high).take 94).drop 5) =
      (some (low.take 89), (high ++ [')'.toUInt8]).take (88 - low.length)) := by
    rw [htake, List.drop_left' hlength, hcommas, strtok_take hlow hcomma _ (by decide),
      Nat.sub_right_comm]
  have hsecond : (strtok (str ")") ((high ++ [')'.toUInt8]).take (88 - low.length))).1 =
      if low.length ≤ 87 then some (high.take (88 - low.length)) else none := by
    rw [hparens]
    split
    · rw [strtok_take hhigh hparen _ (by omega)]
    · -- the row ends before the comma
      have hnone : 88 - low.length = 0 := by omega
      rw [hnone, List.take_zero]
      rfl
  refine ⟨hrandom, ?_⟩
  unfold boundTexts
  rw [strtok_of_isRandom hrandom]
  simp only [hfirst, hsecond, Option.map_some]
  rw [strip_of_forall fun c hc => hlowBlank c (List.mem_of_mem_take hc)]
  split
  · rw [Option.map_some, strip_of_forall fun c hc => hhighBlank c (List.mem_of_mem_take hc)]
  · rfl

/-- `parse_size` gets the text with the two bounds as far as its row has it. -/
theorem optionPair_boundsText (hlow : ∀ c ∈ low, c ≠ 32) (hhigh : ∀ c ∈ high, c ≠ 32) :
    optionPair now (tableRow (str "size=" ++ boundsText low high)) =
      .ok (str "size", (boundsText low high).take 94) := by
  have hsize : str "size=" ++ boundsText low high =
      str "size" ++ '='.toUInt8 :: boundsText low high := by
    rw [show str "size=" = str "size" ++ ['='.toUInt8] from by decide, List.append_assoc,
      List.singleton_append]
  have hhead : (boundsText low high).head? = some 'r'.toUInt8 := rfl
  have hne : boundsText low high ≠ [] := by
    intro hnil
    rw [hnil] at hhead
    cases hhead
  have hopen : ∀ c ∈ str "rand(", c ≠ 32 := by decide +kernel
  have hblank : ∀ c ∈ boundsText low high, c ≠ 32 := by
    intro c hc
    simp only [boundsText, List.mem_append, List.mem_cons, List.not_mem_nil, or_false] at hc
    rcases hc with hc | hc | rfl | hc | rfl
    · exact hopen c hc
    · exact hlow c hc
    · decide
    · exact hhigh c hc
    · decide
  rw [hsize, optionPair_tableRow (by decide) (by decide) hne hblank (by decide)
    (by rw [hhead]; decide)]
  rfl

theorem read_boundsText (source : Source) :
    source.read (str "size=" ++ boundsText low high) =
      str "size=" ++ boundsText (source.read low) (source.read high) := by
  have hfixed : source.read (str "size=") = str "size=" ∧
      source.read (str "rand(") = str "rand(" ∧ source.read [','.toUInt8] = [','.toUInt8] ∧
      source.read [')'.toUInt8] = [')'.toUInt8] := by
    cases source with
    | profile => decide
    | environment => exact ⟨rfl, rfl, rfl, rfl⟩
  unfold boundsText
  rw [source.read_append, source.read_append, List.append_cons, source.read_append,
    source.read_append, source.read_append, hfixed.1, hfixed.2.1, hfixed.2.2.1, hfixed.2.2.2,
    List.append_assoc, List.singleton_append]

/-- `$v` as a bound. -/
theorem reference_bound (source : Source) (v : VarName) :
    ','.toUInt8 ∉ '$'.toUInt8 :: source.name v ∧ ')'.toUInt8 ∉ '$'.toUInt8 :: source.name v ∧
      ∀ c ∈ '$'.toUInt8 :: source.name v, c ≠ 32 := by
  refine ⟨?_, ?_, ?_⟩
  · rw [List.mem_cons, not_or]
    exact ⟨by decide, fun hmem => (source.of_mem_name v hmem).1 rfl⟩
  · rw [List.mem_cons, not_or]
    exact ⟨by decide, fun hmem => (source.of_mem_name v hmem).2.1 rfl⟩
  · exact List.forall_mem_cons.mpr ⟨by decide, fun c hc => (source.of_mem_name v hc).2.2⟩

/-- The other bound, as the parser has it. -/
theorem BoundText.read (source : Source) (bound : BoundText) :
    source.read bound.text ≠ [] ∧ ','.toUInt8 ∉ source.read bound.text ∧
      ')'.toUInt8 ∉ source.read bound.text ∧ ∀ c ∈ source.read bound.text, c ≠ 32 := by
  have hfold : (∀ c : UInt8, tolower (unbreak c) = ','.toUInt8 → c = ','.toUInt8) ∧
      ∀ c : UInt8, tolower (unbreak c) = ')'.toUInt8 → c = ')'.toUInt8 := by
    decide +kernel
  have hspace : ∀ c : UInt8, isSpace c = false → c ≠ 32 ∧ tolower (unbreak c) ≠ 32 := by
    decide +kernel
  refine ⟨source.read_ne_nil bound.ne_nil, source.not_mem_read hfold.1 bound.noComma,
    source.not_mem_read hfold.2 bound.noParen, fun c hc => ?_⟩
  cases source with
  | profile =>
      obtain ⟨d, hd, rfl⟩ := List.mem_map.mp hc
      exact (hspace d (bound.noBlank d hd)).2
  | environment => exact (hspace c (bound.noBlank c hc)).1

/-- A bound is read from the variable whose name is the `$` with what the row has of the
name behind it. -/
theorem readsBound_iff {value size : List UInt8} {row : List UInt8}
    {bound : Option (List UInt8) × Option (List UInt8) → Option (List UInt8)}
    (hpair : optionPair now row = .ok (str "size", size)) (hrandom : isRandom size = true) :
    ReadsBound now row bound value ↔
      ∃ text, bound (boundTexts size) = some text ∧ numberText now text = some value := by
  constructor
  · rintro ⟨size', text, hpair', -, hbound, hvalue⟩
    cases hpair.symm.trans hpair'
    exact ⟨text, hbound, hvalue⟩
  · rintro ⟨text, hbound, hvalue⟩
    exact ⟨size, text, hpair, hrandom, hbound, hvalue⟩

theorem substituted_lowBound {v : VarName} {value : List UInt8} (source : Source)
    (other : BoundText) :
    Substituted host now v value (.lowBound source other) ↔
      Found host now v value (.lowBound source other) := by
  obtain ⟨hcomma, -, hblank⟩ := reference_bound source v
  obtain ⟨hne, -, hparen, hotherBlank⟩ := other.read source
  obtain ⟨hrandom, htexts⟩ :=
    boundTexts_take (List.cons_ne_nil _ _) hcomma hblank hne hparen hotherBlank
  simp only [Substituted, Found]
  rw [read_boundsText, source.read_reference,
    readsBound_iff (optionPair_boundsText hblank hotherBlank) hrandom, htexts]
  simp only [Option.some.injEq, exists_eq_left', List.take_succ_cons]
  rfl

theorem substituted_highBound {v : VarName} {value : List UInt8} (source : Source)
    (other : BoundText) :
    Substituted host now v value (.highBound source other) ↔
      Found host now v value (.highBound source other) := by
  obtain ⟨-, hparen, hblank⟩ := reference_bound source v
  obtain ⟨hne, hcomma, -, hotherBlank⟩ := other.read source
  obtain ⟨hrandom, htexts⟩ :=
    boundTexts_take hne hcomma hotherBlank (List.cons_ne_nil _ _) hparen hblank
  simp only [Substituted, Found]
  rw [read_boundsText, source.read_reference,
    readsBound_iff (optionPair_boundsText hotherBlank hblank) hrandom, htexts,
    source.length_read]
  by_cases hfits : other.text.length ≤ 87
  · obtain ⟨room, hroom⟩ : ∃ room, 88 - other.text.length = room + 1 :=
      ⟨87 - other.text.length, by omega⟩
    have hshort : 87 - other.text.length = room := by omega
    simp only [hfits, if_true, true_and, hroom, hshort, Option.some.injEq, exists_eq_left',
      List.take_succ_cons]
    rfl
  · simp [hfits]

end

/-! ## All places -/

/-- In a place `$v` is replaced with a value exactly if the name that is looked up there is
that of a variable with the value. -/
theorem substituted_iff (host now : Host) (v : VarName) (value : List UInt8) (hne : value ≠ [])
    (site : Site) : Substituted host now v value site ↔ Found host now v value site := by
  cases site with
  | inAttribute key hkey => exact substituted_attribute hkey hne
  | inOption source key => exact substituted_option source key
  | lowBound source high => exact substituted_lowBound source high
  | highBound source low => exact substituted_highBound source low

/-- The variable `sz`. -/
def sizeVariable : VarName where
  name := str "sz"
  ne_nil := by decide
  chars := by decide +kernel

/-- A machine that has the variables `names`, each with the value `8k`. -/
def hostWith (names : List (List UInt8)) : Host :=
  { bareHost with getenv := fun name => if name ∈ names then some (str "8k") else none }

/-- The first bound of `rand($sz,1)`. -/
def sizeBound : Site :=
  .lowBound .profile {
    text := str "1"
    ne_nil := by decide
    noComma := by decide
    noParen := by decide
    noBlank := by decide +kernel }

theorem substituted_twice :
    Substituted (hostWith [str "sz", str "$sz"]) (hostWith [str "sz", str "$sz"]) sizeVariable
      (str "8k") sizeBound :=
  (substituted_iff _ _ _ _ (by decide) _).mpr (by simp only [Found, sizeBound]; decide +kernel)

/-- With `sz` alone, `rand($sz,1)` has no first bound: `$sz` is not a variable. -/
theorem not_substituted_alone :
    ¬ ∀ (host : Host) (v : VarName) (value : List UInt8), host.getenv v.name = some value →
      value ≠ [] → ∀ site, Substituted host host v value site := by
  intro h
  have hbound := h (hostWith [str "sz"]) sizeVariable (str "8k") (by decide +kernel) (by decide)
    sizeBound
  simp only [sizeBound] at hbound
  -- there is no variable named `$sz`
  have hfound := (substituted_lowBound _ _).mp hbound
  simp only [Found] at hfound
  exact absurd hfound (by decide +kernel)

end Uperf
