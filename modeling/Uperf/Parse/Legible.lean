import Uperf.Parse.Reading
import Uperf.Parse.Values

/-!
# The words of a profile

Every word that an abstract profile is printed with is read as it is written and
becomes a symbol of its own.  The values have a common alphabet, and none of them
ends so that the next token would be merged with it.
-/

namespace Uperf

open Lib

/-- A word that `next_token` reads whole and that `parse` merges with no other. -/
structure Legible (word : Word) : Prop where
  spelled : Spelled word
  tidy : Tidy word

/-! ## Tags -/

/-- The tags of a canonical text but the `>`. -/
def tagNames : List String :=
  ["<profile", "</profile>", "<group", "</group>", "<transaction", "</transaction>", "<flowop",
    "/>"]

theorem noComment_tag {tag : String} (h : tag ∈ ">" :: tagNames) : NoComment (str tag) := by
  simp only [tagNames, List.mem_cons, List.not_mem_nil, or_false] at h
  rcases h with rfl | rfl | rfl | rfl | rfl | rfl | rfl | rfl | rfl <;>
    exact fun _ => ⟨rfl, rfl⟩

theorem spelled_tag {tag : String} (h : tag ∈ ">" :: tagNames) : Spelled (.tag (str tag)) := by
  have hplain : ∀ tag ∈ ">" :: tagNames, str tag ≠ [] ∧
      (str tag).all plainChar = true ∧ (str tag).length < symbolSize := by
    decide +kernel
  obtain ⟨hne, hchars, hfit⟩ := hplain tag h
  exact .tag hne (List.all_eq_true.mp hchars) (noComment_tag h) hfit

theorem legible_tag {tag : String} (h : tag ∈ tagNames) : Legible (.tag (str tag)) := by
  have htidy : ∀ tag ∈ tagNames, str tag ≠ str ">" ∧ (str tag).head? ≠ some '='.toUInt8 ∧
      (str tag).head? ≠ some '$'.toUInt8 ∧ afterEquals (str tag) = none := by
    decide +kernel
  have hclosed : ∀ tag ∈ tagNames, str tag ≠ [] ∧ (str tag).getLast? ≠ some '='.toUInt8 ∧
      str tag ≠ str "<" ∧ str tag ≠ str "</" := by
    decide +kernel
  obtain ⟨hne, hhead, hdollar, hequals⟩ := htidy tag h
  obtain ⟨hnil, hlast, hopen, hslash⟩ := hclosed tag h
  exact {
    spelled := spelled_tag (List.mem_cons_of_mem _ h)
    tidy := .tag hne hhead hdollar hequals ⟨hnil, hlast, hopen, hslash⟩ }

theorem legible_close : Legible (.tag (str ">")) where
  spelled := spelled_tag List.mem_cons_self
  tidy := .close

/-! ## Attributes -/

/-- The keys of the attributes of a canonical text. -/
def attributeKeys : List String :=
  ["nthreads", "nprocs", "iterations", "duration", "type", "options"]

/-- The characters of the values. -/
def isValueChar (c : UInt8) : Bool :=
  isHostChar c || c = 32 || c = '='.toUInt8 || c = '_'.toUInt8

/-- A value that can stand between quotes and does not go on behind them. -/
structure Value (value : List UInt8) : Prop where
  ne_nil : value ≠ []
  chars : ∀ c ∈ value, isValueChar c = true
  last : value.getLast? ≠ some '='.toUInt8

theorem isValueChar_of_isHostChar {c : UInt8} (hc : isHostChar c = true) :
    isValueChar c = true := by
  simp [isValueChar, hc]

/-- None of the characters is changed, ends the value or begins something else. -/
theorem isValueChar_cases {c : UInt8} (hc : isValueChar c = true) :
    quotedChar c = true ∧ c ≠ '$'.toUInt8 ∧ c ≠ '<'.toUInt8 := by
  obtain ⟨⟨c⟩⟩ := c
  revert c
  decide +kernel

/-- A text of host characters is a value. -/
theorem value_of_isHostChar {value : List UInt8} (hne : value ≠ [])
    (hchars : ∀ c ∈ value, isHostChar c = true) : Value value where
  ne_nil := hne
  chars c hc := isValueChar_of_isHostChar (hchars c hc)
  last hlast := by
    have hmem : '='.toUInt8 ∈ value := List.mem_of_mem_getLast? hlast
    exact (isHostChar_cases (hchars _ hmem)).2.2.2.1 rfl

namespace Value

variable {value : List UInt8}

theorem head_ne (h : Value value) : value.head? ≠ some '$'.toUInt8 := by
  intro hhead
  have hmem : '$'.toUInt8 ∈ value := List.mem_of_mem_head? hhead
  exact (isValueChar_cases (h.chars _ hmem)).2.1 rfl

theorem closed (h : Value value) : Closed value := by
  have hopen : '<'.toUInt8 ∉ value := fun hmem => (isValueChar_cases (h.chars _ hmem)).2.2 rfl
  refine ⟨h.ne_nil, h.last, ?_, ?_⟩
  · rintro rfl
    exact hopen (by decide)
  · rintro rfl
    exact hopen (by decide)

end Value

theorem tokenType_attribute {key : String} (h : key ∈ attributeKeys) (value : List UInt8) :
    tokenType (Word.assign (str key) value).token ≠ .error := by
  simp only [attributeKeys, List.mem_cons, List.not_mem_nil, or_false] at h
  rcases h with rfl | rfl | rfl | rfl | rfl | rfl <;> exact fun herror => by cases herror

theorem noComment_key {key : String} (h : key ∈ attributeKeys) : NoComment (str key) := by
  simp only [attributeKeys, List.mem_cons, List.not_mem_nil, or_false] at h
  rcases h with rfl | rfl | rfl | rfl | rfl | rfl <;> exact fun _ => ⟨rfl, rfl⟩

/-- An attribute with a value that fits in a token. -/
theorem legible_assign {key : String} (hkey : key ∈ attributeKeys) {value : List UInt8}
    (hvalue : Value value) (hfit : (Word.assign (str key) value).token.length < symbolSize) :
    Legible (.assign (str key) value) := by
  have hplain : ∀ key ∈ attributeKeys, str key ≠ [] ∧ (str key).all plainChar = true ∧
      afterEquals (str key) = none := by
    decide +kernel
  obtain ⟨hne, hchars, hequals⟩ := hplain key hkey
  have hquoted : ∀ c ∈ value, quotedChar c = true := fun c hc =>
    (isValueChar_cases (hvalue.chars c hc)).1
  exact {
    spelled := .assign hne (List.all_eq_true.mp hchars) hquoted (noComment_key hkey) hfit
    tidy := .assign hne hequals (tokenType_attribute hkey value) hvalue.head_ne hvalue.closed }

/-- An attribute with a short value. -/
theorem legible_assign_of_length {key : String} (hkey : key ∈ attributeKeys) {value : List UInt8}
    (hvalue : Value value) (hlen : value.length ≤ 100) : Legible (.assign (str key) value) := by
  have hshort : ∀ key ∈ attributeKeys, (str key).length ≤ 100 := by decide
  have hkeylen := hshort key hkey
  have hsize : symbolSize = 1024 := rfl
  apply legible_assign hkey hvalue
  simp only [Word.token, List.length_append, List.length_cons]
  omega

/-! ## Values -/

theorem isHostChar_of_mem_decimal {n : ℕ} {c : UInt8} (hc : c ∈ decimal n) :
    isHostChar c = true := by
  simp [isHostChar, isDigit_of_mem_decimal hc]

theorem Number.legible {least : ℕ} (n : Number least) {key : String} (hkey : key ∈ attributeKeys) :
    Legible (.assign (str key) (decimal n.val)) := by
  have hlen : (decimal n.val).length ≤ 10 := by
    have hlt := n.lt
    exact length_decimal_le (by omega) (by omega)
  apply legible_assign_of_length hkey
  · exact value_of_isHostChar decimal_ne_nil fun _ => isHostChar_of_mem_decimal
  · omega

/-- A duration that is accepted is a `long long`. -/
theorem le_of_secondsValue_ne_zero {n : ℕ} (h : secondsValue n ≠ 0) : n ≤ llongMax := by
  by_contra hlarge
  apply h
  have hread : strtoll (secondsText n) = (n, str "s") := strtoll_decimal n (by decide +kernel)
  unfold secondsValue stringToNsec stringToNsecWith
  rw [secondsText, numberText_decimal]
  simp only [startsNumber_decimal, not_true_eq_false, if_false]
  rw [← secondsText, hread]
  exact if_pos (Nat.lt_of_not_le hlarge)

theorem TxnSpan.legible (span : TxnSpan) : ∀ word ∈ span.words, Legible word := by
  cases span with
  | once => simp [TxnSpan.words]
  | iterations n =>
      intro word hword
      rw [List.mem_singleton.mp hword]
      exact n.legible (by decide)
  | duration n haccepted =>
      intro word hword
      rw [List.mem_singleton.mp hword]
      have hlong : n ≤ 2 ^ 63 - 1 := le_of_secondsValue_ne_zero haccepted
      have hlen : (decimal n).length ≤ 19 := length_decimal_le (by omega) (by omega)
      have hchars : ∀ c ∈ secondsText n, isHostChar c = true := by
        intro c hc
        rcases List.mem_append.mp hc with hc | hc
        · exact isHostChar_of_mem_decimal hc
        · rw [List.mem_singleton.mp hc]
          decide
      apply legible_assign_of_length (by decide)
      · exact value_of_isHostChar (by simp [secondsText, decimal_ne_nil]) hchars
      · rw [secondsText, List.length_append]
        have hone : (str "s").length = 1 := rfl
        omega

theorem Strands.legible (strands : Strands) : Legible strands.word := by
  cases strands with
  | threads n => exact n.legible (by decide)
  | processes n => exact n.legible (by decide)

/-! ## Flowops -/

theorem FlowopKind.legible (kind : FlowopKind) :
    Legible (.assign (str "type") (str kind.name)) := by
  have hname : str kind.name ≠ [] ∧ (str kind.name).all isHostChar = true ∧
      (str kind.name).length ≤ 100 := by
    cases kind <;> decide +kernel
  obtain ⟨hne, hchars, hlength⟩ := hname
  exact legible_assign_of_length (by decide)
    (value_of_isHostChar hne (List.all_eq_true.mp hchars)) hlength

theorem OptionSpec.isValueChar_of_mem_print {o : OptionSpec} {c : UInt8} (hc : c ∈ o.print) :
    isValueChar c = true := by
  have hkeys : ∀ key ∈ keys, (str key).all isValueChar = true := by decide +kernel
  rcases List.mem_append.mp hc with hc | hc
  · exact List.all_eq_true.mp (hkeys o.key o.key_mem_keys) c hc
  · rcases List.mem_cons.mp hc with rfl | hc
    · decide
    · exact isValueChar_of_isHostChar (isHostChar_of_mem_value hc)

theorem OptionSpec.value_print (o : OptionSpec) : Value o.print where
  ne_nil := by simp [print]
  chars _ := isValueChar_of_mem_print
  last := by
    have hlast : o.print.getLast? = o.value.getLast? := by
      rw [print, List.getLast?_append_of_ne_nil _ (List.cons_ne_nil _ _),
        List.getLast?_cons_of_ne_nil o.value_ne_nil]
    rw [hlast]
    exact (value_of_isHostChar o.value_ne_nil fun _ => isHostChar_of_mem_value).last

theorem value_printOptions {options : List OptionSpec} (hne : options ≠ []) :
    Value (printOptions options) := by
  unfold printOptions
  induction options with
  | nil => exact absurd rfl hne
  | cons o rest ih =>
      cases rest with
      | nil => simpa using o.value_print
      | cons next rest =>
          have hrest := ih (List.cons_ne_nil _ _)
          rw [List.map_cons] at hrest
          rw [List.map_cons, List.map_cons, List.intercalate_cons_cons, List.append_assoc]
          refine ⟨by simp [o.value_print.ne_nil], ?_, ?_⟩
          · intro c hc
            rcases List.mem_append.mp hc with hc | hc
            · exact o.value_print.chars c hc
            · rcases List.mem_append.mp hc with hc | hc
              · rw [List.mem_singleton.mp hc]
                decide
              · exact hrest.chars c hc
          · rw [List.getLast?_append_of_ne_nil _ (by simp),
              List.getLast?_append_of_ne_nil _ hrest.ne_nil]
            exact hrest.last

theorem FlowopSpec.legible (f : FlowopSpec) : ∀ word ∈ f.words, Legible word := by
  have hoptions : ∀ word ∈ (if f.options = [] then []
      else [Word.assign (str "options") (printOptions f.options)]), Legible word := by
    split
    · simp
    · rename_i hne
      rw [List.forall_mem_singleton]
      exact legible_assign (by decide) (value_printOptions hne) f.fits
  rw [words, List.forall_mem_append, List.forall_mem_append, List.forall_mem_cons,
    List.forall_mem_singleton, List.forall_mem_singleton]
  exact ⟨⟨⟨legible_tag (by decide), f.kind.legible⟩, hoptions⟩, legible_tag (by decide)⟩

/-! ## Profiles -/

theorem TxnSpec.legible (t : TxnSpec) : ∀ word ∈ t.words, Legible word := by
  have hflowops : ∀ word ∈ t.flowops.flatMap FlowopSpec.words, Legible word := by
    intro word hword
    obtain ⟨f, -, hword⟩ := List.mem_flatMap.mp hword
    exact f.legible word hword
  rw [words, List.forall_mem_append, List.forall_mem_append, List.forall_mem_append,
    List.forall_mem_cons, List.forall_mem_singleton, List.forall_mem_singleton]
  exact ⟨⟨⟨⟨legible_tag (by decide), t.span.legible⟩, legible_close⟩, hflowops⟩,
    legible_tag (by decide)⟩

theorem GroupSpec.legible (g : GroupSpec) : ∀ word ∈ g.words, Legible word := by
  have htxns : ∀ word ∈ g.txns.flatMap TxnSpec.words, Legible word := by
    intro word hword
    obtain ⟨t, -, hword⟩ := List.mem_flatMap.mp hword
    exact t.legible word hword
  rw [words, List.forall_mem_append, List.forall_mem_append, List.forall_mem_cons,
    List.forall_mem_cons, List.forall_mem_singleton, List.forall_mem_singleton]
  exact ⟨⟨⟨legible_tag (by decide), g.strands.legible, legible_close⟩, htxns⟩,
    legible_tag (by decide)⟩

/-- Every word of a profile is legible. -/
theorem ProfileSpec.legible (p : ProfileSpec) : ∀ word ∈ p.words, Legible word := by
  have hgroups : ∀ word ∈ p.groups.flatMap GroupSpec.words, Legible word := by
    intro word hword
    obtain ⟨g, -, hword⟩ := List.mem_flatMap.mp hword
    exact g.legible word hword
  rw [words, List.forall_mem_append, List.forall_mem_append, List.forall_mem_cons,
    List.forall_mem_singleton, List.forall_mem_singleton]
  exact ⟨⟨⟨legible_tag (by decide), legible_close⟩, hgroups⟩, legible_tag (by decide)⟩

end Uperf
