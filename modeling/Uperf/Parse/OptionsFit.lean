import Uperf.Parse.Options

/-!
# When the options can be read

Most branches of `parse_option` store what they read or add an error; three may
fail.  Here is which texts of options `flowop_parse_options` gets to the end of.
-/

namespace Uperf

open Lib

section

variable (host : Host)

/-- The option names no directory without files, and no text of SSL that is
longer than its field. -/
def WordFits (word : List UInt8) : Prop :=
  ∀ key value, optionPair host word = .ok (key, value) →
    (strcasecmpEq key (str "dir") = true → host.ftw value ≠ some 0) ∧
      (host.haveSsl = true →
        (strcasecmpEq key (str "cipher") = true → value.length < 50) ∧
          (strcasecmpEq key (str "method") = true → value.length < 5))

/-- The options fit the table `opt_arr`, and each of them its field. -/
def OptionsFit (strOptions : List UInt8) : Prop :=
  (optionWords strOptions).length ≤ maxOptions ∧
    ∀ read ∈ readWords host (optionWords strOptions), WordFits read.1 read.2

end

theorem strcasecmpEq_iff {a b : List UInt8} :
    strcasecmpEq a b = true ↔ a.map tolower = b.map tolower := by
  simp [strcasecmpEq]

/-- The branch succeeds whatever the value is. -/
def Plain (branch : OptionBranch) : Prop := ∀ value, Succeeds (branch value)

/-- The row has none of the keys whose branches may fail. -/
def PlainKey (name : String) : Prop :=
  strcasecmpEq (str name) (str "dir") = false ∧ strcasecmpEq (str name) (str "cipher") = false ∧
    strcasecmpEq (str name) (str "method") = false

instance (name : String) : Decidable (PlainKey name) := inferInstanceAs (Decidable (_ ∧ _))

section

variable {host : Host}

theorem plain_sizeBranch : Plain (sizeBranch host) := fun _ => succeeds_ok _

theorem plain_string2intBranch {store : ℤ → FlowopOptions → FlowopOptions} :
    Plain (string2intBranch host store) := fun _ => succeeds_ok _

theorem plain_atoiBranch {store : ℤ → FlowopOptions → FlowopOptions} :
    Plain (atoiBranch store) := fun _ => succeeds_ok _

theorem plain_positiveBranch {key : String} {store : ℤ → FlowopOptions → FlowopOptions} :
    Plain (positiveBranch key store) := by
  intro value
  unfold positiveBranch
  split <;> exact succeeds_ok _

theorem plain_boundedBranch {key : String} {least most : ℤ}
    {store : ℤ → FlowopOptions → FlowopOptions} :
    Plain (boundedBranch host key least most store) := by
  intro value
  unfold boundedBranch
  simp only
  split <;> exact succeeds_ok _

theorem plain_string2nsecBranch {key : String} {store : UInt64 → FlowopOptions → FlowopOptions} :
    Plain (string2nsecBranch host key store) := fun _ => succeeds_ok _

theorem plain_textBranch {store : List UInt8 → FlowopOptions → FlowopOptions} :
    Plain (textBranch store) := fun _ => succeeds_ok _

theorem plain_protocolBranch : Plain (protocolBranch host) := fun _ => succeeds_ok _

theorem plain_connBranch : Plain connBranch := fun _ => succeeds_ok _

theorem succeeds_dirBranch_iff {value : List UInt8} :
    Succeeds (dirBranch host value) ↔ host.ftw value ≠ some 0 := by
  unfold dirBranch
  simp only
  split <;> simp_all

theorem succeeds_strcpyBranch_iff {n : ℕ} {field : FlowopOptions → CharArray (n + 1)}
    {store : CharArray (n + 1) → FlowopOptions → FlowopOptions} {value : List UInt8} :
    Succeeds (strcpyBranch field store value) ↔ value.length < n + 1 := by
  unfold strcpyBranch
  split
  · rename_i h
    simp [Nat.lt_succ_of_le h]
  · rename_i h
    simp only [not_succeeds_error, false_iff]
    omega

theorem plain_of_mem_sctpBranches : ∀ row ∈ sctpBranches host,
    PlainKey row.1 ∧ Plain row.2 := by
  unfold sctpBranches
  simp only [List.forall_mem_cons, List.not_mem_nil, false_imp_iff, implies_true,
    plain_boundedBranch, plain_textBranch, and_true]
  decide

theorem branch_cases : ∀ row ∈ optionBranches host,
    (PlainKey row.1 ∧ Plain row.2) ∨ row = ("dir", dirBranch host) ∨
      (host.haveSsl = true ∧ row ∈ sslBranches) := by
  intro row hrow
  unfold optionBranches at hrow
  rw [List.mem_append, List.mem_append] at hrow
  obtain (hrow | hrow) | hrow := hrow
  · revert row
    simp only [List.forall_mem_cons, List.not_mem_nil, false_imp_iff, implies_true, and_true,
      plain_sizeBranch, plain_string2intBranch, plain_atoiBranch, plain_positiveBranch,
      plain_boundedBranch, plain_string2nsecBranch, plain_textBranch, plain_protocolBranch,
      plain_connBranch]
    refine ⟨?_, ?_, ?_, Or.inr (Or.inl trivial), ?_, ?_, ?_, ?_, ?_, ?_, ?_, ?_, ?_, ?_, ?_, ?_,
      ?_, ?_, ?_⟩
    all_goals exact Or.inl (by decide)
  · split at hrow
    · exact Or.inl (plain_of_mem_sctpBranches row hrow)
    · cases hrow
  · split at hrow
    · rename_i hssl
      exact Or.inr (Or.inr ⟨hssl, hrow⟩)
    · cases hrow

/-- Which branches may fail, and at what. -/
theorem succeeds_keyBranch_iff {key value : List UInt8} :
    Succeeds (keyBranch host key value) ↔
      (strcasecmpEq key (str "dir") = true → host.ftw value ≠ some 0) ∧
        (host.haveSsl = true →
          (strcasecmpEq key (str "cipher") = true → value.length < 50) ∧
            (strcasecmpEq key (str "method") = true → value.length < 5)) := by
  have hssl : ∀ row ∈ sslBranches, host.haveSsl = true → row ∈ optionBranches host := by
    intro row hrow hssl
    rw [optionBranches, if_pos hssl]
    exact List.mem_append_right _ hrow
  unfold keyBranch
  cases hfind : (optionBranches host).find? fun row => strcasecmpEq key (str row.1) with
  | none =>
      rw [List.find?_eq_none] at hfind
      -- a key without a row is none of the three
      have hdir := hfind ("dir", dirBranch host) (by simp [optionBranches])
      refine iff_of_true (succeeds_ok _)
        ⟨fun h => absurd h hdir, fun h => ⟨fun hkey => ?_, fun hkey => ?_⟩⟩
      · exact absurd hkey (hfind _ (hssl (sslBranches[1]) (by simp [sslBranches]) h))
      · exact absurd hkey (hfind _ (hssl (sslBranches[2]) (by simp [sslBranches]) h))
  | some row =>
      have hkey := List.find?_some hfind
      rw [strcasecmpEq_iff] at hkey
      -- the key and the name of its row are the same but for letter case
      have hname : ∀ name, strcasecmpEq key (str name) = strcasecmpEq (str row.1) (str name) := by
        intro name
        rw [Bool.eq_iff_iff, strcasecmpEq_iff, strcasecmpEq_iff, hkey]
      rw [hname, hname, hname]
      obtain ⟨⟨hdir, hcipher, hmethod⟩, hplain⟩ | rfl | ⟨hssl, hrow⟩ :=
        branch_cases row (List.mem_of_find?_eq_some hfind)
      · have hok : Succeeds (row.2 value) := hplain value
        simp [hok, hdir, hcipher, hmethod]
      · simp +decide [succeeds_dirBranch_iff]
      · simp only [sslBranches, List.mem_cons, List.not_mem_nil, or_false] at hrow
        obtain rfl | rfl | rfl := hrow
        · have hengine : Succeeds (textBranch (fun text o =>
              { o with engine := strlcpy o.engine text }) value) := plain_textBranch value
          simp +decide [hengine]
        · simp +decide [succeeds_strcpyBranch_iff, hssl]
        · simp +decide [succeeds_strcpyBranch_iff, hssl]

/-- An option without a value sets a flag or is an error. -/
theorem optionPair_error_cases {word : List UInt8} {set : Setting}
    (hpair : optionPair host word = .error set) :
    (∃ row ∈ optionFlags host, set = .option (fun o => { o with flag := o.flag ||| row.2 }) []) ∨
      ∃ text, set = { errors := [text] } := by
  unfold optionPair optionParts at hpair
  cases hflag : (optionFlags host).find? fun row => strcasecmpEq word (str row.1) with
  | some row =>
      rw [hflag] at hpair
      cases hpair
      exact Or.inl ⟨row, List.mem_of_find?_eq_some hflag, rfl⟩
  | none =>
      rw [hflag] at hpair
      simp only at hpair
      cases hvalue : (strtok (str " ") (strtok (str "=") word).2).1 with
      | none =>
          rw [hvalue] at hpair
          cases hpair
          exact Or.inr ⟨_, rfl⟩
      | some value =>
          rw [hvalue] at hpair
          simp only at hpair
          split at hpair
          · cases hpair
            exact Or.inr ⟨_, rfl⟩
          · cases hpair

theorem succeeds_parseOption_iff {word : List UInt8} :
    Succeeds (parseOption host word) ↔ WordFits host word := by
  unfold parseOption WordFits
  cases optionPair host word with
  | error set => simp
  | ok pair =>
      obtain ⟨key, value⟩ := pair
      simp [succeeds_keyBranch_iff]

theorem succeeds_flowopParseOptions_iff {strOptions : List UInt8} :
    Succeeds (flowopParseOptions host strOptions) ↔ OptionsFit host strOptions := by
  unfold flowopParseOptions OptionsFit
  split
  · rename_i hmany
    simp only [not_succeeds_error, false_iff, not_and]
    omega
  · rename_i hroom
    rw [succeeds_loop_iff_forall fun set read => ?_, and_iff_right (Nat.le_of_not_lt hroom)]
    rw [optionStep, succeeds_bind_iff, ← succeeds_parseOption_iff]
    simp [Succeeds]

end

end Uperf
