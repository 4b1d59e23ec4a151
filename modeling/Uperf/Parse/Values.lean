import Uperf.Parse.Spelling

/-!
# Printed values

The functions of `numbers.c` and `atoi` give back the number whose text they
read, and the branches of `parse_option` store the value of a printed option.
-/

namespace Uperf

open Lib

/-! ## Numbers -/

section

variable {host : Host} {n : ℕ}

theorem numberText_decimal (host : Host) (n : ℕ) (rest : List UInt8) :
    numberText host (decimal n ++ rest) = some (decimal n ++ rest) := by
  obtain ⟨c, digits, hcons, hc⟩ := decimal_eq_cons n
  have hdollar : c ≠ '$'.toUInt8 := ne_of_isDigit hc (by decide)
  simp [numberText, hcons, hdollar]

theorem startsNumber_decimal (n : ℕ) (rest : List UInt8) :
    startsNumber (decimal n ++ rest) = true := by
  obtain ⟨c, digits, hcons, hc⟩ := decimal_eq_cons n
  simp [startsNumber, hcons, hc]

theorem strtoll_decimal (n : ℕ) {rest : List UInt8} (hrest : ∀ c ∈ rest.head?, isDigit c = false) :
    strtoll (decimal n ++ rest) = (n, rest) := by
  obtain ⟨htake, hdrop⟩ := takeWhile_decimal_append n hrest
  rw [strtoll, htake, hdrop, digitsValue_decimal]

theorem toInt_of_lt (hn : n < 2 ^ 31) : toInt n = n := by
  rw [toInt, Int.bmod_eq_of_le] <;> omega

/-- A printed number without a suffix is the number. -/
theorem stringToInt_decimal (hn : n < 2 ^ 31) : stringToInt host (decimal n) = n := by
  have hread : numberText host (decimal n) = some (decimal n) := by
    simpa using numberText_decimal host n []
  have hstarts : startsNumber (decimal n) = true := by simpa using startsNumber_decimal n []
  have hlong : strtoll (decimal n) = (n, []) := by
    simpa using strtoll_decimal n head?_nil_isDigit
  have hfits : ¬ llongMax < n := by
    have hmax : llongMax = 2 ^ 63 - 1 := rfl
    omega
  have hshift : str2shift [] = some 0 := rfl
  unfold stringToInt
  simp only [hread, hstarts, hlong, hfits, hshift]
  simp [shiftLeft, toInt_of_lt hn]

theorem string2int_decimal (hn : n < 2 ^ 31) :
    string2int host (some (decimal n)) = ((n : ℤ), []) := by
  simp [string2int, stringToInt_decimal hn]

theorem atoi_decimal (hn : n < 2 ^ 31) : atoi (decimal n) = n := by
  obtain ⟨c, digits, hcons, hc⟩ := decimal_eq_cons n
  have hminus : c ≠ '-'.toUInt8 := ne_of_isDigit hc (by decide)
  have hplus : c ≠ '+'.toUInt8 := ne_of_isDigit hc (by decide)
  have hmin : min llongMax n = n := by
    have hmax : llongMax = 2 ^ 63 - 1 := rfl
    omega
  have hhead : (decimal n).head? = some c := by rw [hcons]; rfl
  unfold atoi
  simp [dropWhile_isSpace_decimal, hhead, hminus, hplus, takeWhile_isDigit_decimal, hmin,
    toInt_of_lt hn]

/-- No variable of the environment has a say in a printed duration. -/
theorem stringToNsec_seconds (n : ℕ) : stringToNsec host (secondsText n) = secondsValue n := by
  unfold secondsValue stringToNsec stringToNsecWith
  rw [secondsText, numberText_decimal, numberText_decimal]

theorem string2nsec_seconds (haccepted : secondsValue n ≠ 0) :
    string2nsec host (secondsText n) = (secondsValue n, []) := by
  simp [string2nsec, stringToNsec_seconds, haccepted]

theorem UInt32.ofInt_natCast (n : ℕ) : UInt32.ofInt (n : ℤ) = UInt32.ofNat n := by
  rw [UInt32.ofInt, ← UInt32.toNat_inj]
  simp
  omega

theorem UInt64.ofInt_natCast (n : ℕ) : UInt64.ofInt (n : ℤ) = UInt64.ofNat n := by
  rw [UInt64.ofInt, ← UInt64.toNat_inj]
  simp
  omega

end

/-! ## Characters -/

/-- The characters of a host name are copied as they are, in a token and in an
option. -/
theorem isHostChar_cases {c : UInt8} (hc : isHostChar c = true) :
    quotedChar c = true ∧ isBlank c = false ∧ c ≠ '$'.toUInt8 ∧ c ≠ '='.toUInt8 ∧ c ≠ 32 := by
  obtain ⟨⟨c⟩⟩ := c
  revert c
  decide +kernel

namespace OptionSpec

/-- The keys of the options. -/
def keys : List String :=
  ["size", "rsize", "count", "repeat", "batch_size", "conn", "port", "protocol", "remotehost"]

theorem key_mem_keys (o : OptionSpec) : o.key ∈ keys := by
  cases o <;> simp [key, keys]

theorem value_ne_nil (o : OptionSpec) : o.value ≠ [] := by
  cases o with
  | protocol p => cases p <;> decide
  | remotehost name => exact name.ne_nil
  | _ => exact decimal_ne_nil

theorem isHostChar_of_mem_value {o : OptionSpec} {c : UInt8} (hc : c ∈ o.value) :
    isHostChar c = true := by
  have hdecimal : ∀ {n}, c ∈ decimal n → isHostChar c = true := by
    intro n hmem
    simp [isHostChar, isDigit_of_mem_decimal hmem]
  cases o with
  | protocol p =>
      have hnames : (str "tcp" ++ str "udp").all isHostChar = true := by decide +kernel
      cases p with
      | tcp => exact List.all_eq_true.mp hnames c (List.mem_append_left _ hc)
      | udp => exact List.all_eq_true.mp hnames c (List.mem_append_right _ hc)
  | remotehost name => exact name.isHostChar c hc
  | _ => exact hdecimal hc

end OptionSpec

/-! ## Options -/

/-- A word with an `=` in it is none of the options without a value. -/
theorem find?_optionFlags (host : Host) {option : List UInt8} (h : '='.toUInt8 ∈ option) :
    ((optionFlags host).find? fun row => strcasecmpEq option (str row.1)) = none := by
  have hnames : ∀ row ∈ optionFlags host, '='.toUInt8 ∉ (str row.1).map tolower := by
    unfold optionFlags
    cases host.haveSctp <;> decide
  rw [List.find?_eq_none]
  intro row hrow heq
  apply hnames row hrow
  rw [← show option.map tolower = (str row.1).map tolower by simpa [strcasecmpEq] using heq]
  exact List.mem_map.mpr ⟨_, h, by decide⟩

/-- `strtok` of a text that has no delimiter but behind its first token. -/
theorem strtok_of_forall {delims token : List UInt8} (hne : token ≠ [])
    (htoken : ∀ c ∈ token, c ∉ delims) {rest : List UInt8}
    (hrest : ∀ c ∈ rest.head?, c ∈ delims) :
    strtok delims (token ++ rest) = (some token, rest.tail) := by
  obtain ⟨c, tail, rfl⟩ := List.exists_cons_of_ne_nil hne
  have hc : c ∉ delims := htoken c List.mem_cons_self
  have hall : ∀ d ∈ c :: tail, (decide ¬ delims.contains d = true) = true := by
    simpa using htoken
  have hstart : (c :: tail ++ rest).dropWhile (delims.contains ·) = c :: tail ++ rest := by
    simp [hc]
  unfold strtok
  simp only [hstart]
  rw [if_neg (by simp), List.takeWhile_append_of_pos hall, List.dropWhile_append_of_pos hall]
  cases rest with
  | nil => simp
  | cons d rest =>
      have hd : d ∈ delims := hrest d (by simp)
      simp [hd]

/-- `strtok` of a text that has been cut: what is left of the token and of the rest. -/
theorem strtok_take {delim : UInt8} {token : List UInt8} (hne : token ≠ [])
    (htoken : delim ∉ token) (rest : List UInt8) {n : ℕ} (hn : 0 < n) :
    strtok [delim] ((token ++ delim :: rest).take n) =
      (some (token.take n), rest.take (n - token.length - 1)) := by
  have htail : ((delim :: rest).take (n - token.length)).tail =
      rest.take (n - token.length - 1) := by
    rw [List.tail_take_eq_take_tail, List.tail_cons]
  rw [List.take_append, ← htail]
  apply strtok_of_forall
  · rw [Ne, List.take_eq_nil_iff, not_or]
    exact ⟨hn.ne', hne⟩
  · intro c hc hmem
    rw [List.mem_singleton.mp hmem] at hc
    exact htoken (List.mem_of_mem_take hc)
  · -- what is left behind the token begins with the delimiter, if anything is left
    intro c hc
    cases hroom : n - token.length with
    | zero => simp [hroom] at hc
    | succ room =>
        rw [hroom, List.take_succ_cons, List.head?_cons] at hc
        simpa using hc.symm

/-- The branch of a printed option stores its value. -/
theorem keyBranch_value (host : Host) (o : OptionSpec) :
    keyBranch host (str o.key) o.value = .ok { update := o.apply } := by
  cases o with
  | size n =>
      have hpos : 0 < (n.val : ℤ) := by exact_mod_cast n.least_le
      have hparse : parseSize host (decimal n.val) = ((n.val : ℤ), id, []) := by
        simp only [parseSize, stringToInt_decimal n.lt, if_pos hpos]
      have hne : ¬ (n.val : ℤ) = -1 := by omega
      show sizeBranch host (decimal n.val) = _
      simp only [sizeBranch, hparse, if_neg hne, UInt32.ofInt_natCast]
      rfl
  | rsize n =>
      have hbranch : keyBranch host (str "rsize") = string2intBranch host
          fun v o => { o with rsize := .ofInt v } := rfl
      show keyBranch host (str "rsize") (decimal n.val) = _
      simp only [hbranch, string2intBranch, string2int_decimal n.lt, UInt32.ofInt_natCast]
      rfl
  | count n =>
      have hbranch : keyBranch host (str "count") = atoiBranch
          fun v o => { o with count := .ofInt v } := rfl
      show keyBranch host (str "count") (decimal n.val) = _
      simp only [hbranch, atoiBranch, atoi_decimal n.lt, UInt64.ofInt_natCast]
      rfl
  | repeats n =>
      have hpos : ¬ (n.val : ℤ) < 1 := by exact_mod_cast Nat.not_lt.mpr n.least_le
      have hbranch : keyBranch host (str "repeat") = positiveBranch "repeat"
          fun v o => { o with repeats := .ofInt v } := rfl
      show keyBranch host (str "repeat") (decimal n.val) = _
      simp only [hbranch, positiveBranch, atoi_decimal n.lt, if_neg hpos, UInt64.ofInt_natCast]
      rfl
  | batchSize n =>
      have hpos : ¬ (n.val : ℤ) < 1 := by exact_mod_cast Nat.not_lt.mpr n.least_le
      have hbranch : keyBranch host (str "batch_size") = positiveBranch "batch_size"
          fun v o => { o with batchSize := .ofInt v } := rfl
      show keyBranch host (str "batch_size") (decimal n.val) = _
      simp only [hbranch, positiveBranch, atoi_decimal n.lt, if_neg hpos, UInt64.ofInt_natCast]
      rfl
  | conn n =>
      have hpos : ¬ UInt32.ofNat n.val ≤ 0 := by
        have hlt := n.lt
        have hle := n.least_le
        rw [UInt32.le_iff_toNat_le, UInt32.toNat_ofNat', UInt32.toNat_zero]
        omega
      show connBranch (decimal n.val) = _
      simp only [connBranch, atoi_decimal n.lt, UInt32.ofInt_natCast, if_neg hpos]
      rfl
  | port n =>
      have hbranch : keyBranch host (str "port") = atoiBranch
          fun v o => { o with port := .ofInt v } := rfl
      show keyBranch host (str "port") (decimal n.val) = _
      simp only [hbranch, atoiBranch, atoi_decimal n.lt, UInt32.ofInt_natCast]
      rfl
  | protocol p =>
      have htype : protocolType host (str "tcp") = 1 ∧ protocolType host (str "udp") = 3 :=
        ⟨rfl, rfl⟩
      cases p with
      | tcp =>
          show protocolBranch host (str "tcp") = _
          simp only [protocolBranch, htype.1]
          rfl
      | udp =>
          show protocolBranch host (str "udp") = _
          simp only [protocolBranch, htype.2]
          rfl
  | remotehost name => rfl

/-- The value of a printed option is no variable. -/
theorem OptionSpec.head?_value_ne (o : OptionSpec) : o.value.head? ≠ some '$'.toUInt8 := by
  intro hhead
  have hmem : '$'.toUInt8 ∈ o.value := List.mem_of_mem_head? hhead
  exact (isHostChar_cases (OptionSpec.isHostChar_of_mem_value hmem)).2.2.1 rfl

theorem optionParts_print (host : Host) (o : OptionSpec) :
    optionParts host o.print = .ok (str o.key, o.value) := by
  have hkeys : ∀ key ∈ OptionSpec.keys, str key ≠ [] ∧ (str key).all (· ∉ str "=") = true := by
    decide +kernel
  obtain ⟨hne, hall⟩ := hkeys o.key o.key_mem_keys
  have hkey : ∀ c ∈ str o.key, c ∉ str "=" := by simpa using hall
  have hvalue : ∀ c ∈ o.value, c ∉ str " " := by
    intro c hc
    have hblank := (isHostChar_cases (OptionSpec.isHostChar_of_mem_value hc)).2.2.2.2
    rw [show str " " = [32] from rfl, List.mem_singleton]
    exact hblank
  have hsplit : strtok (str "=") o.print = (some (str o.key), o.value) :=
    strtok_of_forall hne hkey (by simp [show str "=" = ['='.toUInt8] from rfl])
  have hread : (strtok (str " ") o.value).1 = some o.value := by
    have hend : ∀ c ∈ ([] : List UInt8).head?, c ∈ str " " := by simp
    have h := strtok_of_forall o.value_ne_nil hvalue hend
    rw [List.append_nil] at h
    rw [h]
  have hequals : '='.toUInt8 ∈ o.print := by simp [OptionSpec.print]
  have hflags := find?_optionFlags host hequals
  unfold optionParts
  simp only [hflags, hsplit, hread, Option.getD_some]

/-- A printed option is parsed without errors. -/
theorem parseOption_print (host : Host) (o : OptionSpec) :
    parseOption host o.print = .ok { update := o.apply } := by
  unfold parseOption optionPair
  simp only [optionParts_print, optionValue, if_neg o.head?_value_ne]
  exact keyBranch_value host o

/-- A printed option leaves the environment as it is. -/
theorem afterOption_print (host : Host) (o : OptionSpec) : afterOption host o.print = host := by
  unfold afterOption
  simp only [optionParts_print, o.head?_value_ne, and_false, if_false]

/-! ## Lists of options -/

namespace OptionSpec

/-- A printed option is one word that begins with a letter. -/
theorem isBlank_of_mem_print {o : OptionSpec} {c : UInt8} (hc : c ∈ o.print) :
    isBlank c = false := by
  have hkeys : ∀ key ∈ keys, (str key).all (! isBlank ·) = true := by decide +kernel
  rcases List.mem_append.mp hc with hc | hc
  · simpa using List.all_eq_true.mp (hkeys o.key o.key_mem_keys) c hc
  · rcases List.mem_cons.mp hc with rfl | hc
    · decide
    · exact (isHostChar_cases (isHostChar_of_mem_value hc)).2.1

theorem isAlpha_head_print (o : OptionSpec) : o.print.head?.any isAlpha = true := by
  have hkeys : ∀ key ∈ keys, str key ≠ [] ∧ (str key).head?.any isAlpha = true := by
      decide +kernel
  obtain ⟨hne, hhead⟩ := hkeys o.key o.key_mem_keys
  rw [print, List.head?_append_of_ne_nil _ hne]
  exact hhead

end OptionSpec

/-- Splitting printed options at the blanks gives the options. -/
theorem splitOnP_printOptions {options : List OptionSpec} (hne : options ≠ []) :
    (printOptions options).splitOnP isBlank = options.map OptionSpec.print := by
  unfold printOptions
  induction options with
  | nil => exact absurd rfl hne
  | cons o rest ih =>
      have hword : ∀ c ∈ o.print, isBlank c = false := fun _ => OptionSpec.isBlank_of_mem_print
      cases rest with
      | nil => simpa using List.splitOnP_eq_singleton hword
      | cons next rest =>
          have hrest := ih (List.cons_ne_nil _ _)
          rw [List.map_cons] at hrest
          rw [List.map_cons, List.map_cons, List.intercalate_cons_cons, List.append_assoc,
            List.singleton_append, List.splitOnP_append_cons_of_forall_mem hword _ rfl, hrest]

theorem optionWords_printOptions {options : List OptionSpec} (hne : options ≠ [])
    (hshort : ∀ o ∈ options, o.print.length < 100) :
    optionWords (printOptions options) = options.map OptionSpec.print := by
  have hfilter : (options.map OptionSpec.print).filter (fun word => word.head?.any isAlpha) =
      options.map OptionSpec.print := by
    rw [List.filter_eq_self]
    intro word hword
    obtain ⟨o, -, rfl⟩ := List.mem_map.mp hword
    exact o.isAlpha_head_print
  rw [optionWords, splitOnP_printOptions hne, hfilter, List.map_map]
  apply List.map_congr_left
  intro o ho
  have hlen := hshort o ho
  exact List.take_of_length_le (by omega)

theorem readWords_print (host : Host) (options : List OptionSpec) :
    readWords host (options.map OptionSpec.print) =
      options.map fun o => (host, o.print) := by
  induction options with
  | nil => rfl
  | cons o rest ih => rw [List.map_cons, readWords, afterOption_print, ih, List.map_cons]

/-- The loop over printed options applies one after the other. -/
theorem loop_optionStep (host : Host) (options : List OptionSpec) (update : Flowop → Flowop) :
    loop optionStep { update := update } (options.map fun o => (host, o.print)) =
      .ok { update := fun f => options.foldl (fun f o => o.apply f) (update f) } := by
  induction options generalizing update with
  | nil => rfl
  | cons o rest ih =>
      have hstep : optionStep { update := update } (host, o.print) =
          .ok { update := fun f => o.apply (update f) } := by
        rw [optionStep, parseOption_print]
        rfl
      rw [List.map_cons, loop_cons_ok hstep, ih]
      rfl

/-- A printed list of options is parsed without errors, each option in its turn. -/
theorem flowopParseOptions_printOptions (host : Host) {options : List OptionSpec}
    (hne : options ≠ []) (hfew : options.length ≤ maxOptions)
    (hshort : ∀ o ∈ options, o.print.length < 100) :
    flowopParseOptions host (printOptions options) =
      .ok { update := fun f => options.foldl (fun f o => o.apply f) (optionDefaults f) } := by
  rw [flowopParseOptions, optionWords_printOptions hne hshort, List.length_map,
    if_neg (Nat.not_lt.mpr hfew), readWords_print]
  exact loop_optionStep host options optionDefaults

/-- Printed options leave the environment as it is. -/
theorem foldl_afterOption_printOptions (host : Host) {options : List OptionSpec}
    (hne : options ≠ []) (hshort : ∀ o ∈ options, o.print.length < 100) :
    (optionWords (printOptions options)).foldl afterOption host = host := by
  rw [optionWords_printOptions hne hshort, List.foldl_map]
  exact List.foldl_fixed' (fun o => afterOption_print host o) options

end Uperf
