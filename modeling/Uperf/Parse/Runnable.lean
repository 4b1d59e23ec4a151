import Uperf.Parse.OptionsFit
import Uperf.Parse.Pieces

/-!
# When an accepted profile can be run

The parser checks every attribute that a profile has and none that it lacks.
Here is which accepted profiles can be run, said of the attributes behind each
group tag and each flowop tag, and that no others can.
-/

namespace Uperf

open Lib

/-! ## The size of a flowop -/

/-- The sizes to send are positive: one size or bounds to choose one from. -/
def HasSize (o : FlowopOptions) : Prop :=
  0 < o.size ∨ (o.foRandomSize = true ∧ 0 < o.randSzMin ∧ 0 < o.randSzMax)

/-- The bounds of random sizes are positive. -/
def RandOk (o : FlowopOptions) : Prop :=
  o.foRandomSize = true → 0 < o.randSzMin ∧ 0 < o.randSzMax

/-- The size comes from `rand(...)`. -/
def isRandom (value : List UInt8) : Bool := strcasecmpEq (value.take 5) (str "rand(")

/-- The value of the option, if it is a size. -/
def sizeValue (host : Host) (word : List UInt8) : Option (List UInt8) :=
  match optionPair host word with
  | .ok (key, value) => if strcasecmpEq key (str "size") then some value else none
  | .error _ => none

/-- The sizes among words to be read. -/
def sizesRead (reads : List (Host × List UInt8)) : List (List UInt8) :=
  reads.filterMap fun read => sizeValue read.1 read.2

theorem sizesRead_cons (read : Host × List UInt8) (reads : List (Host × List UInt8)) :
    sizesRead (read :: reads) = (sizeValue read.1 read.2).toList ++ sizesRead reads := by
  unfold sizesRead
  cases hread : sizeValue read.1 read.2 <;> simp [hread]

/-- The sizes in a text of options. -/
def sizeValues (host : Host) (strOptions : List UInt8) : List (List UInt8) :=
  sizesRead (readWords host (optionWords strOptions))

/-- The options that have to do with sizes are the same. -/
structure SameSize (o o' : FlowopOptions) : Prop where
  size : o'.size = o.size
  foRandomSize : o'.foRandomSize = o.foRandomSize
  randSzMin : o'.randSzMin = o.randSzMin
  randSzMax : o'.randSzMax = o.randSzMax

theorem SameSize.hasSize_iff {o o' : FlowopOptions} (h : SameSize o o') :
    HasSize o' ↔ HasSize o := by
  simp only [HasSize, h.size, h.foRandomSize, h.randSzMin, h.randSzMax]

theorem SameSize.randOk {o o' : FlowopOptions} (h : SameSize o o') (hok : RandOk o) :
    RandOk o' := by
  unfold RandOk
  rw [h.foRandomSize, h.randSzMin, h.randSzMax]
  exact hok

/-- The setting changes options, and none that has to do with sizes. -/
structure Unsized (set : Setting) : Prop where
  type : ∀ f, (set.update f).type = f.type
  execute : ∀ f, (set.update f).execute = f.execute
  options : ∀ f, SameSize f.options (set.update f).options

/-- All settings of the branch are like that. -/
def UnsizedBranch (branch : OptionBranch) : Prop :=
  ∀ value set, branch value = .ok set → Unsized set

theorem unsized_option {change : FlowopOptions → FlowopOptions} {errors : List ErrorText}
    (hchange : ∀ o, SameSize o (change o)) : Unsized (.option change errors) where
  type _ := rfl
  execute _ := rfl
  options f := hchange f.options

theorem unsized_errors {errors : List ErrorText} : Unsized { errors := errors } where
  type _ := rfl
  execute _ := rfl
  options _ := ⟨rfl, rfl, rfl, rfl⟩

section

variable {host : Host} {store : ℤ → FlowopOptions → FlowopOptions}

theorem unsized_string2intBranch (hstore : ∀ v o, SameSize o (store v o)) :
    UnsizedBranch (string2intBranch host store) := by
  intro value set hset
  cases hset
  exact unsized_option (hstore _)

theorem unsized_atoiBranch (hstore : ∀ v o, SameSize o (store v o)) :
    UnsizedBranch (atoiBranch store) := by
  intro value set hset
  cases hset
  exact unsized_option (hstore _)

theorem unsized_positiveBranch {key : String} (hstore : ∀ v o, SameSize o (store v o)) :
    UnsizedBranch (positiveBranch key store) := by
  intro value set hset
  unfold positiveBranch at hset
  split at hset
  · cases hset
    exact unsized_errors
  · cases hset
    exact unsized_option (hstore _)

theorem unsized_boundedBranch {key : String} {least most : ℤ}
    (hstore : ∀ v o, SameSize o (store v o)) :
    UnsizedBranch (boundedBranch host key least most store) := by
  intro value set hset
  simp only [boundedBranch] at hset
  split at hset
  · cases hset
    exact unsized_option (hstore _)
  · cases hset
    exact unsized_errors

theorem unsized_string2nsecBranch {key : String} {store : UInt64 → FlowopOptions → FlowopOptions}
    (hstore : ∀ v o, SameSize o (store v o)) :
    UnsizedBranch (string2nsecBranch host key store) := by
  intro value set hset
  cases hset
  exact unsized_option (hstore _)

theorem unsized_textBranch {store : List UInt8 → FlowopOptions → FlowopOptions}
    (hstore : ∀ v o, SameSize o (store v o)) : UnsizedBranch (textBranch store) := by
  intro value set hset
  cases hset
  exact unsized_option (hstore _)

theorem unsized_strcpyBranch {n : ℕ} {field : FlowopOptions → CharArray (n + 1)}
    {store : CharArray (n + 1) → FlowopOptions → FlowopOptions}
    (hstore : ∀ v o, SameSize o (store v o)) : UnsizedBranch (strcpyBranch field store) := by
  intro value set hset
  unfold strcpyBranch at hset
  split at hset
  · cases hset
    exact unsized_option fun o => hstore _ o
  · cases hset

theorem unsized_dirBranch : UnsizedBranch (dirBranch host) := by
  intro value set hset
  simp only [dirBranch] at hset
  split at hset
  · cases hset
    exact unsized_option fun _ => ⟨rfl, rfl, rfl, rfl⟩
  · cases hset
  · cases hset
    exact unsized_option fun _ => ⟨rfl, rfl, rfl, rfl⟩

theorem unsized_protocolBranch : UnsizedBranch (protocolBranch host) := by
  intro value set hset
  cases hset
  exact unsized_option fun _ => ⟨rfl, rfl, rfl, rfl⟩

theorem unsized_connBranch : UnsizedBranch connBranch := by
  intro value set hset
  cases hset
  exact ⟨fun _ => rfl, fun _ => rfl, fun _ => ⟨rfl, rfl, rfl, rfl⟩⟩

/-- The row has another key than `size` and leaves sizes alone. -/
def UnsizedRow (name : String) (branch : OptionBranch) : Prop :=
  strcasecmpEq (str name) (str "size") = false ∧ UnsizedBranch branch

theorem unsizedRow_sctp : ∀ row ∈ sctpBranches host, UnsizedRow row.1 row.2 := by
  unfold sctpBranches
  simp only [List.forall_mem_cons, List.not_mem_nil, false_imp_iff, implies_true, and_true]
  refine ⟨?_, ?_, ?_, ?_, ?_, ?_, ?_, ?_, ?_, ?_, ?_, ?_, ?_, ?_⟩
  all_goals
    refine ⟨by decide, ?_⟩
    first
    | exact unsized_boundedBranch fun _ _ => ⟨rfl, rfl, rfl, rfl⟩
    | exact unsized_textBranch fun _ _ => ⟨rfl, rfl, rfl, rfl⟩

theorem unsizedRow_ssl : ∀ row ∈ sslBranches, UnsizedRow row.1 row.2 := by
  unfold sslBranches
  simp only [List.forall_mem_cons, List.not_mem_nil, false_imp_iff, implies_true, and_true]
  refine ⟨?_, ?_, ?_⟩
  · exact ⟨by decide, unsized_textBranch fun _ _ => ⟨rfl, rfl, rfl, rfl⟩⟩
  · exact ⟨by decide, unsized_strcpyBranch fun _ _ => ⟨rfl, rfl, rfl, rfl⟩⟩
  · exact ⟨by decide, unsized_strcpyBranch fun _ _ => ⟨rfl, rfl, rfl, rfl⟩⟩

/-- Only one row sets sizes. -/
theorem row_cases : ∀ row ∈ optionBranches host,
    row = ("size", sizeBranch host) ∨ UnsizedRow row.1 row.2 := by
  intro row hrow
  unfold optionBranches at hrow
  rw [List.mem_append, List.mem_append] at hrow
  obtain (hrow | hrow) | hrow := hrow
  · revert row
    simp only [List.forall_mem_cons, List.not_mem_nil, false_imp_iff, implies_true, and_true]
    refine ⟨Or.inl trivial, ?_, ?_, ?_, ?_, ?_, ?_, ?_, ?_, ?_, ?_, ?_, ?_, ?_, ?_, ?_, ?_, ?_, ?_⟩
    all_goals
      refine Or.inr ⟨by decide, ?_⟩
      first
      | exact unsized_string2intBranch fun _ _ => ⟨rfl, rfl, rfl, rfl⟩
      | exact unsized_atoiBranch fun _ _ => ⟨rfl, rfl, rfl, rfl⟩
      | exact unsized_positiveBranch fun _ _ => ⟨rfl, rfl, rfl, rfl⟩
      | exact unsized_boundedBranch fun _ _ => ⟨rfl, rfl, rfl, rfl⟩
      | exact unsized_string2nsecBranch fun _ _ => ⟨rfl, rfl, rfl, rfl⟩
      | exact unsized_textBranch fun _ _ => ⟨rfl, rfl, rfl, rfl⟩
      | exact unsized_dirBranch
      | exact unsized_protocolBranch
      | exact unsized_connBranch
  · split at hrow
    · exact Or.inr (unsizedRow_sctp row hrow)
    · cases hrow
  · split at hrow
    · exact Or.inr (unsizedRow_ssl row hrow)
    · cases hrow

/-! ## What an option does to the size -/

/-- A clean option that sets the size. -/
structure Sizes (value : List UInt8) (set : Setting) : Prop where
  type : ∀ f, (set.update f).type = f.type
  execute : ∀ f, (set.update f).execute = f.execute
  hasSize : ∀ f, HasSize (set.update f).options
  randOk : ∀ f, RandOk f.options → RandOk (set.update f).options
  foRandomSize : ∀ f, (set.update f).options.foRandomSize =
    (f.options.foRandomSize || isRandom value)

theorem or_and_distrib (a b c : UInt32) : (a ||| b) &&& c = a &&& c ||| b &&& c :=
  UInt32.toBitVec_inj.mp BitVec.and_or_distrib_right

theorem foRandomSize_or_oSizeRand {o : FlowopOptions} :
    ({ o with flag := o.flag ||| oSizeRand } : FlowopOptions).foRandomSize = true := by
  have hself : oSizeRand &&& oSizeRand ≠ 0 := by decide
  simp only [FlowopOptions.foRandomSize, or_and_distrib, ne_eq, UInt32.or_eq_zero_iff, hself,
    and_false, not_false_eq_true, decide_true]

/-- A number does not begin like `rand(`. -/
theorem stringToInt_of_isRandom {value : List UInt8} (hrandom : isRandom value = true) :
    stringToInt host value = -1 := by
  cases value with
  | nil =>
      have : isRandom [] = false := by decide
      rw [this] at hrandom
      cases hrandom
  | cons c rest =>
      -- the text begins with an r
      have hc : tolower c = 114 := by
        unfold isRandom strcasecmpEq at hrandom
        have hlist := of_decide_eq_true hrandom
        have hrand : (str "rand(").map tolower = [114, 97, 110, 100, 40] := by decide
        rw [hrand] at hlist
        exact (List.cons.inj hlist).1
      have hdollar : c ≠ '$'.toUInt8 := by
        rintro rfl
        revert hc
        decide
      have hpoint : c ≠ '.'.toUInt8 := by
        rintro rfl
        revert hc
        decide
      have hdigit : isDigit c = false := by
        by_contra hdigit
        simp only [isDigit, Bool.not_eq_false, Bool.and_eq_true, decide_eq_true_eq] at hdigit
        have hsame : tolower c = c := by
          unfold tolower
          rw [if_neg]
          rintro ⟨hlow, -⟩
          exact absurd (UInt8.le_trans hlow hdigit.2) (by decide)
        rw [hsame] at hc
        rw [hc] at hdigit
        exact absurd hdigit.2 (by decide)
      simp [stringToInt, numberText, hdollar, startsNumber, hdigit, hpoint]

/-- Bounds give no size of their own. -/
theorem parseSize_of_isRandom {value : List UInt8} (hsize : ¬ 0 < stringToInt host value)
    (hrandom : isRandom value = true) : ∃ min max errors, parseSize host value =
      (if 0 < UInt32.ofInt min ∧ 0 < UInt32.ofInt max then 0 else -1,
        fun o => { o with
          randSzMin := .ofInt min, randSzMax := .ofInt max, flag := o.flag ||| oSizeRand },
        errors) := by
  unfold parseSize
  simp only [if_neg hsize]
  rw [if_pos (show strcasecmpEq (value.take 5) (str "rand(") = true from hrandom)]
  exact ⟨_, _, _, rfl⟩

theorem sizes_of_sizeBranch {value : List UInt8} {set : Setting}
    (hset : sizeBranch host value = .ok set) (hclean : set.errors = []) : Sizes value set := by
  by_cases hsize : 0 < stringToInt host value
  · -- one size
    have hrandom : isRandom value = false := by
      by_contra hrandom
      rw [stringToInt_of_isRandom (by simpa using hrandom)] at hsize
      exact absurd hsize (by decide)
    have hpos : 0 < UInt32.ofInt (stringToInt host value) :=
      (pos_ofInt_iff hsize.le (stringToInt_lt host value)).mpr hsize
    simp only [sizeBranch, parseSize, if_pos hsize] at hset
    cases hset
    exact {
      type := fun _ => rfl
      execute := fun _ => rfl
      hasSize := fun _ => Or.inl hpos
      randOk := fun _ hok => hok
      foRandomSize := fun _ => by rw [hrandom, Bool.or_false]; rfl }
  · by_cases hrandom : isRandom value = true
    · -- bounds
      obtain ⟨min, max, errors, hparse⟩ := parseSize_of_isRandom hsize hrandom
      simp only [sizeBranch, hparse, Except.ok.injEq] at hset
      subst hset
      have hpos : 0 < UInt32.ofInt min ∧ 0 < UInt32.ofInt max := by
        by_contra hpos
        simp [Setting.option, hpos] at hclean
      exact {
        type := fun _ => rfl
        execute := fun _ => rfl
        hasSize := fun _ => Or.inr ⟨foRandomSize_or_oSizeRand, hpos⟩
        randOk := fun _ _ _ => hpos
        foRandomSize := fun _ => by
          rw [hrandom, Bool.or_true]
          exact foRandomSize_or_oSizeRand }
    · have hshown : strcasecmpEq (value.take 5) (str "rand(") = false := by
        simpa [isRandom] using hrandom
      simp only [sizeBranch, parseSize, if_neg hsize, hshown] at hset
      cases hset
      simp [Setting.option] at hclean

theorem unsized_of_flag {row : String × UInt32} (hrow : row ∈ optionFlags host) :
    Unsized (.option (fun o => { o with flag := o.flag ||| row.2 }) []) := by
  have hbit : ∀ row ∈ optionFlags host, row.2 &&& oSizeRand = 0 := by
    intro row hmem
    unfold optionFlags at hmem
    rw [List.mem_append] at hmem
    obtain hmem | hmem := hmem
    · revert row
      decide
    · split at hmem
      · revert row
        decide
      · cases hmem
  apply unsized_option
  intro o
  refine ⟨rfl, ?_, rfl, rfl⟩
  unfold FlowopOptions.foRandomSize
  rw [or_and_distrib, hbit row hrow, UInt32.or_zero]

/-- A clean option without a value is a flag. -/
theorem unsized_of_optionPair {word : List UInt8} {set : Setting}
    (hpair : optionPair host word = .error set) (hclean : set.errors = []) : Unsized set := by
  obtain ⟨row, hrow, rfl⟩ | ⟨text, rfl⟩ := optionPair_error_cases hpair
  · exact unsized_of_flag hrow
  · cases hclean

/-- A clean option sets the size if it is one, and leaves it alone otherwise. -/
theorem parseOption_sizing {word : List UInt8} {set : Setting}
    (hset : parseOption host word = .ok set) (hclean : set.errors = []) :
    (∀ value, sizeValue host word = some value → Sizes value set) ∧
      (sizeValue host word = none → Unsized set) := by
  unfold parseOption at hset
  unfold sizeValue
  cases hpair : optionPair host word with
  | error flag =>
      rw [hpair] at hset
      cases hset
      exact ⟨nofun, fun _ => unsized_of_optionPair hpair hclean⟩
  | ok pair =>
      obtain ⟨key, value⟩ := pair
      rw [hpair] at hset
      simp only at hset ⊢
      unfold keyBranch at hset
      cases hfind : (optionBranches host).find? fun row => strcasecmpEq key (str row.1) with
      | none =>
          rw [hfind] at hset
          cases hset
          cases hclean
      | some row =>
          rw [hfind] at hset
          have hkey := List.find?_some hfind
          obtain rfl | ⟨hname, hrow⟩ := row_cases row (List.mem_of_find?_eq_some hfind)
          · simp only at hkey
            simp only [hkey, if_true, Option.some.injEq, reduceCtorEq, false_imp_iff, and_true]
            rintro value' rfl
            exact sizes_of_sizeBranch hset hclean
          · -- the key of any other row is not `size`
            have hother : strcasecmpEq key (str "size") = false := by
              rw [strcasecmpEq_iff] at hkey
              rw [← hname, strcasecmpEq, strcasecmpEq, hkey]
            simp only [hother, Bool.false_eq_true, if_false, reduceCtorEq, false_imp_iff,
              implies_true, true_and]
            intro _
            exact hrow _ _ hset

/-! ## What a text of options does to the size -/

/-- The sizes that a setting comes to after options with the given sizes. -/
structure SizedBy (set set' : Setting) (values : List (List UInt8)) : Prop where
  type : ∀ f, (set'.update f).type = (set.update f).type
  execute : ∀ f, (set'.update f).execute = (set.update f).execute
  hasSize : ∀ f, HasSize (set'.update f).options ↔ HasSize (set.update f).options ∨ values ≠ []
  randOk : ∀ f, RandOk (set.update f).options → RandOk (set'.update f).options
  foRandomSize : ∀ f, (set'.update f).options.foRandomSize =
    ((set.update f).options.foRandomSize || values.any isRandom)

theorem SizedBy.cons {set next set' : Setting} {read : Host × List UInt8}
    {reads : List (Host × List UInt8)}
    (hunsized : sizeValue read.1 read.2 = none → Unsized next)
    (hsizes : ∀ value, sizeValue read.1 read.2 = some value → Sizes value next)
    (h : SizedBy (set.followedBy next) set' (sizesRead reads)) :
    SizedBy set set' (sizesRead (read :: reads)) := by
  rw [sizesRead_cons]
  cases hword : sizeValue read.1 read.2 with
  | none =>
      -- the word leaves the sizes alone
      have hnext := hunsized hword
      rw [Option.toList_none, List.nil_append]
      exact {
        type := fun f => (h.type f).trans (hnext.type _)
        execute := fun f => (h.execute f).trans (hnext.execute _)
        hasSize := fun f => (h.hasSize f).trans (or_congr_left (hnext.options _).hasSize_iff)
        randOk := fun f hok => h.randOk f ((hnext.options _).randOk hok)
        foRandomSize := fun f => by
          rw [h.foRandomSize f]
          exact congrArg (· || _) (hnext.options (set.update f)).foRandomSize }
  | some value =>
      -- the word sets the sizes
      have hnext := hsizes value hword
      rw [Option.toList_some, List.singleton_append]
      exact {
        type := fun f => (h.type f).trans (hnext.type _)
        execute := fun f => (h.execute f).trans (hnext.execute _)
        hasSize := fun f => iff_of_true ((h.hasSize f).mpr (Or.inl (hnext.hasSize _)))
          (Or.inr (List.cons_ne_nil _ _))
        randOk := fun f hok => h.randOk f (hnext.randOk _ hok)
        foRandomSize := fun f => by
          rw [h.foRandomSize f, List.any_cons, ← Bool.or_assoc]
          exact congrArg (· || _) (hnext.foRandomSize (set.update f)) }

theorem sizedBy_of_loop {reads : List (Host × List UInt8)} {set set' : Setting}
    (hloop : loop optionStep set reads = .ok set') (hclean : set'.errors = []) :
    set.errors = [] ∧ SizedBy set set' (sizesRead reads) := by
  induction reads generalizing set with
  | nil =>
      cases hloop
      exact ⟨hclean, fun _ => rfl, fun _ => rfl, fun _ => by simp [sizesRead], fun _ hok => hok,
        fun _ => by simp [sizesRead]⟩
  | cons read reads ih =>
      rw [loop] at hloop
      obtain ⟨mid, hmid, hrest⟩ := bind_eq_ok_iff.mp hloop
      obtain ⟨next, hnext, heq⟩ := bind_eq_ok_iff.mp hmid
      cases heq
      obtain ⟨herrors, hsized⟩ := ih hrest
      obtain ⟨hset, hclean'⟩ := List.append_eq_nil_iff.mp herrors
      obtain ⟨hsizes, hunsized⟩ := parseOption_sizing hnext hclean'
      exact ⟨hset, hsized.cons hunsized hsizes⟩

/-- A clean text of options leaves a size if it has one or if bounds were given
before. -/
theorem flowopParseOptions_sizing {text : List UInt8} {set : Setting}
    (hset : flowopParseOptions host text = .ok set) (hclean : set.errors = []) (f : Flowop)
    (hok : RandOk f.options) :
    (set.update f).type = f.type ∧ (set.update f).execute = f.execute ∧
      (HasSize (set.update f).options ↔
        f.options.foRandomSize = true ∨ sizeValues host text ≠ []) ∧
      RandOk (set.update f).options ∧
      (set.update f).options.foRandomSize =
        (f.options.foRandomSize || (sizeValues host text).any isRandom) := by
  unfold flowopParseOptions at hset
  split at hset
  · cases hset
  · obtain ⟨-, hsized⟩ := sizedBy_of_loop hset hclean
    refine ⟨hsized.type f, hsized.execute f, ?_, hsized.randOk f hok, hsized.foRandomSize f⟩
    have hdefault : HasSize (optionDefaults f).options ↔ f.options.foRandomSize = true := by
      constructor
      · rintro (hpos | hrandom)
        · exact absurd hpos (UInt32.lt_irrefl 0)
        · exact hrandom.1
      · intro hrandom
        exact Or.inr ⟨hrandom, hok hrandom⟩
    exact (hsized.hasSize f).trans (or_congr_left hdefault)

/-! ## The attributes of a flowop -/

/-- The last of the symbols that is of the type. -/
def lastWith (kind : TokenType) (body : List Visit) : Option Visit :=
  (body.filter (·.type = kind)).getLast?

/-- The sizes in the text of the symbol. -/
def Visit.sizes (s : Visit) : List (List UInt8) := sizeValues s.optionsHost s.text

/-- The attributes give a size: the last options do, or some options give
bounds. -/
def Sized (body : List Visit) : Prop :=
  (∃ s, lastWith .options body = some s ∧ s.sizes ≠ []) ∨
    ∃ s ∈ body, s.type = .options ∧ (s.sizes).any isRandom = true

/-- The attributes of a flowop give it a type, and a size if it needs one. -/
def FlowopComplete (body : List Visit) : Prop :=
  ∃ s, lastWith .type body = some s ∧ ((flowopType s.text).moves = true → Sized body)

/-- The flowop can be executed. -/
structure FlowopRunnable (f : Flowop) : Prop where
  type : f.type ≠ .error
  execute : f.execute ≠ none
  size : f.type.moves = true → HasSize f.options

/-- A symbol that is read without an error. -/
def CleanSymbol (s : Visit) : Prop :=
  (s.type = .type → flowopType s.text ≠ .error) ∧
    (s.type = .options →
      ∃ set, flowopParseOptions s.optionsHost s.text = .ok set ∧ set.errors = []) ∧
    (s.type = .nthreads ∨ s.type = .nprocesses → 0 ≤ stringToInt s.host s.text)

theorem lastWith_concat (kind : TokenType) (body : List Visit) (s : Visit) :
    lastWith kind (body ++ [s]) = if s.type = kind then some s else lastWith kind body := by
  unfold lastWith
  by_cases hs : s.type = kind <;> simp [hs]

/-- Some options give bounds. -/
def Bounded (body : List Visit) : Prop :=
  ∃ s ∈ body, s.type = .options ∧ (s.sizes).any isRandom = true

/-- The flowop is what the attributes say. -/
structure Reflects (body : List Visit) (f : Flowop) : Prop where
  type : f.type = ((lastWith .type body).map fun s => flowopType s.text).getD .error
  execute : f.execute.isSome = (lastWith .type body).isSome
  randOk : RandOk f.options
  foRandomSize : f.options.foRandomSize = true ↔ Bounded body
  hasSize : HasSize f.options ↔ Sized body

theorem reflects_fresh {f : Flowop} (hf : FreshFlowop f) : Reflects [] f := by
  obtain ⟨id, rfl⟩ := hf
  have hflag : ¬ (({ count := 1, repeats := 1, batchSize := 1 } : FlowopOptions).foRandomSize =
      true) := by
    decide
  constructor
  · rfl
  · rfl
  · intro hrandom
    exact absurd hrandom hflag
  · refine iff_of_false hflag ?_
    rintro ⟨s, hs, -⟩
    cases hs
  · refine iff_of_false ?_ ?_
    · rintro (hpos | hrandom)
      · exact absurd hpos (UInt32.lt_irrefl 0)
      · exact hflag hrandom.1
    · rintro (⟨s, hs, -⟩ | ⟨s, hs, -⟩) <;> cases hs

theorem bounded_concat {body : List Visit} {s : Visit} :
    Bounded (body ++ [s]) ↔
      Bounded body ∨ (s.type = .options ∧ (s.sizes).any isRandom = true) := by
  simp only [Bounded, List.mem_append, List.mem_singleton, or_and_right, exists_or, exists_eq_left]

theorem sized_concat {body : List Visit} {s : Visit} (hs : s.type = .options) :
    Sized (body ++ [s]) ↔ Bounded body ∨ s.sizes ≠ [] := by
  have hlast : lastWith .options (body ++ [s]) = some s := by simp [lastWith_concat, hs]
  have hne : (s.sizes).any isRandom = true → s.sizes ≠ [] := by
    rintro hany hnil
    rw [hnil] at hany
    cases hany
  constructor
  · rintro (⟨s', hs', hvalues⟩ | hbounded)
    · rw [hlast] at hs'
      cases hs'
      exact Or.inr hvalues
    · exact (bounded_concat.mp hbounded).imp id fun h => hne h.2
  · rintro (hbounded | hvalues)
    · exact Or.inr (bounded_concat.mpr (Or.inl hbounded))
    · exact Or.inl ⟨s, hlast, hvalues⟩

theorem sized_concat_of_ne {body : List Visit} {s : Visit} (hs : s.type ≠ .options) :
    Sized (body ++ [s]) ↔ Sized body := by
  have hlast : lastWith .options (body ++ [s]) = lastWith .options body := by
    simp [lastWith_concat, hs]
  have hbounded : Bounded (body ++ [s]) ↔ Bounded body := by
    rw [bounded_concat]
    simp [hs]
  unfold Sized
  rw [hlast]
  exact or_congr_right hbounded

theorem Reflects.concat {body : List Visit} {s : Visit} {f : Flowop} (h : Reflects body f)
    (hclean : CleanSymbol s) : Reflects (body ++ [s]) (flowopUpdate s f) := by
  by_cases htype : s.type = .type
  · have hoptions : s.type ≠ .options := by simp [htype]
    simp only [flowopUpdate, htype]
    constructor
    · simp [lastWith_concat, htype]
    · simp [lastWith_concat, htype]
    · exact h.randOk
    · rw [bounded_concat]
      simpa [htype] using h.foRandomSize
    · rw [sized_concat_of_ne hoptions]
      exact h.hasSize
  by_cases hoptions : s.type = .options
  · obtain ⟨set, hset, herrors⟩ := hclean.2.1 hoptions
    -- the options are read where the symbol is come to
    have hsizing := flowopParseOptions_sizing hset herrors f h.randOk
    rw [← Visit.sizes] at hsizing
    obtain ⟨hftype, hexecute, hsize, hok, hrandom⟩ := hsizing
    simp only [flowopUpdate, hoptions, hset]
    constructor
    · rw [hftype, h.type]
      simp [lastWith_concat, hoptions]
    · rw [hexecute, h.execute]
      simp [lastWith_concat, hoptions]
    · exact hok
    · rw [hrandom, Bool.or_eq_true, h.foRandomSize, bounded_concat]
      simp [hoptions]
    · rw [hsize, h.foRandomSize, sized_concat hoptions]
  · rw [flowopUpdate_of_ne htype hoptions]
    constructor
    · rw [h.type]
      simp [lastWith_concat, htype]
    · rw [h.execute]
      simp [lastWith_concat, htype]
    · exact h.randOk
    · rw [h.foRandomSize, bounded_concat]
      simp [hoptions]
    · rw [h.hasSize, sized_concat_of_ne hoptions]

theorem reflects_foldl {body : List Visit} {f : Flowop} (hf : FreshFlowop f)
    (hclean : ∀ s ∈ body, CleanSymbol s) :
    Reflects body (body.foldl (fun f s => flowopUpdate s f) f) := by
  induction body using List.reverseRecOn with
  | nil => exact reflects_fresh hf
  | append_singleton body s ih =>
      rw [List.foldl_append]
      exact (ih fun s' hs' => hclean s' (List.mem_append_left _ hs')).concat
        (hclean s (by simp))

/-- Where the attributes are read without an error, the flowop can be executed if
none is missing. -/
theorem flowopRunnable_iff {body : List Visit} {f : Flowop}
    (hmade : MadeFrom flowopUpdate FreshFlowop f body)
    (hclean : ∀ s ∈ body, CleanSymbol s) : FlowopRunnable f ↔ FlowopComplete body := by
  obtain ⟨new, hnew, rfl⟩ := hmade
  have hreflects := reflects_foldl hnew hclean
  cases hlast : lastWith .type body with
  | none =>
      have htype := hreflects.type
      rw [hlast] at htype
      -- without a type attribute the type is still `FLOWOP_ERROR`
      refine iff_of_false (fun hrun => hrun.type htype) ?_
      rintro ⟨s, hs, -⟩
      rw [hlast] at hs
      cases hs
  | some s =>
      have htype := hreflects.type
      have hexecute := hreflects.execute
      rw [hlast] at htype hexecute
      have hmem : s ∈ body ∧ s.type = .type := by
        have := List.mem_of_getLast? hlast
        simpa using this
      constructor
      · intro hrun
        refine ⟨s, hlast, fun hmoves => hreflects.hasSize.mp (hrun.size ?_)⟩
        rw [htype]
        exact hmoves
      · rintro ⟨s', hs', hsize⟩
        rw [hlast] at hs'
        cases hs'
        constructor
        · rw [htype]
          exact (hclean s hmem.1).1 hmem.2
        · rw [← Option.isSome_iff_ne_none, hexecute]
          rfl
        · intro hmoves
          rw [htype] at hmoves
          exact hreflects.hasSize.mpr (hsize hmoves)

/-! ## The threads of a group -/

/-- The attributes of a group give it threads. -/
def ThreadsComplete (body : List Visit) : Prop :=
  ∃ s, (body.filter fun s => s.type = .nthreads ∨ s.type = .nprocesses).getLast? = some s ∧
    0 < stringToInt s.host s.text

theorem threads_pos_iff {body : List Visit} {n : UInt32}
    (hmade : MadeFrom threadsUpdate (· = 0) n body)
    (hclean : ∀ s ∈ body, CleanSymbol s) : 0 < n ↔ ThreadsComplete body := by
  obtain ⟨_, rfl, rfl⟩ := hmade
  unfold ThreadsComplete
  induction body using List.reverseRecOn with
  | nil => simp
  | append_singleton body s ih =>
      have hbody := ih fun s' hs' => hclean s' (List.mem_append_left _ hs')
      rw [List.foldl_append, List.foldl_cons, List.foldl_nil]
      by_cases hs : s.type = .nthreads ∨ s.type = .nprocesses
      · have hnonneg := (hclean s (by simp)).2.2 hs
        rw [threadsUpdate, if_pos hs, pos_ofInt_iff hnonneg (stringToInt_lt s.host s.text)]
        simp [hs]
      · rw [threadsUpdate, if_neg hs, hbody]
        simp [hs]

/-! ## A whole profile -/

theorem cleanSymbol_of_cleanStep {b b' : Builder} {s : Visit} (hstep : CleanStep b s b') :
    CleanSymbol s := by
  cases hstep with
  | quiet hs hquiet =>
      simp only [loudTypes, List.mem_cons, List.not_mem_nil, or_false, not_or] at hs
      obtain ⟨-, -, -, htype, hoptions, hthreads, hprocesses⟩ := hs
      exact ⟨fun h => absurd h htype, fun h => absurd h hoptions,
        fun h => absurd h (not_or.mpr ⟨hthreads, hprocesses⟩)⟩
  | threads g flag hs hg hval hb' =>
      refine ⟨fun h => ?_, fun h => ?_, fun _ => hval⟩ <;> simp [h] at hs
  | groupName g name hs hg hb' => simp [CleanSymbol, hs]
  | groupStart hs hb' => simp [CleanSymbol, hs]
  | txnStart g tlist hs hg hnone hsome hb' => simp [CleanSymbol, hs]
  | flowopStart txn flist hs htxn hnone hsome hb' => simp [CleanSymbol, hs]
  | type f hs hf htype hb' => simp [CleanSymbol, hs, htype]
  | options f set hs hf hset hclean hb' => simp [CleanSymbol, hs, hset, hclean]

theorem cleanSymbol_of_run {list : List Visit} {b b' : Builder}
    (hrun : run cleanStep b list = some b') : ∀ s ∈ list, CleanSymbol s := by
  induction list generalizing b with
  | nil => simp
  | cons s rest ih =>
      obtain ⟨mid, hmid, hrest⟩ := run_cons.mp hrun
      rw [List.forall_mem_cons]
      exact ⟨cleanSymbol_of_cleanStep (cleanStep_cases hmid), ih hrest⟩

end

/-- The symbols of a profile, as `build_worklist` comes to them. -/
def profileSymbols (host : Host) (file : List UInt8) : List Visit :=
  match parse host (profileText file) with
  | .ok (list, _) => visits host list
  | .error _ => []

/-- Every group has a thread, and every flowop can be executed. -/
def Runnable (w : Workorder) : Prop :=
  (∀ g ∈ w.grp, 0 < g.nthreads) ∧ ∀ g ∈ w.grp, ∀ f ∈ g.flowops, FlowopRunnable f

/-- No group lacks its threads, and no flowop its type or its size. -/
structure Complete (list : List Visit) : Prop where
  threads : ∀ body ∈ groupBodies list, ThreadsComplete body
  flowops : ∀ body ∈ flowopBodies list, FlowopComplete body

/-- An accepted profile can be run if its attributes are complete, and not
otherwise. -/
theorem runnable_iff_complete {host : Host} {file : List UInt8} {w : Workorder}
    {errors : List ErrorText} (hparse : parseAppProfile host file = .ok (some w, errors)) :
    Runnable w ↔ Complete (profileSymbols host file) := by
  have hfile : file ≠ [] := by
    rintro rfl
    cases hparse
  obtain ⟨rfl, list, b, hlist, hrun, rfl⟩ := (parseAppProfile_eq_some_iff hfile).mp hparse
  have hsymbols : profileSymbols host file = visits host list := by simp [profileSymbols, hlist]
  have hclean := cleanSymbol_of_run hrun
  have hthreads : (∀ g ∈ b.grp, 0 < g.nthreads) ↔
      ∀ body ∈ groupBodies (visits host list), ThreadsComplete body := by
    have hiff := forall_iff_of_forall₂ (P := (0 < ·)) (Q := ThreadsComplete)
      (threads_made hrun) fun body hbody n hmade =>
        threads_pos_iff hmade fun s hs => hclean s (mem_of_mem_sections hbody hs)
    rw [← hiff, List.forall_mem_map]
  have hflowops : (∀ g ∈ b.grp, ∀ f ∈ g.flowops, FlowopRunnable f) ↔
      ∀ body ∈ flowopBodies (visits host list), FlowopComplete body := by
    have hiff := forall_iff_of_forall₂ (P := FlowopRunnable) (Q := FlowopComplete)
      (flowops_made hrun) fun body hbody f hmade =>
        flowopRunnable_iff hmade fun s hs => hclean s (mem_of_mem_sections hbody hs)
    rw [← hiff, List.forall_mem_flatMap]
  rw [hsymbols]
  constructor
  · rintro ⟨hgroups, hrun⟩
    exact ⟨hthreads.mp hgroups, hflowops.mp hrun⟩
  · rintro ⟨hgroups, hcomplete⟩
    exact ⟨hthreads.mpr hgroups, hflowops.mpr hcomplete⟩

/-- One flowop that writes eight bytes. -/
theorem complete_oneWrite : Complete (profileSymbols bareHost (str
    "<group nthreads=\"1\" >\n<transaction >\n<flowop type=\"write\" options=\"size=8\" />\n")) := by
  have hparse : parseAppProfile bareHost (str
      "<group nthreads=\"1\" >\n<transaction >\n<flowop type=\"write\" options=\"size=8\" />\n") =
      .ok (some { grp := [{ freshGroup 0 with
        nthreads := 1
        strandFlag := strandTypeThread
        ntxn := 1
        tlist := [{ freshTxn 0 with
          nflowop := 1
          flist := [{ (freshFlowop 0).setType (str "write") with
            options := { size := 8, count := 1, repeats := 1, batchSize := 1 } }] }] }] }, []) := by
    decide +kernel
  refine (runnable_iff_complete hparse).mp ⟨?_, ?_⟩
  · simp
  · simp only [List.mem_singleton, forall_eq, Group.flowops, List.flatMap_cons, List.flatMap_nil,
      List.append_nil]
    exact ⟨by decide +kernel, by simp, fun _ => Or.inl (by decide)⟩

/-- A flowop that is given no type. -/
theorem not_runnable_noType : ∃ w, parseAppProfile bareHost (str
    "<group nthreads=\"1\" >\n<transaction >\n<flowop />\n") = .ok (some w, []) ∧
      ¬ Runnable w := by
  refine ⟨{ grp := [{ freshGroup 0 with
    nthreads := 1
    strandFlag := strandTypeThread
    ntxn := 1
    tlist := [{ freshTxn 0 with nflowop := 1, flist := [freshFlowop 0] }] }] },
    by decide +kernel, ?_⟩
  rintro ⟨-, hrun⟩
  exact (hrun _ List.mem_cons_self _ List.mem_cons_self).type rfl

end Uperf
