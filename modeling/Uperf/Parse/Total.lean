import Uperf.Parse.Accepted
import Uperf.Parse.Attachable
import Uperf.Parse.OptionsFit

/-!
# When the parser returns

The pointers and flags of `build_worklist` are functions of the types of the
symbols done (`Describes`), so that it can be said of these whether the objects
are there that the next symbol needs (`Placed`).  Together with the conditions
on the tokens and on the options this is which profiles `parse_app_profile`
returns from.
-/

namespace Uperf

open Lib

/-! ## The order of the symbols -/

/-- The last of the symbols that is of one of the types. -/
def lastOf (types : List TokenType) (done : List Visit) : Option TokenType :=
  ((done.map (·.type)).filter (types.contains ·)).getLast?

/-- `in_group`: a group has begun and not ended. -/
def InGroup (done : List Visit) : Prop := lastOf [.groupStart, .groupEnd] done = some .groupStart

/-- `in_txn`: a transaction has begun and not ended. -/
def InTxn (done : List Visit) : Prop := lastOf [.txnStart, .txnEnd] done = some .txnStart

/-- A transaction has begun since the last group has. -/
def HasTxn (done : List Visit) : Prop := lastOf [.groupStart, .txnStart] done = some .txnStart

/-- A flowop has begun since the last transaction and the last group have. -/
def HasFlowop (done : List Visit) : Prop :=
  lastOf [.groupStart, .txnStart, .flowopStart] done = some .flowopStart

instance (done : List Visit) : Decidable (InGroup done) := inferInstanceAs (Decidable (_ = _))
instance (done : List Visit) : Decidable (InTxn done) := inferInstanceAs (Decidable (_ = _))
instance (done : List Visit) : Decidable (HasTxn done) := inferInstanceAs (Decidable (_ = _))
instance (done : List Visit) : Decidable (HasFlowop done) := inferInstanceAs (Decidable (_ = _))

@[simp] theorem lastOf_concat (types : List TokenType) (done : List Visit) (s : Visit) :
    lastOf types (done ++ [s]) =
      if s.type ∈ types then some s.type else lastOf types done := by
  unfold lastOf
  by_cases hmem : s.type ∈ types
  · simp [hmem]
  · simp [hmem]

/-- `build_worklist` returns `NULL` at the symbol. -/
def rejected (done : List Visit) (s : Visit) : Bool :=
  match s.type with
  | .txnStart => ¬ InGroup done
  | .nthreads => ¬ InGroup done
  | .nprocesses => ¬ InGroup done
  | .flowopStart => ¬ InTxn done
  | .iterations => ¬ InTxn done
  | .rate => ¬ InTxn done
  | .duration => ¬ InTxn done
  | .type => flowopType s.text = .error
  | .error => true
  | _ => false

/-- The symbols that `build_worklist` reads, each with those before it: all up to
the first one at which it returns. -/
def reachedFrom : List Visit → List Visit → List (List Visit × Visit)
  | _, [] => []
  | done, s :: rest =>
      (done, s) :: if rejected done s then [] else reachedFrom (done ++ [s]) rest

/-- The objects that the branch of the symbol works on are there. -/
def Placed (done : List Visit) (s : Visit) : Prop :=
  match s.type with
  | .groupStart => (done.map (·.type)).count .groupStart < maxThreadGroups
  | .flowopStart => InTxn done → HasTxn done
  | .iterations => InTxn done → HasTxn done
  | .rate => InTxn done → HasTxn done
  | .duration => InTxn done → HasTxn done
  | .type => HasFlowop done
  | .options => HasFlowop done ∧ OptionsFit s.optionsHost s.text
  | _ => True

/-- The errors that the value of a symbol adds. -/
def valueErrors (s : Visit) : ℕ :=
  match s.type with
  | .iterations => (string2int s.host (some s.text)).2.length
  | .rate => (string2int s.host (some s.text)).2.length
  | .nthreads => (string2int s.host (some s.text)).2.length
  | .nprocesses => (string2int s.host (some s.text)).2.length
  | .duration => (string2nsec s.host s.text).2.length
  | .options =>
      match flowopParseOptions s.optionsHost s.text with
      | .ok set => set.errors.length
      | .error _ => 0
  | _ => 0

/-- The errors that a symbol adds: one if the profile is rejected there. -/
def symbolErrors (done : List Visit) (s : Visit) : ℕ :=
  if rejected done s then 1 else valueErrors s

/-- The pointers and flags of a builder are what the symbols done say. -/
structure Describes (done : List Visit) (b : Builder) : Prop where
  inGroup : b.inGroup = true ↔ InGroup done
  inTxn : b.inTxn = true ↔ InTxn done
  currGrp : b.inGroup = true → b.currGrp.isSome = true
  currTxn : b.currTxn.isSome = true ↔ HasTxn done
  currFlowop : b.currFlowop.isSome = true ↔ HasFlowop done
  length_grp : b.grp.length = (done.map (·.type)).count .groupStart

theorem describes_nil : Describes [] {} := by
  constructor <;> simp [lastOf, InGroup, InTxn, HasTxn, HasFlowop, Builder.grp]

section

variable {done : List Visit} {b b' : Builder} {s : Visit}

/-- The types of the symbols that the pointers and flags depend on. -/
def shapeTypes : List TokenType := [.groupStart, .groupEnd, .txnStart, .txnEnd, .flowopStart]

/-- The same objects are there, and the same flags set. -/
structure SameShape (b b' : Builder) : Prop where
  inGroup : b'.inGroup = b.inGroup
  inTxn : b'.inTxn = b.inTxn
  groups : b'.groups = b.groups
  currGrp : b'.currGrp.isSome = b.currGrp.isSome
  currTxn : b'.currTxn.isSome = b.currTxn.isSome
  currFlowop : b'.currFlowop.isSome = b.currFlowop.isSome

theorem SameShape.rfl : SameShape b b := by constructor <;> exact Eq.refl _

theorem Describes.of_sameShape (h : Describes done b) (hs : s.type ∉ shapeTypes)
    (hsame : SameShape b b') : Describes (done ++ [s]) b' := by
  simp only [shapeTypes, List.mem_cons, List.not_mem_nil, or_false, not_or] at hs
  obtain ⟨hgs, hge, hts, hte, hfs⟩ := hs
  have hcurr : b'.currGrp.toList.length = b.currGrp.toList.length := by
    have := hsame.currGrp
    cases h' : b'.currGrp <;> cases h'' : b.currGrp <;> simp_all
  constructor
  · simpa [InGroup, hgs, hge, hsame.inGroup] using h.inGroup
  · simpa [InTxn, hts, hte, hsame.inTxn] using h.inTxn
  · rw [hsame.inGroup, hsame.currGrp]
    exact h.currGrp
  · simpa [HasTxn, hgs, hts, hsame.currTxn] using h.currTxn
  · simpa [HasFlowop, hgs, hts, hfs, hsame.currFlowop] using h.currFlowop
  · simpa [hgs, hsame.groups, hcurr, List.count_singleton] using h.length_grp


variable {host : Host} {next : Option Builder} {errors new : List ErrorText}

theorem Describes.isSome_currGrp (h : Describes done b) (hin : InGroup done) :
    ∃ g, b.currGrp = some g :=
  Option.isSome_iff_exists.mp (h.currGrp (h.inGroup.mpr hin))

theorem Describes.isSome_currTxn (h : Describes done b) (hhas : HasTxn done) :
    ∃ txn, b.currTxn = some txn :=
  Option.isSome_iff_exists.mp (h.currTxn.mpr hhas)

theorem Describes.currTxn_eq_none (h : Describes done b) (hhas : ¬ HasTxn done) :
    b.currTxn = none := by
  rw [← h.currTxn, Option.not_isSome_iff_eq_none] at hhas
  exact hhas

theorem onTxn_eq (h : Describes done b) (change : Txn → Txn) :
    onTxn b change errors =
      if ¬ InTxn done then reject (str "No current transaction")
      else match b.currTxn with
        | none => .error .noTxn
        | some txn => .ok (some { b with currTxn := some (change txn) }, errors) := by
  unfold onTxn
  by_cases hin : InTxn done
  · exact (if_neg (not_not_intro (h.inTxn.mpr hin))).trans (if_neg (not_not_intro hin)).symm
  · rw [if_pos (mt h.inTxn.mp hin), if_pos hin]

theorem succeeds_onTxn_iff (h : Describes done b) (change : Txn → Txn) :
    Succeeds (onTxn b change errors) ↔ (InTxn done → HasTxn done) := by
  rw [onTxn_eq h]
  by_cases hin : InTxn done
  · by_cases hhas : HasTxn done
    · obtain ⟨txn, htxn⟩ := h.isSome_currTxn hhas
      simp [hhas, htxn, hin]
    · simp [hin, hhas, h.currTxn_eq_none hhas]
  · simp [hin, reject]

/-- What a branch does that changes the current transaction. -/
theorem onTxn_ok (h : Describes done b) {change : Txn → Txn}
    (hok : onTxn b change errors = .ok (next, new)) :
    (¬ InTxn done ∧ next = none ∧ new.length = 1) ∨
      (InTxn done ∧ new = errors ∧ ∃ b', next = some b' ∧ SameShape b b') := by
  rw [onTxn_eq h] at hok
  by_cases hin : InTxn done
  · right
    rw [if_neg (not_not_intro hin)] at hok
    cases htxn : b.currTxn with
    | none => rw [htxn] at hok; cases hok
    | some txn =>
        rw [htxn] at hok
        cases hok
        refine ⟨hin, rfl, _, rfl, ?_⟩
        constructor <;> simp [htxn]
  · left
    rw [if_pos hin] at hok
    cases hok
    exact ⟨hin, rfl, rfl⟩

theorem onGroup_eq (h : Describes done b) (change : Group → Group) :
    onGroup b change errors =
      if ¬ InGroup done then reject (str "No current group")
      else match b.currGrp with
        | none => .error .noGroup
        | some g => .ok (some { b with currGrp := some (change g) }, errors) := by
  unfold onGroup
  by_cases hin : InGroup done
  · exact (if_neg (not_not_intro (h.inGroup.mpr hin))).trans (if_neg (not_not_intro hin)).symm
  · rw [if_pos (mt h.inGroup.mp hin), if_pos hin]

theorem succeeds_onGroup (h : Describes done b) (change : Group → Group) :
    Succeeds (onGroup b change errors) := by
  rw [onGroup_eq h]
  by_cases hin : InGroup done
  · obtain ⟨g, hg⟩ := h.isSome_currGrp hin
    simp [hin, hg]
  · simp [hin, reject]

/-- What a branch does that changes the current group. -/
theorem onGroup_ok (h : Describes done b) {change : Group → Group}
    (hok : onGroup b change errors = .ok (next, new)) :
    (¬ InGroup done ∧ next = none ∧ new.length = 1) ∨
      (InGroup done ∧ new = errors ∧ ∃ b', next = some b' ∧ SameShape b b') := by
  rw [onGroup_eq h] at hok
  by_cases hin : InGroup done
  · right
    obtain ⟨g, hg⟩ := h.isSome_currGrp hin
    rw [if_neg (not_not_intro hin), hg] at hok
    cases hok
    refine ⟨hin, rfl, _, rfl, ?_⟩
    constructor <;> simp [hg]
  · left
    rw [if_pos hin] at hok
    cases hok
    exact ⟨hin, rfl, rfl⟩

/-! ### The objects that begin -/

theorem succeeds_groupStart_iff (h : Describes done b) :
    Succeeds (groupStart b) ↔ (done.map (·.type)).count .groupStart < maxThreadGroups := by
  unfold groupStart
  rw [h.length_grp]
  split
  · rename_i hfull
    simp only [not_succeeds_error, false_iff]
    omega
  · rename_i hroom
    exact iff_of_true (succeeds_ok _) (Nat.lt_of_not_le hroom)

theorem groupStart_ok (h : Describes done b) (hs : s.type = .groupStart)
    (hok : groupStart b = .ok (next, new)) :
    new = [] ∧ ∃ b', next = some b' ∧ Describes (done ++ [s]) b' := by
  unfold groupStart at hok
  split at hok
  · cases hok
  · cases hok
    refine ⟨rfl, _, rfl, ?_⟩
    have hlen := h.length_grp
    constructor
    · simp [InGroup, hs]
    · simpa [InTxn, hs] using h.inTxn
    · simp
    · simp [HasTxn, hs]
    · simp [HasFlowop, hs]
    · rw [Builder.length_grp]
      simp [hs, hlen]

theorem succeeds_txnStart (h : Describes done b) : Succeeds (txnStart b) := by
  unfold txnStart
  split
  · exact succeeds_ok _
  · rename_i hin
    obtain ⟨g, hg⟩ := h.isSome_currGrp (h.inGroup.mp (not_not.mp hin))
    rw [hg]
    exact succeeds_ok _

theorem txnStart_ok (h : Describes done b) (hs : s.type = .txnStart)
    (hok : txnStart b = .ok (next, new)) :
    (¬ InGroup done ∧ next = none ∧ new.length = 1) ∨
      (InGroup done ∧ new = [] ∧ ∃ b', next = some b' ∧ Describes (done ++ [s]) b') := by
  unfold txnStart at hok
  split at hok
  · rename_i hin
    cases hok
    exact Or.inl ⟨mt h.inGroup.mpr hin, rfl, rfl⟩
  · rename_i hin
    have hin : b.inGroup = true := not_not.mp hin
    obtain ⟨g, hg⟩ := h.isSome_currGrp (h.inGroup.mp hin)
    rw [hg] at hok
    cases hok
    refine Or.inr ⟨h.inGroup.mp hin, rfl, _, rfl, ?_⟩
    have hlen := h.length_grp
    rw [Builder.length_grp, hg] at hlen
    constructor
    · simpa [InGroup, hs] using h.inGroup
    · simp [InTxn, hs]
    · simp
    · simp [HasTxn, hs]
    · simp [HasFlowop, hs]
    · rw [Builder.length_grp]
      simpa [hs, List.count_singleton] using hlen

theorem succeeds_flowopStart_iff (h : Describes done b) :
    Succeeds (flowopStart b) ↔ (InTxn done → HasTxn done) := by
  unfold flowopStart
  rw [← h.inTxn, ← h.currTxn]
  split
  · rename_i hin
    exact iff_of_true (succeeds_ok _) fun htxn => absurd htxn hin
  · rename_i hin
    cases htxn : b.currTxn with
    | none => simpa using hin
    | some txn => simp

theorem flowopStart_ok (h : Describes done b) (hs : s.type = .flowopStart)
    (hok : flowopStart b = .ok (next, new)) :
    (¬ InTxn done ∧ next = none ∧ new.length = 1) ∨
      (InTxn done ∧ new = [] ∧ ∃ b', next = some b' ∧ Describes (done ++ [s]) b') := by
  unfold flowopStart at hok
  split at hok
  · rename_i hin
    cases hok
    exact Or.inl ⟨mt h.inTxn.mpr hin, rfl, rfl⟩
  · rename_i hin
    cases htxn : b.currTxn with
    | none => rw [htxn] at hok; cases hok
    | some txn =>
        rw [htxn] at hok
        cases hok
        refine Or.inr ⟨h.inTxn.mp (not_not.mp hin), rfl, _, rfl, ?_⟩
        have hhas : HasTxn done := h.currTxn.mp (by rw [htxn]; rfl)
        constructor
        · simpa [InGroup, hs] using h.inGroup
        · simpa [InTxn, hs] using h.inTxn
        · exact h.currGrp
        · simpa [HasTxn, hs] using hhas
        · simp [HasFlowop, hs]
        · simpa [hs, List.count_singleton] using h.length_grp

/-! ### The attributes of a flowop -/

theorem succeeds_flowopSetType_iff (h : Describes done b) {text : List UInt8} :
    Succeeds (flowopSetType b text) ↔ HasFlowop done := by
  unfold flowopSetType
  rw [← h.currFlowop]
  cases b.currFlowop with
  | none => simp
  | some f =>
      simp only
      split <;> simp [reject]

theorem flowopSetType_ok {text : List UInt8} (hok : flowopSetType b text = .ok (next, new)) :
    (flowopType text = .error ∧ next = none ∧ new.length = 1) ∨
      (flowopType text ≠ .error ∧ new = [] ∧ ∃ b', next = some b' ∧ SameShape b b') := by
  unfold flowopSetType at hok
  cases hf : b.currFlowop with
  | none => rw [hf] at hok; cases hok
  | some f =>
      rw [hf] at hok
      simp only at hok
      split at hok
      · rename_i htype
        cases hok
        exact Or.inl ⟨htype, rfl, rfl⟩
      · rename_i htype
        cases hok
        refine Or.inr ⟨htype, rfl, _, rfl, ?_⟩
        constructor <;> simp [hf]

theorem succeeds_flowopSetOptions_iff (h : Describes done b) {text : List UInt8} :
    Succeeds (flowopSetOptions b host text) ↔ HasFlowop done ∧ OptionsFit host text := by
  unfold flowopSetOptions
  rw [← h.currFlowop, ← succeeds_flowopParseOptions_iff]
  cases b.currFlowop with
  | none => simp
  | some f =>
      rw [succeeds_bind_iff]
      simp [Succeeds]

theorem flowopSetOptions_ok {text : List UInt8}
    (hok : flowopSetOptions b host text = .ok (next, new)) :
    ∃ set, flowopParseOptions host text = .ok set ∧ new = set.errors ∧
      ∃ b', next = some b' ∧ SameShape b b' := by
  unfold flowopSetOptions at hok
  cases hf : b.currFlowop with
  | none => rw [hf] at hok; cases hok
  | some f =>
      rw [hf] at hok
      obtain ⟨set, hset, heq⟩ := bind_eq_ok_iff.mp hok
      cases heq
      refine ⟨set, hset, rfl, _, rfl, ?_⟩
      constructor <;> simp [hf]

theorem Describes.groupEnd (h : Describes done b) (hs : s.type = .groupEnd) :
    Describes (done ++ [s]) { b with inGroup := false } where
  inGroup := by simp [InGroup, hs]
  inTxn := by simpa [InTxn, hs] using h.inTxn
  currGrp := by simp
  currTxn := by simpa [HasTxn, hs] using h.currTxn
  currFlowop := by simpa [HasFlowop, hs] using h.currFlowop
  length_grp := by simpa [hs, List.count_singleton] using h.length_grp

theorem Describes.txnEnd (h : Describes done b) (hs : s.type = .txnEnd) :
    Describes (done ++ [s]) { b with inTxn := false } where
  inGroup := by simpa [InGroup, hs] using h.inGroup
  inTxn := by simp [InTxn, hs]
  currGrp := h.currGrp
  currTxn := by simpa [HasTxn, hs] using h.currTxn
  currFlowop := by simpa [HasFlowop, hs] using h.currFlowop
  length_grp := by simpa [hs, List.count_singleton] using h.length_grp

/-! ### One round -/

theorem succeeds_buildStep_iff (h : Describes done b) :
    Succeeds (buildStep b s) ↔ Placed done s := by
  unfold buildStep Placed
  cases hs : s.type with
  | groupStart => exact succeeds_groupStart_iff h
  | txnStart => simpa using succeeds_txnStart h
  | flowopStart => exact succeeds_flowopStart_iff h
  | name =>
      simp only [setName, iff_true]
      split
      · exact succeeds_onGroup h _
      · exact succeeds_ok _
  | iterations | rate | duration => exact succeeds_onTxn_iff h _
  | type => exact succeeds_flowopSetType_iff h
  | options => exact succeeds_flowopSetOptions_iff h
  | nthreads | nprocesses => simpa using succeeds_onGroup h _
  | profileStart | profileEnd | groupEnd | txnEnd | xmlEnd => simp
  | error => simp [reject]

/-- What a round leads to: it adds the errors of the symbol and stops where the
profile is rejected. -/
structure RoundResult (done : List Visit) (s : Visit) (next : Option Builder)
    (new : List ErrorText) : Prop where
  length_new : new.length = symbolErrors done s
  rejects : rejected done s = true → next = none
  goesOn : rejected done s = false → ∃ b', next = some b' ∧ Describes (done ++ [s]) b'

theorem RoundResult.of_rejects (hr : rejected done s = true) (hnext : next = none)
    (hnew : new.length = 1) : RoundResult done s next new where
  length_new := by simp [symbolErrors, hr, hnew]
  rejects _ := hnext
  goesOn hr' := by simp [hr] at hr'

theorem RoundResult.of_goesOn (hr : rejected done s = false)
    (hnext : ∃ b', next = some b' ∧ Describes (done ++ [s]) b')
    (hnew : new.length = valueErrors s) : RoundResult done s next new where
  length_new := by simp [symbolErrors, hr, hnew]
  rejects hr' := by simp [hr] at hr'
  goesOn _ := hnext

/-- A name is never an error. -/
theorem setName_ok {text : List UInt8} (h : Describes done b)
    (hok : setName b text = .ok (next, new)) :
    new = [] ∧ ∃ b', next = some b' ∧ SameShape b b' := by
  simp only [setName] at hok
  split at hok
  · rename_i hflag
    -- in a group there is a current one
    obtain ⟨hin, -⟩ | ⟨-, rfl, hnext⟩ := onGroup_ok h hok
    · exact absurd (h.inGroup.mp hflag) hin
    · exact ⟨rfl, hnext⟩
  · cases hok
    exact ⟨rfl, _, rfl, by constructor <;> rfl⟩

theorem buildStep_ok (h : Describes done b) (hok : buildStep b s = .ok (next, new)) :
    RoundResult done s next new := by
  -- most symbols change no object that a later one depends on
  have hsame : s.type ∉ shapeTypes → (∃ b', next = some b' ∧ SameShape b b') →
      ∃ b', next = some b' ∧ Describes (done ++ [s]) b' := by
    rintro hs ⟨b', hb', hshape⟩
    exact ⟨b', hb', h.of_sameShape hs hshape⟩
  unfold buildStep at hok
  cases hs : s.type with
  | groupStart =>
      rw [hs] at hok
      obtain ⟨rfl, hnext⟩ := groupStart_ok h hs hok
      exact .of_goesOn (by simp [rejected, hs]) hnext (by simp [valueErrors, hs])
  | txnStart =>
      rw [hs] at hok
      obtain ⟨hin, hnext, hnew⟩ | ⟨hin, rfl, hnext⟩ := txnStart_ok h hs hok
      · exact .of_rejects (by simp [rejected, hs, hin]) hnext hnew
      · exact .of_goesOn (by simp [rejected, hs, hin]) hnext (by simp [valueErrors, hs])
  | flowopStart =>
      rw [hs] at hok
      obtain ⟨hin, hnext, hnew⟩ | ⟨hin, rfl, hnext⟩ := flowopStart_ok h hs hok
      · exact .of_rejects (by simp [rejected, hs, hin]) hnext hnew
      · exact .of_goesOn (by simp [rejected, hs, hin]) hnext (by simp [valueErrors, hs])
  | name =>
      rw [hs] at hok
      obtain ⟨rfl, hnext⟩ := setName_ok h hok
      exact .of_goesOn (by simp [rejected, hs]) (hsame (by simp [shapeTypes, hs]) hnext)
        (by simp [valueErrors, hs])
  | iterations | rate | duration =>
      rw [hs] at hok
      obtain ⟨hin, hnext, hnew⟩ | ⟨hin, rfl, hnext⟩ := onTxn_ok h hok
      · exact .of_rejects (by simp [rejected, hs, hin]) hnext hnew
      · exact .of_goesOn (by simp [rejected, hs, hin]) (hsame (by simp [shapeTypes, hs]) hnext)
          (by simp [valueErrors, hs, string2int, string2nsec])
  | type =>
      rw [hs] at hok
      obtain ⟨htype, hnext, hnew⟩ | ⟨htype, rfl, hnext⟩ := flowopSetType_ok hok
      · exact .of_rejects (by simp [rejected, hs, htype]) hnext hnew
      · exact .of_goesOn (by simp [rejected, hs, htype]) (hsame (by simp [shapeTypes, hs]) hnext)
          (by simp [valueErrors, hs])
  | options =>
      rw [hs] at hok
      obtain ⟨set, hset, rfl, hnext⟩ := flowopSetOptions_ok hok
      exact .of_goesOn (by simp [rejected, hs]) (hsame (by simp [shapeTypes, hs]) hnext)
        (by simp [valueErrors, hs, hset])
  | nthreads | nprocesses =>
      rw [hs] at hok
      obtain ⟨hin, hnext, hnew⟩ | ⟨hin, rfl, hnext⟩ := onGroup_ok h hok
      · exact .of_rejects (by simp [rejected, hs, hin]) hnext hnew
      · exact .of_goesOn (by simp [rejected, hs, hin]) (hsame (by simp [shapeTypes, hs]) hnext)
          (by simp [valueErrors, hs, string2int])
  | groupEnd =>
      rw [hs] at hok
      cases hok
      exact .of_goesOn (by simp [rejected, hs]) ⟨_, rfl, h.groupEnd hs⟩ (by simp [valueErrors, hs])
  | txnEnd =>
      rw [hs] at hok
      cases hok
      exact .of_goesOn (by simp [rejected, hs]) ⟨_, rfl, h.txnEnd hs⟩ (by simp [valueErrors, hs])
  | profileStart | profileEnd | xmlEnd =>
      rw [hs] at hok
      cases hok
      exact .of_goesOn (by simp [rejected, hs])
        (hsame (by simp [shapeTypes, hs]) ⟨b, rfl, SameShape.rfl⟩) (by simp [valueErrors, hs])
  | error =>
      rw [hs] at hok
      cases hok
      exact .of_rejects (by simp [rejected, hs]) rfl rfl

end

/-! ## The whole loop -/

section

variable {host : Host}

/-- The errors that the symbols read add to the table. -/
def errorsFrom (done list : List Visit) : ℕ :=
  ((reachedFrom done list).map fun reached => symbolErrors reached.1 reached.2).sum

variable {done list : List Visit} {b : Builder} {s : Visit} {next : Option Builder}
  {errors errors' : List ErrorText}

theorem buildSymbol_ok_iff (hfit : errors.length ≤ maxErrors) :
    buildSymbol (some b, errors) s = .ok (next, errors') ↔
      ∃ new, buildStep b s = .ok (next, new) ∧
        errors.length + new.length ≤ maxErrors ∧ errors' = errors ++ new := by
  unfold buildSymbol
  rw [bind_eq_ok_iff]
  constructor
  · rintro ⟨⟨next', new⟩, hstep, hadd⟩
    obtain ⟨errors'', hadd, heq⟩ := bind_eq_ok_iff.mp hadd
    cases heq
    exact ⟨new, hstep, (addErrors_ok_iff hfit).mp hadd⟩
  · rintro ⟨new, hstep, hadd⟩
    exact ⟨_, hstep, bind_eq_ok_iff.mpr ⟨errors', (addErrors_ok_iff hfit).mpr hadd, rfl⟩⟩

/-- The loop gets through if every symbol that it reads is placed and the table
has room for the errors. -/
theorem succeeds_loop_buildSymbol_iff (h : Describes done b) (hfit : errors.length ≤ maxErrors) :
    Succeeds (loop buildSymbol (some b, errors) list) ↔
      (∀ reached ∈ reachedFrom done list, Placed reached.1 reached.2) ∧
        errors.length + errorsFrom done list ≤ maxErrors := by
  induction list generalizing done b errors with
  | nil => simpa [loop, reachedFrom, errorsFrom] using hfit
  | cons s rest ih =>
      -- a rejected symbol is the last that is read
      have hsum : errorsFrom done (s :: rest) = symbolErrors done s +
          if rejected done s then 0 else errorsFrom (done ++ [s]) rest := by
        cases hr : rejected done s <;> simp [errorsFrom, reachedFrom, hr]
      rw [loop, succeeds_bind_iff, hsum]
      constructor
      · rintro ⟨⟨next, errors'⟩, hsymbol, hrest⟩
        obtain ⟨new, hstep, hroom, rfl⟩ := (buildSymbol_ok_iff hfit).mp hsymbol
        have hplaced := (succeeds_buildStep_iff h).mp ⟨_, hstep⟩
        have hround := buildStep_ok h hstep
        rw [hround.length_new] at hroom
        cases hr : rejected done s with
        | true => simpa [reachedFrom, hr, hplaced] using hroom
        | false =>
            obtain ⟨b', rfl, hb'⟩ := hround.goesOn hr
            obtain ⟨hall, htotal⟩ := (ih hb' (by simpa [hround.length_new] using hroom)).mp hrest
            rw [List.length_append, hround.length_new] at htotal
            refine ⟨?_, by simpa [Nat.add_assoc] using htotal⟩
            simpa [reachedFrom, hr, hplaced] using hall
      · rintro ⟨hall, htotal⟩
        have hplaced : Placed done s := hall (done, s) (by simp [reachedFrom])
        obtain ⟨⟨next, new⟩, hstep⟩ := (succeeds_buildStep_iff h).mpr hplaced
        have hround := buildStep_ok h hstep
        have hroom : errors.length + new.length ≤ maxErrors := by
          rw [hround.length_new]
          omega
        refine ⟨_, (buildSymbol_ok_iff hfit).mpr ⟨new, hstep, hroom, rfl⟩, ?_⟩
        cases hr : rejected done s with
        | true =>
            rw [hround.rejects hr, loop_buildSymbol_none]
            exact succeeds_ok _
        | false =>
            obtain ⟨b', rfl, hb'⟩ := hround.goesOn hr
            rw [ih hb' (by simpa using hroom), List.length_append, hround.length_new]
            refine ⟨fun reached hmem => hall reached ?_, ?_⟩
            · simp [reachedFrom, hr, hmem]
            · simpa [hr, Nat.add_assoc] using htotal

/-- Where `build_worklist` returns `NULL`, an error is recorded. -/
theorem ne_nil_of_buildWorklist_none {host : Host} {list : List Symbol}
    (hbuild : buildWorklist host errors list = .ok (none, errors'))
    (hfit : errors.length ≤ maxErrors) : errors' ≠ [] := by
  have hinv := loop_history (P := fun done st => st.2.length ≤ maxErrors ∧
    ((∃ b, st.1 = some b ∧ Describes done b) ∨ (st.1 = none ∧ st.2 ≠ [])))
    ⟨hfit, Or.inl ⟨_, rfl, describes_nil⟩⟩ ?_ hbuild
  · obtain ⟨-, ⟨b, hb, -⟩ | ⟨-, hne⟩⟩ := hinv
    · cases hb
    · exact hne
  rintro done s ⟨before, errors⟩ ⟨after, errors'⟩ ⟨hfit, ⟨b, rfl, hb⟩ | ⟨rfl, hne⟩⟩ hstep
  · obtain ⟨new, hbuilt, hroom, rfl⟩ := (buildSymbol_ok_iff hfit).mp hstep
    have hround := buildStep_ok hb hbuilt
    refine ⟨by simpa using hroom, ?_⟩
    cases hr : rejected done s with
    | true =>
        refine Or.inr ⟨hround.rejects hr, fun hnil => ?_⟩
        have hlen := hround.length_new
        rw [symbolErrors, if_pos hr, (List.append_eq_nil_iff.mp hnil).2] at hlen
        cases hlen
    | false => exact Or.inl (hround.goesOn hr)
  · cases hstep
    exact ⟨hfit, Or.inr ⟨rfl, hne⟩⟩

/-! ## The parser -/

/-- `parse_app_profile` returns a work order, or `NULL` with an error recorded. -/
def Returns (host : Host) (file : List UInt8) : Prop :=
  ∃ w errors, parseAppProfile host file = .ok (w, errors) ∧ (w = none → errors ≠ [])

/-- The tokens of the file can be put together to symbols; these stand behind the
tags that their branches need; and there are no more errors than the table
holds. -/
structure Orderly (host : Host) (file : List UInt8) : Prop where
  readable : Readable host (profileText file)
  placed : ∀ list errors, parse host (profileText file) = .ok (list, errors) →
    ∀ reached ∈ reachedFrom [] (visits host list), Placed reached.1 reached.2
  fits : ∀ list errors, parse host (profileText file) = .ok (list, errors) →
    errors.length + errorsFrom [] (visits host list) ≤ maxErrors

/-- The parser returns from the orderly files, and from no others. -/
theorem returns_iff_orderly {file : List UInt8} (hfile : file ≠ []) :
    Returns host file ↔ Orderly host file := by
  unfold Returns parseAppProfile
  rw [if_neg hfile]
  constructor
  · rintro ⟨w, errors', hparse, -⟩
    obtain ⟨⟨list, errors⟩, hlist, hbuild⟩ := bind_eq_ok_iff.mp hparse
    obtain ⟨result, hbuild, -⟩ := bind_eq_ok_iff.mp hbuild
    have hdone := (succeeds_loop_buildSymbol_iff describes_nil (length_errors_parse hlist)).mp
      ⟨result, hbuild⟩
    -- there is one parse
    have huniq : ∀ list' after, parse host (profileText file) = .ok (list', after) →
        list' = list ∧ after = errors := by
      intro list' after hparse'
      rw [hlist] at hparse'
      cases hparse'
      exact ⟨rfl, rfl⟩
    refine ⟨succeeds_parse_iff.mp ⟨_, hlist⟩, fun list' after hparse' => ?_,
      fun list' after hparse' => ?_⟩
    · obtain ⟨rfl, rfl⟩ := huniq list' after hparse'
      exact hdone.1
    · obtain ⟨rfl, rfl⟩ := huniq list' after hparse'
      exact hdone.2
  · rintro ⟨hread, hplaced, hroom⟩
    obtain ⟨⟨list, errors⟩, hlist⟩ := succeeds_parse_iff.mpr hread
    obtain ⟨⟨b, after⟩, hbuild⟩ :=
      (succeeds_loop_buildSymbol_iff describes_nil (length_errors_parse hlist)).mpr
        ⟨hplaced list errors hlist, hroom list errors hlist⟩
    refine ⟨if after = [] then b.map Builder.workorder else none, after, ?_, ?_⟩
    · exact bind_eq_ok_iff.mpr ⟨_, hlist, bind_eq_ok_iff.mpr ⟨_, hbuild, rfl⟩⟩
    · rintro hnone rfl
      rw [if_pos rfl, Option.map_eq_none_iff] at hnone
      subst hnone
      exact ne_nil_of_buildWorklist_none hbuild (length_errors_parse hlist) rfl

end

/-- A group and nothing in it. -/
theorem orderly_emptyGroup : Orderly bareHost (str "<group>\n</group>\n") :=
  (returns_iff_orderly (by decide)).mp
    ⟨some { grp := [freshGroup 0] }, [], by decide +kernel, nofun⟩

/-- A type that is given to the transaction and not to a flowop. -/
theorem not_returns_txnType :
    str "<group nthreads=\"1\" >\n<transaction type=\"read\" >\n" ≠ [] ∧
      ¬ Returns bareHost (str "<group nthreads=\"1\" >\n<transaction type=\"read\" >\n") := by
  have hfault : parseAppProfile bareHost
      (str "<group nthreads=\"1\" >\n<transaction type=\"read\" >\n") = .error .noFlowop := by
    decide +kernel
  refine ⟨by decide, ?_⟩
  rintro ⟨w, errors, hparse, -⟩
  rw [hfault] at hparse
  cases hparse

end Uperf
