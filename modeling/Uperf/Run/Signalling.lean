import Uperf.Run.Execute

/-!
# Signals and their answers

`signal_all_strands` marks the strands that are to answer, signals them up to six times,
and then decides whether some of them do not respond.  Here the strands move on between
its rounds as they like.  For that decision it counts the strands at a barrier, which are
those that have answered, so it is right only when one is there exactly if a marked strand
is still executing (`notResponding_iff`).  What it marks is what `Run.Execute` says
(`mark_signalsOf`).
-/

namespace Uperf.Signalling

/-- `strand_state_t`. -/
inductive StrandState
  | atBarrier
  | executing
  | exit
deriving DecidableEq, Repr

/-- The fields of `strand_t` that `signal_all_strands` uses; `groupid` is that of the
work list. -/
structure Strand where
  groupid : UInt32
  state : StrandState
  signalled : Bool
deriving DecidableEq, Repr

/-- What a strand does between two looks at it: the state that it comes to, and whether it
clears its signal. -/
structure Progress where
  state : StrandState
  cleared : Bool

def Strand.advance (s : Strand) (p : Progress) : Strand :=
  { s with state := p.state, signalled := s.signalled && !p.cleared }

/-- What the strands do before each round, and what `signal_strand` returns for each of
them then. -/
structure Env where
  progress : ℕ → ℕ → Progress
  status : ℕ → ℕ → ℤ

namespace Env

/-- The strands when the round looks at them. -/
def advance (env : Env) (round : ℕ) (strands : List Strand) : List Strand :=
  strands.mapIdx fun i s => s.advance (env.progress round i)

/-- `no_signalled` at the end of the round. -/
def noSignalled (env : Env) (round : ℕ) (strands : List Strand) : ℕ :=
  strands.zipIdx.countP fun (s, i) =>
    s.state ≠ .atBarrier ∧ s.signalled = true ∧ env.status round i = 0

end Env

/-- `REPEATED_SIGNAL_RETRIES`. -/
def repeatedSignalRetries : ℕ := 5

/-- The strand is one of those that the first loop marks. -/
def Marks (groupid : Int32) (s : Strand) : Prop :=
  s.state ≠ .atBarrier ∧ ¬ (groupid ≠ -1 ∧ s.groupid ≠ groupid.toUInt32)

instance (groupid : Int32) (s : Strand) : Decidable (Marks groupid s) :=
  inferInstanceAs (Decidable (_ ∧ _))

/-- The first loop. -/
def mark (groupid : Int32) (strands : List Strand) : List Strand :=
  strands.map fun s => if Marks groupid s then { s with signalled := true } else s

/-- The variables after the second loop, the strands in its last round, and the number of
its rounds. -/
structure Rounds where
  retries : ℤ
  noSignalled : ℕ
  strands : List Strand
  rounds : ℕ

/-- The second loop, from a round on. -/
def signalRounds (env : Env) : ℕ → ℕ → List Strand → Rounds
  | retries, round, before =>
      let strands := env.advance round before
      let noSignalled := env.noSignalled round strands
      if 0 < noSignalled then
        match retries with
        | 0 => { retries := -1, noSignalled, strands, rounds := round + 1 }
        | retries + 1 => signalRounds env retries (round + 1) strands
      else { retries, noSignalled, strands, rounds := round + 1 }

/-- The second loop of `signal_all_strands`. -/
def allRounds (env : Env) (groupid : Int32) (strands : List Strand) : Rounds :=
  signalRounds env repeatedSignalRetries 0 (mark groupid strands)

/-- `signal_all_strands`. -/
def signalAllStrands (env : Env) (groupid : Int32) (strands : List Strand) : Int32 :=
  let last := allRounds env groupid strands
  if last.retries < 0 ∧ 0 < last.noSignalled then
    let notResponding :=
      (env.advance last.rounds last.strands).countP fun s => s.state = .atBarrier
    if 0 < notResponding then 1 else 0
  else 0

/-! ## The strands at each moment -/

/-- The strands at the `k`th look at them from a round on. -/
def Env.strandsFrom (env : Env) (round : ℕ) (before : List Strand) : ℕ → List Strand
  | 0 => env.advance round before
  | k + 1 => env.advance (round + (k + 1)) (env.strandsFrom round before k)

/-- Every round delivers a signal, `retries` of them after the first. -/
def Env.Delivers (env : Env) (round : ℕ) (before : List Strand) (retries : ℕ) : Prop :=
  ∀ k ≤ retries, 0 < env.noSignalled (round + k) (env.strandsFrom round before k)

/-- A strand of those marked first is executing now. -/
def StillExecuting (groupid : Int32) (strands now : List Strand) : Prop :=
  ∃ (i : ℕ) (before after : Strand), strands[i]? = some before ∧ Marks groupid before ∧
    now[i]? = some after ∧ after.state = .executing

/-- What the result is to say: the retries are used up, the last round still delivered a
signal, and a marked strand is still executing then. -/
structure NotResponding (env : Env) (groupid : Int32) (strands : List Strand) : Prop where
  retries : (allRounds env groupid strands).retries < 0
  noSignalled : 0 < (allRounds env groupid strands).noSignalled
  executing : StillExecuting groupid strands
    (env.advance (allRounds env groupid strands).rounds (allRounds env groupid strands).strands)

/-- The strands when the answers are counted after six rounds. -/
def lastStrands (env : Env) (groupid : Int32) (strands : List Strand) : List Strand :=
  env.strandsFrom 0 (mark groupid strands) (repeatedSignalRetries + 1)

section

variable {env : Env} {groupid : Int32} {strands before : List Strand} {retries round : ℕ}

/-- The looks at the strands from the next round on. -/
theorem strandsFrom_succ (round : ℕ) (before : List Strand) (k : ℕ) :
    env.strandsFrom (round + 1) (env.advance round before) k =
      env.strandsFrom round before (k + 1) := by
  induction k with
  | zero => rfl
  | succ k ih =>
      have hround : round + 1 + (k + 1) = round + (k + 1 + 1) := by omega
      rw [Env.strandsFrom, ih, hround]
      rfl

theorem delivers_succ_iff :
    env.Delivers round before (retries + 1) ↔
      0 < env.noSignalled round (env.advance round before) ∧
        env.Delivers (round + 1) (env.advance round before) retries := by
  constructor
  · intro h
    refine ⟨h 0 (Nat.zero_le _), fun k hk => ?_⟩
    have hround : round + 1 + k = round + (k + 1) := by omega
    rw [strandsFrom_succ, hround]
    exact h (k + 1) (Nat.succ_le_succ hk)
  · rintro ⟨hfirst, hrest⟩ k hk
    cases k with
    | zero => exact hfirst
    | succ k =>
        have hround : round + 1 + k = round + (k + 1) := by omega
        rw [← strandsFrom_succ, ← hround]
        exact hrest k (Nat.le_of_succ_le_succ hk)

/-- The loop uses up its retries when every round delivers a signal, and only then. -/
theorem signalRounds_delivers (h : env.Delivers round before retries) :
    signalRounds env retries round before =
      { retries := -1
        noSignalled := env.noSignalled (round + retries) (env.strandsFrom round before retries)
        strands := env.strandsFrom round before retries
        rounds := round + retries + 1 } := by
  induction retries generalizing round before with
  | zero =>
      have hfirst : 0 < env.noSignalled round (env.advance round before) := h 0 le_rfl
      rw [signalRounds, if_pos hfirst]
      rfl
  | succ retries ih =>
      obtain ⟨hfirst, hrest⟩ := delivers_succ_iff.mp h
      have hround : round + 1 + retries = round + (retries + 1) := by omega
      rw [signalRounds, if_pos hfirst, ih hrest, strandsFrom_succ, hround]

theorem not_retries_neg (h : ¬ env.Delivers round before retries) :
    ¬ (signalRounds env retries round before).retries < 0 := by
  induction retries generalizing round before with
  | zero =>
      have hfirst : ¬ 0 < env.noSignalled round (env.advance round before) := by
        intro hpos
        refine h fun k hk => ?_
        rw [Nat.le_zero.mp hk]
        exact hpos
      rw [signalRounds, if_neg hfirst]
      exact lt_irrefl 0
  | succ retries ih =>
      rw [delivers_succ_iff, not_and] at h
      rw [signalRounds]
      split_ifs with hfirst
      · exact ih (h hfirst)
      · exact not_lt.mpr (Int.natCast_nonneg _)

/-- Unless all six rounds deliver a signal, the function returns `0`, and it is to. -/
theorem quiet_of_not_delivers
    (h : ¬ env.Delivers 0 (mark groupid strands) repeatedSignalRetries) :
    signalAllStrands env groupid strands = 0 ∧ ¬ NotResponding env groupid strands := by
  have hretries := not_retries_neg h
  constructor
  · rw [signalAllStrands, if_neg fun hlast => hretries hlast.1]
  · exact fun hnot => hretries hnot.retries

/-- After six rounds the function counts the strands at a barrier. -/
theorem signalAllStrands_of_delivers
    (h : env.Delivers 0 (mark groupid strands) repeatedSignalRetries) :
    signalAllStrands env groupid strands = 1 ↔
      ∃ s ∈ lastStrands env groupid strands, s.state = .atBarrier := by
  have hrounds : allRounds env groupid strands = _ := signalRounds_delivers h
  have hlast : 0 < env.noSignalled (0 + repeatedSignalRetries)
      (env.strandsFrom 0 (mark groupid strands) repeatedSignalRetries) :=
    h repeatedSignalRetries le_rfl
  have hstrands : env.advance (0 + repeatedSignalRetries + 1)
      (env.strandsFrom 0 (mark groupid strands) repeatedSignalRetries) =
        lastStrands env groupid strands := rfl
  rw [signalAllStrands, hrounds]
  simp only
  rw [if_pos ⟨by decide, hlast⟩, hstrands]
  split_ifs with hcount
  · refine iff_of_true rfl ?_
    simpa using List.countP_pos_iff.mp hcount
  · refine iff_of_false (by decide) fun hsome => hcount (List.countP_pos_iff.mpr ?_)
    simpa using hsome

theorem notResponding_of_delivers
    (h : env.Delivers 0 (mark groupid strands) repeatedSignalRetries) :
    NotResponding env groupid strands ↔
      StillExecuting groupid strands (lastStrands env groupid strands) := by
  have hrounds : allRounds env groupid strands = _ := signalRounds_delivers h
  constructor
  · intro hnot
    have hexecuting := hnot.executing
    rw [hrounds] at hexecuting
    exact hexecuting
  · intro hexecuting
    constructor
    · rw [hrounds]
      exact neg_one_lt_zero
    · rw [hrounds]
      exact h repeatedSignalRetries le_rfl
    · rw [hrounds]
      exact hexecuting

end

/-- However the strands move, the result is right exactly if not all six rounds deliver a
signal, or when the answers are counted a strand is at a barrier if and only if a marked
strand is still executing. -/
theorem notResponding_iff (env : Env) (groupid : Int32) (strands : List Strand) :
    (signalAllStrands env groupid strands = 1 ↔ NotResponding env groupid strands) ↔
      (env.Delivers 0 (mark groupid strands) repeatedSignalRetries →
        ((∃ s ∈ lastStrands env groupid strands, s.state = .atBarrier) ↔
          StillExecuting groupid strands (lastStrands env groupid strands))) := by
  by_cases h : env.Delivers 0 (mark groupid strands) repeatedSignalRetries
  · rw [signalAllStrands_of_delivers h, notResponding_of_delivers h]
    exact ⟨fun hiff _ => hiff, fun hiff => hiff h⟩
  · obtain ⟨hzero, hnot⟩ := quiet_of_not_delivers h
    refine iff_of_true (iff_of_false ?_ hnot) fun hdelivers => absurd hdelivers h
    rw [hzero]
    decide

/-- Every strand goes on executing, and takes its signals. -/
def stuckEnv : Env where
  progress _ _ := { state := .executing, cleared := false }
  status _ _ := 0

/-- A strand that never leaves its transaction goes unnoticed. -/
theorem not_notResponding_stuck :
    ¬ ∀ (env : Env) (groupid : Int32) (strands : List Strand),
      signalAllStrands env groupid strands = 1 ↔ NotResponding env groupid strands := by
  intro h
  have hdelivers : stuckEnv.Delivers 0 (mark 0 [⟨0, .executing, false⟩])
      repeatedSignalRetries := by
    unfold Env.Delivers
    decide
  have hnot : NotResponding stuckEnv 0 [⟨0, .executing, false⟩] :=
    (notResponding_of_delivers hdelivers).mpr ⟨0, _, _, rfl, by decide, rfl, by decide⟩
  exact absurd ((h stuckEnv 0 [⟨0, .executing, false⟩]).mpr hnot) (by decide)

/-! ## The marks in the run of a process -/

/-- A strand of a run as the function sees it. -/
def Strand.ofRun (s : StrandRun) : Strand where
  groupid := s.worklist.groupid
  state := if s.phase = .waiting then .atBarrier else if s.exited then .exit else .executing
  signalled := s.signalled

/-- The strands of a process as the function sees them. -/
def signalsOf (shm : RunShm) : List Strand :=
  (List.range shm.noStrands).map fun i => Strand.ofRun (shm.strands i)

/-- A group id that is passed to the function: `-1` for all groups. -/
def groupidOf (groupid : Option ℕ) : Int32 := groupid.elim (-1) Int32.ofNat

theorem groupidOf_ne {g : ℕ} (hg : g < 2 ^ 31) : groupidOf (some g) ≠ -1 := by
  intro h
  have htoInt := congrArg Int32.toInt h
  rw [groupidOf, Option.elim_some, Int32.toInt_ofNat_of_lt hg] at htoInt
  have hneg : ((-1 : Int32)).toInt = -1 := rfl
  omega

theorem marks_ofRun_iff {groupid : Option ℕ} (hgroup : ∀ g ∈ groupid, g < 2 ^ 31)
    (s : StrandRun) : Marks (groupidOf groupid) (Strand.ofRun s) ↔
      s.phase ≠ .waiting ∧ groupid.all (· = s.worklist.groupid.toNat) = true := by
  have hstate : (Strand.ofRun s).state ≠ .atBarrier ↔ s.phase ≠ .waiting := by
    simp only [Strand.ofRun]
    split_ifs with hwaiting hexited <;> simp [hwaiting]
  rw [Marks, hstate, and_congr_right_iff]
  intro _
  cases groupid with
  | none => simp [groupidOf]
  | some g =>
      have hg := hgroup g rfl
      have hvalue : (groupidOf (some g)).toUInt32.toNat = g :=
        UInt32.toNat_ofNat_of_lt' (hg.trans (by decide))
      rw [not_and, not_not, imp_iff_right (groupidOf_ne hg), ← UInt32.toNat_inj, hvalue,
        Option.all_some, decide_eq_true_iff]
      exact eq_comm

/-- The marks of the function are those that the strands of a process find. -/
theorem mark_signalsOf (shm : RunShm) {groupid : Option ℕ} (hgroup : ∀ g ∈ groupid, g < 2 ^ 31) :
    mark (groupidOf groupid) (signalsOf shm) =
      signalsOf (Uperf.signalAllStrands shm groupid) := by
  rw [mark, signalsOf, signalsOf, List.map_map]
  apply List.map_congr_left
  intro i _
  simp only [Function.comp_apply, marks_ofRun_iff hgroup, Uperf.signalAllStrands]
  split_ifs with hmarked hwaiting hgroupid hwaiting hgroupid
  · exact absurd hwaiting hmarked.1
  · rfl
  · exact absurd hmarked.2 hgroupid
  · rfl
  · exact absurd ⟨hwaiting, hgroupid⟩ hmarked
  · rfl

end Uperf.Signalling
