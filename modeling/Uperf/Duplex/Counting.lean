import Uperf.Duplex.Pair
import Uperf.Strand.Stats

/-!
# What a strand counts

A strand with its statistics makes the same calls as without them, since
`stats_update` makes none.  When it has ended, its own record has the sizes and the
counts of the flowops that it has executed (`countedAll`), and one call more, which
`strand_run` adds.  Nothing of this depends on what the kernel has answered, on the
clocks or on which other records are kept.
-/

namespace Uperf

open Lib

/-! ## A strand with statistics -/

section

variable {σ τ : Type}

/-- A program on a state that stands beside another one. -/
def beside {α : Type} (x : Exec σ α) : Exec (σ × τ) α :=
  Exec.zoom Prod.fst (fun s st => (s, st.2)) x

def Machine.beside (M : Machine σ) : Machine (σ × τ) where
  signalled := Uperf.beside M.signalled
  errno := Uperf.beside M.errno
  execute j f := Uperf.beside (M.execute j f)
  flowopBegin j := Uperf.beside (M.flowopBegin j)
  flowopEnd j size count := Uperf.beside (M.flowopEnd j size count)
  txnBegin := Uperf.beside M.txnBegin
  txnEnd := Uperf.beside M.txnEnd

/-- A reading of a clock that has been read a number of times before. -/
def readTime (time : ℕ → UInt64) : Exec (σ × ℕ) UInt64 := do
  let st ← Exec.state
  Exec.change fun st => (st.1, st.2 + 1)
  pure (time st.2)

def timeClock (time : ℕ → UInt64) : Clock (σ × ℕ) := ⟨readTime time, readTime time⟩

variable (C : Clock σ) (copt : UInt32)

/-- A call of `newstat_begin` or `newstat_end` on the record of the strand. -/
def onNstats (x : Newstats → Exec σ Newstats) : Exec (StatState σ) Unit := do
  let ns ← onStrand (x (← Exec.state).stats.nstats)
  Exec.change fun st => { st with stats := { st.stats with nstats := ns } }

/-- `stats_update` with `GROUP_BEGIN` and `GROUP_END`. -/
def statsGroupBegin : Exec (StatState σ) Unit :=
  if enabled copt noStats then pure ()
  else if enabled copt groupStats then onEntry .group (newstatBegin C copt)
  else pure ()

@[inherit_doc statsGroupBegin]
def statsGroupEnd : Exec (StatState σ) Unit :=
  if enabled copt noStats then pure ()
  else if enabled copt groupStats then onEntry .group fun ns => newstatEnd C copt ns 0 1
  else pure ()

/-- `strand_run`, from `newstat_begin` to `newstat_end`, where `execute` are the loops
of `group_execute`. -/
def strandRun (execute : Exec (StatState σ) (Option Int32)) :
    Exec (StatState σ) (Option Int32) := do
  onNstats (newstatBegin C copt)
  statsGroupBegin C copt
  let error ← execute
  statsGroupEnd C copt
  onNstats fun ns => newstatEnd C copt ns 0 1
  pure error

end

/-- How a strand keeps its statistics: `options.copt`, the readings of the clocks, and
the records that its flowops, transactions and group point to. -/
structure Keeping where
  copt : UInt32
  time : ℕ → UInt64
  entry : StatRef → Option Newstats
  timing : Timing (StatState (StrandWorld Dialogue × ℕ))

/-- The strand after the answers, with its statistics. -/
def Thread.runCounting (t : Thread) (k : Keeping) (answers : List ℕ) :
    Option (Option Int32) × StatState (StrandWorld Dialogue × ℕ) :=
  (strandRun (timeClock k.time) k.copt
    (groupTxns
      (withStats (strandMachine (kernelEnv t.conns.allocated t.cursor)).beside (timeClock k.time)
        k.copt)
      k.timing (onStrand (beside waitBarrier)) t.rounds 0 0 t.group.tlist 0)).runFrom
    { strand := ({ env := { answers }, conns := t.conns }, 0), stats := { entry := k.entry } }

/-- The size and the count in the record of the strand. -/
def Thread.totals (t : Thread) (k : Keeping) (answers : List ℕ) : UInt64 × UInt64 :=
  (t.runCounting k answers).2.stats.nstats.totals

/-- Statistics are kept, and where the history is, the flowops have records. -/
structure Keeping.Enabled (k : Keeping) (g : Group) : Prop where
  stats : enabled k.copt noStats = false
  history : enabled k.copt historyStats = true → ∀ i < g.flowops.length,
    k.entry (.flowop i) ≠ none

/-! ## Programs beside others -/

section

variable {σ τ α : Type} {env : σ → Dialogue} {x : Exec σ α} {P : σ → Prop} {calls : List Call}
  {Q : α → σ → Prop}

theorem Silent.beside (hx : Silent env x) :
    Silent (fun st : σ × τ => env st.1) (Uperf.beside x) :=
  Silent.zoom (fun _ _ => rfl) hx

theorem Plays.beside (hx : Plays env x P calls Q) :
    Plays (fun st : σ × τ => env st.1) (Uperf.beside x) (fun st => P st.1) calls
      fun a st => Q a st.1 := by
  intro st hasked hst
  obtain ⟨henv, hdone⟩ := hx st.1 hasked hst
  rw [Uperf.beside, Exec.runFrom_zoom]
  refine ⟨henv, fun hnone => ?_⟩
  obtain ⟨a, ha, hq⟩ := hdone hnone
  exact ⟨a, ha, hq⟩

/-- What is known of the value in any case. -/
theorem Plays.and_triple {R : α → Prop} (hx : Plays env x P calls Q)
    (hr : Exec.Triple (fun _ => True) x (fun a _ => R a) fun _ => True) :
    Plays env x P calls fun a s => R a ∧ Q a s := by
  intro s hasked hs
  obtain ⟨henv, hdone⟩ := hx s hasked hs
  refine ⟨henv, fun hnone => ?_⟩
  obtain ⟨a, ha, hq⟩ := hdone hnone
  have hpost := hr s True.intro
  rw [show x.runFrom s = (some a, (x.runFrom s).2) from Prod.ext ha rfl] at hpost
  exact ⟨a, ha, hpost, hq⟩

end

section

variable {σ τ : Type} {M : Machine σ} {env : σ → Dialogue} {txn : Txn}
  {I : Book → UInt64 × UInt64 → σ → Prop}

theorem Machine.Performs.beside (h : M.Performs env txn I) :
    (M.beside : Machine (σ × τ)).Performs (fun st => env st.1) txn fun b n st => I b n st.1 where
  signalled b n := (h.signalled b n).beside
  errno b n := (h.errno b n).beside
  execute n hf hexecute := (h.execute n hf hexecute).beside
  flowopBegin b n hf := (h.flowopBegin b n hf).beside
  flowopEnd b n size count hf := (h.flowopEnd b n size count hf).beside
  txnBegin b n := (h.txnBegin b n).beside
  txnEnd b n := (h.txnEnd b n).beside
  silent d hd :=
    { next := fun _ _ hs => hs
      signalled := fun j => Silent.beside (fun d hd => (h.silent d hd).signalled j) d hd
      errno := fun j => Silent.beside (fun d hd => (h.silent d hd).errno j) d hd
      execute := fun j f hf => Silent.beside (fun d hd => (h.silent d hd).execute j f hf) d hd
      flowopBegin := fun j => Silent.beside (fun d hd => (h.silent d hd).flowopBegin j) d hd
      flowopEnd := fun j size count =>
        Silent.beside (fun d hd => (h.silent d hd).flowopEnd j size count) d hd
      txnBegin := fun j => Silent.beside (fun d hd => (h.silent d hd).txnBegin j) d hd
      txnEnd := fun j => Silent.beside (fun d hd => (h.silent d hd).txnEnd j) d hd }

end

/-! ## Statistics make no calls -/

/-- The clocks are read without a call, and `J` does not depend on them. -/
structure Clock.Passive {σ : Type} (C : Clock σ) (env : σ → Dialogue) (J : σ → Prop) : Prop where
  hrtime : Plays env C.hrtime J [] fun _ => J
  hrvtime : Plays env C.hrvtime J [] fun _ => J
  silent_hrtime : Silent env C.hrtime
  silent_hrvtime : Silent env C.hrvtime

/-- `J` holds of the strand, which has counted `n`; and where the history is kept, the
first `most` flowops have records. -/
structure Counted {σ : Type} (copt : UInt32) (most : ℕ) (J : σ → Prop) (n : UInt64 × UInt64)
    (st : StatState σ) : Prop where
  strand : J st.strand
  totals : st.stats.nstats.totals = n
  history : enabled copt historyStats = true → ∀ i < most, st.stats.entry (.flowop i) ≠ none

section

variable {σ : Type} {C : Clock σ} {env : σ → Dialogue} {J : σ → Prop} {copt : UInt32}
  {most : ℕ} {n : UInt64 × UInt64} {ref : StatRef}

theorem timeClock_passive {τ : Type} {env : τ → Dialogue} {J : τ → Prop} (time : ℕ → UInt64) :
    (timeClock time).Passive (fun st : τ × ℕ => env st.1) fun st => J st.1 where
  hrtime _ _ hs := ⟨rfl, fun _ => ⟨_, rfl, hs⟩⟩
  hrvtime _ _ hs := ⟨rfl, fun _ => ⟨_, rfl, hs⟩⟩
  silent_hrtime _ _ _ hs := hs
  silent_hrvtime _ _ _ hs := hs

namespace Clock.Passive

/-- A reading that depends on a condition. -/
theorem plays_ite {α : Type} {c : Prop} [Decidable c] {x : Exec σ α} {a : α}
    (hx : Plays env x J [] fun _ => J) :
    Plays env (if c then x else pure a) J [] fun _ => J := by
  split_ifs
  · exact hx
  · exact Plays.pure fun _ hs => hs

theorem silent_ite {α : Type} {c : Prop} [Decidable c] {x : Exec σ α} {a : α}
    (hx : Silent env x) : Silent env (if c then x else pure a) := by
  split_ifs
  · exact hx
  · exact Silent.pure a

theorem silent_begin (hC : C.Passive env J) (ns : Newstats) :
    Silent env (newstatBegin C copt ns) :=
  (silent_ite hC.silent_hrtime).bind fun _ => hC.silent_hrtime.bind fun _ =>
    (silent_ite hC.silent_hrvtime).bind fun _ => Silent.pure _

theorem silent_end (hC : C.Passive env J) (ns : Newstats) (size count : UInt64) :
    Silent env (newstatEnd C copt ns size count) :=
  hC.silent_hrtime.bind fun _ => (silent_ite hC.silent_hrvtime).bind fun _ => Silent.pure _

theorem plays_begin (hC : C.Passive env J) (ns : Newstats) :
    Plays env (newstatBegin C copt ns) J [] fun ns' s => ns'.totals = ns.totals ∧ J s := by
  refine Plays.and_triple ?_ (newstatBegin_totals C copt ns)
  refine (plays_ite hC.hrtime).bind_nil (fun _ => ?_) fun _ => hC.silent_hrtime.bind fun _ =>
    (silent_ite hC.silent_hrvtime).bind fun _ => Silent.pure _
  refine hC.hrtime.bind_nil (fun _ => ?_) fun _ =>
    (silent_ite hC.silent_hrvtime).bind fun _ => Silent.pure _
  exact (plays_ite hC.hrvtime).bind_nil (fun _ => Plays.pure fun _ hs => hs)
    fun _ => Silent.pure _

theorem plays_end (hC : C.Passive env J) (ns : Newstats) (size count : UInt64) :
    Plays env (newstatEnd C copt ns size count) J []
      fun ns' s => ns'.totals = ns.totals + (size, count) ∧ J s := by
  refine Plays.and_triple ?_ (newstatEnd_totals C copt ns size count)
  refine hC.hrtime.bind_nil (fun _ => ?_) fun _ =>
    (silent_ite hC.silent_hrvtime).bind fun _ => Silent.pure _
  exact (plays_ite hC.hrvtime).bind_nil (fun _ => Plays.pure fun _ hs => hs)
    fun _ => Silent.pure _

end Clock.Passive

/-- A fact that the strand has nothing to do with. -/
theorem Counted.and {c : Prop} {st : StatState σ} (h : Counted copt most (fun s => c ∧ J s) n st) :
    c ∧ Counted copt most J n st :=
  ⟨h.strand.1, h.strand.2, h.totals, h.history⟩

theorem silent_onStrand {α : Type} {x : Exec σ α} (hx : Silent env x) :
    Silent (fun st : StatState σ => env st.strand) (onStrand x) := by
  refine Silent.zoom ?_ hx
  exact fun _ _ => rfl

/-- A program on the strand counts nothing. -/
theorem plays_onStrand {α : Type} {x : Exec σ α} {J : σ → Prop} {calls : List Call}
    {K : α → σ → Prop} (hx : Plays env x J calls K) :
    Plays (fun st : StatState σ => env st.strand) (onStrand x) (Counted copt most J n) calls
      fun a => Counted copt most (K a) n := by
  intro st hasked hst
  obtain ⟨henv, hdone⟩ := hx st.strand hasked hst.strand
  rw [onStrand, Exec.runFrom_zoom]
  refine ⟨henv, fun hnone => ?_⟩
  obtain ⟨a, ha, hk⟩ := hdone hnone
  exact ⟨a, ha, hk, hst.totals, hst.history⟩

theorem silent_onEntry {x : Newstats → Exec σ Newstats} (hx : ∀ ns, Silent env (x ns)) :
    Silent (fun st : StatState σ => env st.strand) (onEntry ref x) := by
  unfold onEntry
  refine Silent.state.bind fun st => ?_
  cases st.stats.entry ref with
  | none => exact Silent.pure _
  | some ns => exact (silent_onStrand (hx ns)).bind fun ns => Silent.change fun _ => rfl

/-- The record of the strand is another one than those of its flowops. -/
theorem plays_onEntry {x : Newstats → Exec σ Newstats} {R : Newstats → Newstats → Prop}
    (hx : ∀ ns, Plays env (x ns) J [] fun ns' s => R ns ns' ∧ J s)
    (hsilent : ∀ ns, Silent env (x ns)) :
    Plays (fun st : StatState σ => env st.strand) (onEntry ref x) (Counted copt most J n) []
      fun _ => Counted copt most J n := by
  unfold onEntry
  have hstate : Plays (fun st : StatState σ => env st.strand) Exec.state
      (Counted copt most J n) [] fun _ => Counted copt most J n :=
    fun st _ hst => ⟨rfl, fun _ => ⟨st, rfl, hst⟩⟩
  refine hstate.bind_nil (fun st => ?_) fun st => ?_
  · cases st.stats.entry ref with
    | none => exact Plays.pure fun _ hst => hst
    | some ns =>
        refine (plays_onStrand (hx ns)).bind_nil (fun ns' => ?_) fun ns' =>
          Silent.change fun _ => rfl
        refine Plays.change (fun _ => rfl) fun st hst => ⟨hst.strand.2, hst.totals, ?_⟩
        intro henabled i hi
        show Function.update st.stats.entry ref (some ns') (.flowop i) ≠ none
        by_cases hsame : StatRef.flowop i = ref
        · rw [hsame, Function.update_self]
          exact Option.some_ne_none ns'
        · rw [Function.update_of_ne hsame]
          exact hst.history henabled i hi
  · cases st.stats.entry ref with
    | none => exact Silent.pure _
    | some ns => exact (silent_onStrand (hsilent ns)).bind fun ns => Silent.change fun _ => rfl

theorem silent_onNstats {x : Newstats → Exec σ Newstats} (hx : ∀ ns, Silent env (x ns)) :
    Silent (fun st : StatState σ => env st.strand) (onNstats x) :=
  Silent.state.bind fun _ => (silent_onStrand (hx _)).bind fun _ => Silent.change fun _ => rfl

theorem plays_onNstats {x : Newstats → Exec σ Newstats} {more : UInt64 × UInt64}
    (hx : ∀ ns, Plays env (x ns) J [] fun ns' s => ns'.totals = ns.totals + more ∧ J s)
    (hsilent : ∀ ns, Silent env (x ns)) :
    Plays (fun st : StatState σ => env st.strand) (onNstats x) (Counted copt most J n) []
      fun _ => Counted copt most J (n + more) := by
  unfold onNstats
  have hstate : Plays (fun st : StatState σ => env st.strand) Exec.state
      (Counted copt most J n) [] fun st' st =>
        st'.stats.nstats.totals = n ∧ Counted copt most J n st :=
    fun st _ hst => ⟨rfl, fun _ => ⟨st, rfl, hst.totals, hst⟩⟩
  refine hstate.bind_nil (fun st' => Plays.const fun hn => ?_) fun st' =>
    (silent_onStrand (hsilent _)).bind fun _ => Silent.change fun _ => rfl
  refine (plays_onStrand (hx _)).bind_nil (fun ns => ?_) fun ns => Silent.change fun _ => rfl
  refine Plays.change (fun _ => rfl) fun st hst => ⟨hst.strand.2, ?_, hst.history⟩
  show ns.totals = n + more
  rw [hst.strand.1, hn]

/-! ## The functions of `stats.c` -/

theorem silent_flowopBegin (hC : C.Passive env J) :
    Silent (fun st : StatState σ => env st.strand) (statsFlowopBegin C copt ref) := by
  unfold statsFlowopBegin
  split_ifs
  · exact Silent.pure _
  · exact silent_onEntry hC.silent_begin
  · exact Silent.pure _

theorem silent_flowopEnd (hC : C.Passive env J) (size count : UInt64) :
    Silent (fun st : StatState σ => env st.strand) (statsFlowopEnd C copt ref size count) := by
  unfold statsFlowopEnd
  split_ifs
  · exact Silent.pure _
  · refine Silent.bind (Silent.change fun _ => rfl) fun _ =>
      (silent_onEntry fun ns => hC.silent_end ns size count).bind fun _ => ?_
    refine Silent.state.bind fun st => ?_
    cases st.stats.entry ref with
    | none => exact Silent.failure
    | some ns => exact Silent.change fun _ => rfl
  · exact Silent.bind (Silent.change fun _ => rfl) fun _ =>
      (silent_onEntry fun ns => hC.silent_end ns size count).bind fun _ => Silent.pure _
  · exact Silent.bind (Silent.change fun _ => rfl) fun _ => Silent.pure _

/-- `TXN_BEGIN`, `GROUP_BEGIN` and the ends of both. -/
theorem silent_entry {c c' : Prop} [Decidable c] [Decidable c'] {x : Newstats → Exec σ Newstats}
    (hx : ∀ ns, Silent env (x ns)) :
    Silent (fun st : StatState σ => env st.strand)
      (if c then pure () else if c' then onEntry ref x else pure ()) := by
  split_ifs
  · exact Silent.pure _
  · exact silent_onEntry hx
  · exact Silent.pure _

@[inherit_doc silent_entry]
theorem plays_entry {c c' : Prop} [Decidable c] [Decidable c'] {x : Newstats → Exec σ Newstats}
    {R : Newstats → Newstats → Prop}
    (hx : ∀ ns, Plays env (x ns) J [] fun ns' s => R ns ns' ∧ J s)
    (hsilent : ∀ ns, Silent env (x ns)) :
    Plays (fun st : StatState σ => env st.strand)
      (if c then pure () else if c' then onEntry ref x else pure ()) (Counted copt most J n) []
      fun _ => Counted copt most J n := by
  split_ifs
  · exact Plays.pure fun _ hst => hst
  · exact plays_onEntry hx hsilent
  · exact Plays.pure fun _ hst => hst

theorem historyRecord_nstats (s : StrandStats) (h : History) :
    (historyRecord s h).nstats = s.nstats ∧ (historyRecord s h).entry = s.entry := by
  unfold historyRecord
  split_ifs
  · exact ⟨rfl, rfl⟩
  · exact ⟨rfl, rfl⟩

/-- `FLOWOP_END` adds the size, as often as the count says, and the count. -/
theorem plays_flowopEnd (hC : C.Passive env J) (hstats : enabled copt noStats = false) {i : ℕ}
    (hi : i < most) (size count : UInt64) :
    Plays (fun st : StatState σ => env st.strand) (statsFlowopEnd C copt (.flowop i) size count)
      (Counted copt most J n) [] fun _ => Counted copt most J (n + (size * count, count)) := by
  have hown : Plays (fun st : StatState σ => env st.strand)
      (Exec.change fun st : StatState σ =>
        { st with stats.nstats.size := st.stats.nstats.size + size * count
                  stats.nstats.count := st.stats.nstats.count + count })
      (Counted copt most J n) [] fun _ => Counted copt most J (n + (size * count, count)) := by
    -- the record of the strand gets its numbers before that of the flowop
    refine Plays.change (fun _ => rfl) fun st hst => ⟨hst.strand, ?_, hst.history⟩
    rw [← hst.totals]
    rfl
  have hentry : Plays (fun st : StatState σ => env st.strand)
      (onEntry (.flowop i) fun ns => newstatEnd C copt ns size count)
      (Counted copt most J (n + (size * count, count))) []
      fun _ => Counted copt most J (n + (size * count, count)) :=
    plays_onEntry (fun ns => hC.plays_end ns size count) fun ns => hC.silent_end ns size count
  unfold statsFlowopEnd
  rw [if_neg (by simp [hstats])]
  split_ifs with hrecorded henabled
  · refine hown.bind_nil (fun _ => hentry.bind_nil (fun _ st hasked hst => ?_) fun _ => ?_)
      fun _ => (silent_onEntry fun ns => hC.silent_end ns size count).bind fun _ => ?_
    · -- the history takes its times from the record of the flowop
      obtain ⟨ns, hns⟩ := Option.ne_none_iff_exists'.mp (hst.history henabled i hi)
      rw [Exec.runFrom_bind, Exec.runFrom_state]
      dsimp only
      rw [hns]
      refine ⟨rfl, fun _ => ⟨(), rfl, hst.strand, ?_, fun henabled => ?_⟩⟩
      · show (historyRecord st.stats _).nstats.totals = _
        rw [(historyRecord_nstats ..).1]
        exact hst.totals
      · show ∀ i < most, (historyRecord st.stats _).entry (.flowop i) ≠ none
        rw [(historyRecord_nstats ..).2]
        exact hst.history henabled
    all_goals
      refine Silent.state.bind fun st => ?_
      cases st.stats.entry (.flowop i) with
      | none => exact Silent.failure
      | some ns => exact Silent.change fun _ => rfl
  · refine hown.bind_nil (fun _ => ?_) fun _ =>
      (silent_onEntry fun ns => hC.silent_end ns size count).bind fun _ => Silent.pure _
    exact hentry.bind_nil (fun _ => Plays.pure fun _ hst => hst) fun _ => Silent.pure _
  · exact hown.bind_nil (fun _ => Plays.pure fun _ hst => hst) fun _ => Silent.pure _

end

/-! ## The strand -/

section

variable {σ : Type} {M : Machine σ} {C : Clock σ} {env : σ → Dialogue} {copt : UInt32}
  {most base : ℕ} {txn : Txn} {n : UInt64 × UInt64}

/-- A machine with statistics makes the calls of the machine without, and counts. -/
theorem Machine.Performs.withStats {J : Book → σ → Prop} (h : M.Performs env txn fun b _ => J b)
    (hC : ∀ b, C.Passive env (J b)) (hstats : enabled copt noStats = false)
    (hmost : base + txn.flist.length ≤ most) (t : ℕ) :
    (Uperf.withStats M C copt t base).Performs (fun st => env st.strand) txn
      fun b n => Counted copt most (J b) n where
  signalled b n := (plays_onStrand (h.signalled b 0)).imp (fun _ hst => hst)
    fun _ _ hst => hst.and
  errno b n := (plays_onStrand (h.errno b 0)).imp (fun _ hst => hst)
    fun _ _ hst => hst.and
  execute n hf hexecute := (plays_onStrand (h.execute 0 hf hexecute)).imp (fun _ hst => hst)
    fun _ _ hst => hst.and
  flowopBegin b n _ := plays_entry (hC b).plays_begin (hC b).silent_begin
  flowopEnd b n size count hf := by
    have hj := (List.getElem?_eq_some_iff.mp hf).1
    exact plays_flowopEnd (hC b) hstats (by omega) size count
  txnBegin b n := plays_entry (hC b).plays_begin (hC b).silent_begin
  txnEnd b n := plays_entry (fun ns => (hC b).plays_end ns 0 1) fun ns => (hC b).silent_end ns 0 1
  silent d hd :=
    { next := fun _ _ hs => hs
      signalled := fun j => silent_onStrand (fun d hd => (h.silent d hd).signalled j) d hd
      errno := fun j => silent_onStrand (fun d hd => (h.silent d hd).errno j) d hd
      execute := fun j f hf =>
        silent_onStrand (fun d hd => (h.silent d hd).execute j f hf) d hd
      flowopBegin := fun j => silent_flowopBegin (hC {}) d hd
      flowopEnd := fun j size count => Uperf.silent_flowopEnd (hC {}) size count d hd
      txnBegin := fun j => silent_entry (hC {}).silent_begin d hd
      txnEnd := fun j => silent_entry (fun ns => (hC {}).silent_end ns 0 1) d hd }

/-- `strand_run` counts what its group does, and one more. -/
theorem plays_strandRun {J J' : σ → Prop} (hJ : C.Passive env J) (hJ' : C.Passive env J')
    {execute : Exec (StatState σ) (Option Int32)} {calls : List Call}
    (hexecute : Plays (fun st => env st.strand) execute (Counted copt most J 0) calls
      fun ret st => ret = some 0 ∧ Counted copt most J' n st)
    (hsilent : Silent (fun st => env st.strand) execute) :
    Plays (fun st => env st.strand) (strandRun C copt execute) (Counted copt most J 0) calls
      fun ret st => ret = some 0 ∧ Counted copt most J' (n + (0, 1)) st := by
  have hbegin : Plays (fun st : StatState σ => env st.strand) (onNstats (newstatBegin C copt))
      (Counted copt most J 0) [] fun _ => Counted copt most J (0 + 0) :=
    plays_onNstats (fun ns => (hJ.plays_begin ns).imp (fun _ hs => hs)
      fun _ _ hs => ⟨hs.1.trans (add_zero _).symm, hs.2⟩) hJ.silent_begin
  have hend : Plays (fun st : StatState σ => env st.strand)
      (onNstats fun ns => newstatEnd C copt ns 0 1) (Counted copt most J' n) []
      fun _ => Counted copt most J' (n + (0, 1)) :=
    plays_onNstats (fun ns => hJ'.plays_end ns 0 1) fun ns => hJ'.silent_end ns 0 1
  -- nothing happens behind a call that is not answered
  have hsilentEnd : ∀ error : Option Int32, Silent (fun st : StatState σ => env st.strand) (do
      onNstats fun ns => newstatEnd C copt ns 0 1
      pure error) :=
    fun _ => (silent_onNstats fun ns => hJ'.silent_end ns 0 1).bind fun _ => Silent.pure _
  have hsilentBehind : ∀ error : Option Int32, Silent (fun st : StatState σ => env st.strand) (do
      statsGroupEnd C copt
      onNstats fun ns => newstatEnd C copt ns 0 1
      pure error) :=
    fun error => (silent_entry fun ns => hJ'.silent_end ns 0 1).bind fun _ => hsilentEnd error
  rw [add_zero] at hbegin
  unfold strandRun
  refine hbegin.bind_nil (fun _ => ?_) fun _ =>
    (silent_entry hJ.silent_begin).bind fun _ => hsilent.bind hsilentBehind
  refine (plays_entry hJ.plays_begin hJ.silent_begin).bind_nil (fun _ => ?_) fun _ =>
    hsilent.bind hsilentBehind
  refine hexecute.bind_pure (fun error => Plays.const fun herror => ?_) hsilentBehind
  refine (plays_entry (fun ns => hJ'.plays_end ns 0 1) fun ns => hJ'.silent_end ns 0 1).bind_nil
    (fun _ => ?_) fun _ => hsilentEnd error
  exact hend.bind_nil (fun _ => Plays.pure fun _ hst => ⟨herror, hst⟩) fun _ => Silent.pure _

end

section

variable {t : Thread} {k : Keeping} {calls : List Call}

/-- The strand with its statistics makes the calls of its script. -/
theorem Thread.Ready.runCounting (h : t.Ready calls) (hk : k.Enabled t.group)
    (answers : List ℕ) :
    (t.runCounting k answers).2.strand.1.env = ({ answers } : Dialogue).makeAll calls ∧
      ((t.runCounting k answers).2.strand.1.env.asked = none →
        (t.runCounting k answers).1 = some (some 0) ∧
          t.totals k answers = countedAll t.group.jobs + (0, 1)) := by
  obtain ⟨b', hscript⟩ := h.regular.script
  -- the state of the strand stands beside the number of readings of the clocks
  let M : ℕ → ℕ → Machine (StatState (StrandWorld Dialogue × ℕ)) :=
    withStats (strandMachine (kernelEnv t.conns.allocated t.cursor)).beside (timeClock k.time)
      k.copt
  let I : List Flowop → Book → UInt64 × UInt64 → StatState (StrandWorld Dialogue × ℕ) → Prop :=
    fun flist b n => Counted k.copt t.group.flowops.length
      (fun st => HasBook t.conns.allocated t.conns.listenConn flist b st.1) n
  have hperforms : PerformAll M (fun st => st.strand.1.env) I t.group.tlist := by
    intro before txn behind hsplit
    have hmem : txn ∈ t.group.tlist := by
      rw [hsplit]
      exact List.mem_append_right _ List.mem_cons_self
    refine (performs_strandMachine (h.playable txn hmem)).beside.withStats
      (fun b => timeClock_passive k.time) hk.stats ?_ _
    rw [Group.flowops, hsplit, List.flatMap_append, List.length_append, List.flatMap_cons,
      List.length_append]
    omega
  have hsilent : Silent (fun st : StatState (StrandWorld Dialogue × ℕ) => st.strand.1.env)
      (onStrand (Uperf.beside waitBarrier)) := silent_onStrand silent_waitBarrier.beside
  have hexecute := hperforms.plays hsilent
    (fun flist flist' b n => plays_onStrand (plays_waitBarrier flist flist').beside)
    h.regular.duration k.timing t.rounds (List.nil_append _).symm [] 0 hscript
  have hsilentExecute :
      Silent (fun st : StatState (StrandWorld Dialogue × ℕ) => st.strand.1.env)
        (groupTxns M k.timing (onStrand (Uperf.beside waitBarrier)) t.rounds 0 0 t.group.tlist 0) :=
    hperforms.silent hsilent h.regular.duration k.timing t.rounds (List.nil_append _).symm 0
  have hpassive : ∀ J : StrandWorld Dialogue → Prop, (timeClock k.time).Passive
      (fun st : StrandWorld Dialogue × ℕ => st.1.env) fun st => J st.1 :=
    fun _ => timeClock_passive k.time
  rw [zero_add] at hexecute
  have hcounts : Plays (fun st : StatState (StrandWorld Dialogue × ℕ) => st.strand.1.env)
      (groupTxns M k.timing (onStrand (Uperf.beside waitBarrier)) t.rounds 0 0 t.group.tlist 0)
      (I [] {} 0) calls fun ret st => ret = some 0 ∧
        Counted k.copt t.group.flowops.length
          (fun st => ∃ flist', HasBook t.conns.allocated t.conns.listenConn flist' b' st.1)
          (countedAll t.group.jobs) st := by
    refine hexecute.imp (fun _ hst => hst) ?_
    rintro ret st ⟨hret, flist', hst⟩
    exact ⟨hret, ⟨flist', hst.strand⟩, hst.totals, hst.history⟩
  have hrun := plays_strandRun
    (hpassive (HasBook t.conns.allocated t.conns.listenConn [] {}))
    (hpassive fun w => ∃ flist', HasBook t.conns.allocated t.conns.listenConn flist' b' w)
    hcounts hsilentExecute
  obtain ⟨henv, hdone⟩ := hrun
    { strand := ({ env := { answers }, conns := t.conns }, 0), stats := { entry := k.entry } } rfl
    ⟨h.hasBook answers, rfl, hk.history⟩
  refine ⟨henv, fun hnone => ?_⟩
  obtain ⟨ret, hret, rfl, hst⟩ := hdone hnone
  exact ⟨hret, hst.totals⟩

/-- A strand that has ended has counted its jobs. -/
theorem Thread.Ready.counts (h : t.Ready calls) (hk : k.Enabled t.group) {answers : List ℕ}
    (hdone : t.asks answers = none) :
    (t.runCounting k answers).1 = some (some 0) ∧
      t.totals k answers = countedAll t.group.jobs + (0, 1) := by
  obtain ⟨henv, hcounts⟩ := h.runCounting hk answers
  refine hcounts ?_
  rw [henv, ← (h.run answers).1]
  exact hdone

end

/-! ## Both strands of a pair -/

section

variable {jobs jobs' : List Job} {f f' : Flowop} {b b' : Book} {call : Option Call}
  {calls : List Call}

/-- A flowop that has calls returns what its dual does. -/
theorem Flowop.Dual.returned (h : f.Dual f') (hexecute : b.execute f = some (call, b')) :
    f'.returned = f.returned := by
  -- no script has a `sendfile`, whose opposite counts another size
  have hfiles : f.type ≠ .sendfile ∧ f.type ≠ .sendfilev := by
    unfold Book.execute at hexecute
    constructor
    · intro htype
      simp only [htype] at hexecute
      cases hexecute
    · intro htype
      simp only [htype] at hexecute
      cases hexecute
  rw [Flowop.returned, Flowop.returned, h.moves hfiles.1 hfiles.2, h.size]

/-- Jobs that go with each other are counted alike. -/
theorem countedAll_dual (h : List.Forall₂ Job.Dual jobs jobs')
    (hscript : b.script jobs = some (calls, b')) : countedAll jobs' = countedAll jobs := by
  induction h generalizing b calls with
  | nil => rfl
  | cons hjob _ ih =>
      rw [countedAll_cons, countedAll_cons]
      cases hjob with
      | barrier =>
          obtain ⟨⟨rest, b₁⟩, hrest, heq⟩ := Option.map_eq_some_iff.mp hscript
          cases heq
          rw [ih hrest]
      | flowop hf =>
          obtain ⟨call, b₁, rest, hexecute, hrest, rfl⟩ := script_flowop_eq_some hscript
          rw [ih hrest, Job.counted, Job.counted, hf.returned hexecute]

end

section

variable {calls : List Call} {thread : Role → Thread} {room : Room} {st : Duplex}
  {acts : List (Role × ℕ)} {k : Role → Keeping}

theorem StrandPair.counted (h : StrandPair thread calls) (s : Role) :
    countedAll (thread s).group.jobs = countedAll (thread .master).group.jobs := by
  obtain ⟨b', hscript⟩ := h.master.regular.script
  cases s with
  | master => rfl
  | slave => exact countedAll_dual h.dual.jobs hscript

/-- A strand that has ended makes no step. -/
theorem Duplex.step_of_ended {s : Role} (hended : (thread s).asks (st.ends s).answers = none)
    (k : ℕ) : st.step thread room (s, k) = none := by
  unfold Duplex.step
  simp only [hended]

/-- When both strands have ended they have counted the same. -/
theorem StrandPair.counts (h : StrandPair thread calls)
    (hk : ∀ s, (k s).Enabled (thread s).group)
    (hended : ∀ s, (thread s).asks (st.ends s).answers = none) (s : Role) :
    ((thread s).runCounting (k s) (st.ends s).answers).1 = some (some 0) ∧
      (thread s).totals (k s) (st.ends s).answers =
        countedAll (thread .master).group.jobs + (0, 1) := by
  rw [← h.counted s]
  exact (h.ready s).counts (hk s) (hended s)

/-- Statistics of flowops, with their history. -/
def echoKeeping : Keeping where
  copt := flowopStats ||| historyStats
  time := UInt64.ofNat
  entry _ := some {}
  timing := { txnBegin := pure 0, calloutRegister := fun _ => pure (), rateExecute := fun _ x => x }

theorem echoKeeping_enabled (g : Group) : echoKeeping.Enabled g where
  stats := by decide
  history _ _ _ := Option.some_ne_none _

/-- At the end of the run both strands have ended. -/
theorem exists_echoEnd : ∃ st, Lib.run (Duplex.step echoThreads narrowRoom) {} echoRun = some st ∧
    ∀ s, (echoThreads s).asks (st.ends s).answers = none := by
  have hsome : ((Lib.run (Duplex.step echoThreads narrowRoom) {} echoRun).filter fun st =>
      (echoThreads .master).asks (st.ends .master).answers = none ∧
        (echoThreads .slave).asks (st.ends .slave).answers = none).isSome = true := by
    decide +kernel
  obtain ⟨st, hst⟩ := Option.isSome_iff_exists.mp hsome
  obtain ⟨hrun, hended⟩ := Option.filter_eq_some_iff.mp hst
  obtain ⟨hmaster, hslave⟩ := of_decide_eq_true hended
  refine ⟨st, hrun, fun s => ?_⟩
  cases s with
  | master => exact hmaster
  | slave => exact hslave

end

end Uperf
