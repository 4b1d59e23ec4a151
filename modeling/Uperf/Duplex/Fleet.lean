import Mathlib.Algebra.Order.BigOperators.Group.Finset
import Mathlib.Data.Fintype.Basic
import Uperf.Duplex.Pair

/-!
# All strands of a run

The strands of the master meet in its barriers, whichever slave they talk to.
`master_poll` opens a barrier when all strands that have to come have reached it, and
tells the slaves; a slave opens its barrier when it has been told and its own strands
have reached it.  As long as no strand is signalled the run does not get stuck, and
all strands succeed.
-/

namespace Uperf

open Lib TwoSides

/-- The strands of the master and of all slaves, in pairs, and the slave that has the
second strand of each pair.  No connection has a port of the profile:
`create_protocols` lets all threads share the listener of such a port, where each pair
here has a backlog of its own. -/
structure Fleet (n : ℕ) where
  thread : Fin n → Role → Thread
  host : Fin n → ℕ
  room : Room
  ports : ∀ i s, ∀ f ∈ (thread i s).group.flowops, f.type.opens = true → f.options.port = 0

/-- The pairs of strands, `curr_txn` of `master_poll`, and how many barriers each of
the slaves has opened. -/
structure FleetState (n : ℕ) where
  pairs : Fin n → Duplex := fun _ => {}
  opened : ℕ := 0
  followed : ℕ → ℕ := fun _ => 0

inductive FleetAct (n : ℕ)
  /-- the kernel answers a call of a strand -/
  | strand (i : Fin n) (s : Role) (k : ℕ)
  /-- `master_poll` finds the next barrier reached -/
  | master
  /-- a slave finds its next barrier reached, and has the command for it -/
  | slave (host : ℕ)

namespace Fleet

variable {n : ℕ} (F : Fleet n) (st : FleetState n)

/-- `g->ntxn` of the group of a pair. -/
def ntxn (i : Fin n) : ℕ := (F.thread i .master).group.tlist.length

def asks (i : Fin n) (s : Role) : Option Call :=
  (F.thread i s).asks ((st.pairs i).ends s).answers

/-- The strand waits in the barrier of the transaction `k`. -/
def WaitsAt (i : Fin n) (s : Role) (k : ℕ) : Prop :=
  F.asks st i s = some .barrier ∧ ((st.pairs i).ends s).passed = k

instance (i : Fin n) (s : Role) (k : ℕ) : Decidable (F.WaitsAt st i s k) :=
  inferInstanceAs (Decidable (_ ∧ _))

/-- `BARRIER_REACHED` for the barrier that the master opens next.  There is one as
long as it is not above `workorder_max_txn`. -/
def MasterReached : Prop :=
  (∃ i, st.opened < F.ntxn i) ∧ ∀ i, st.opened < F.ntxn i → F.WaitsAt st i .master st.opened

instance : Decidable (F.MasterReached st) := inferInstanceAs (Decidable (_ ∧ _))

/-- The pair `i` has a strand that waits for the next barrier of the slave. -/
def Awaited (host : ℕ) (i : Fin n) : Prop := F.host i = host ∧ st.followed host < F.ntxn i

instance (host : ℕ) (i : Fin n) : Decidable (F.Awaited st host i) :=
  inferInstanceAs (Decidable (_ ∧ _))

/-- The slave has been told to open its next barrier, and finds it reached. -/
def SlaveReached (host : ℕ) : Prop :=
  st.followed host < st.opened ∧ (∃ i, F.Awaited st host i) ∧
    ∀ i, F.Awaited st host i → F.WaitsAt st i .slave (st.followed host)

instance (host : ℕ) : Decidable (F.SlaveReached st host) :=
  inferInstanceAs (Decidable (_ ∧ _ ∧ _))

def step : FleetAct n → Option (FleetState n)
  | .strand i s k =>
      if F.asks st i s = some .barrier then none
      else
        ((st.pairs i).step (F.thread i) F.room (s, k)).map fun pair =>
          { st with pairs := Function.update st.pairs i pair }
  | .master =>
      if F.MasterReached st then
        some { st with
          pairs := fun i =>
            if st.opened < F.ntxn i then (st.pairs i).release .master else st.pairs i
          opened := st.opened + 1 }
      else none
  | .slave host =>
      if F.SlaveReached st host then
        some { st with
          pairs := fun i =>
            if F.Awaited st host i then (st.pairs i).release .slave else st.pairs i
          followed := Function.update st.followed host (st.followed host + 1) }
      else none

end Fleet

/-! ## A pair -/

section

variable {thread : Role → Thread} {calls : List Call} {room : Room} {st st' : Duplex}
  {s : Role} {k : ℕ}

/-- How much the strands have still to do. -/
def Duplex.left (calls : List Call) (st : Duplex) : ℕ :=
  ((residual (sides calls .master) (st.ends .master).answers).map Call.weight).sum +
    ((residual (sides calls .slave) (st.ends .slave).answers).map Call.weight).sum

/-- The state is one of a run of the pair. -/
structure Duplex.Sound (calls : List Call) (st : Duplex) : Prop where
  mirrors : ∃ table ex, st.Mirrors (sides calls) table ex ∧ ex.Linked
  commands : st.commands + (st.ends .slave).passed = (st.ends .master).passed

theorem Duplex.Mirrors.left_eq {table : ℕ → Option Conn} {ex : Exchange Role Key Item}
    (h : st.Mirrors (sides calls) table ex) :
    st.left calls = (ex.script .master).length + (ex.script .slave).length := by
  rw [h.script, h.script, End.acts, End.acts, length_units, length_units, Duplex.left]

theorem StrandPair.sound_start (h : StrandPair thread calls) : ({} : Duplex).Sound calls :=
  ⟨⟨_, _, h.mirrors_start, linked_startExchange calls⟩, rfl⟩

/-- Every step of the pair takes it closer to the end. -/
theorem Duplex.Sound.step (h : st.Sound calls) (hpair : StrandPair thread calls)
    (hstep : st.step thread room (s, k) = some st') :
    (∃ table ex, st'.Mirrors (sides calls) table ex ∧ ex.Linked) ∧
      st'.left calls < st.left calls := by
  obtain ⟨table, ex, hmirrors, hl⟩ := h.mirrors
  obtain ⟨n, table', ex', hpos, hsteps, hmirrors'⟩ := hmirrors.step hl hpair.follows hstep
  refine ⟨⟨table', ex', hmirrors', hl.steps hsteps⟩, ?_⟩
  obtain ⟨hself, hother⟩ := Exchange.length_steps hsteps
  rw [hmirrors.left_eq, hmirrors'.left_eq]
  cases s with
  | master =>
      have hsame : ex'.script .slave = ex.script .slave := hother
      rw [hsame]
      omega
  | slave =>
      have hsame : ex'.script .master = ex.script .master := hother
      rw [hsame]
      omega

/-- What a step does to the sides and to the commands. -/
theorem Duplex.ends_step (hstep : st.step thread room (s, k) = some st') :
    ((thread s).asks (st.ends s).answers = some .barrier ∧ st' = st.release s) ∨
    (thread s).asks (st.ends s).answers ≠ some .barrier ∧ st'.commands = st.commands ∧
      ((∃ link, st'.ends = Function.update st.ends s ((st.ends s).opens link)) ∨
        ∃ size, st'.ends = Function.update st.ends s ((st.ends s).moves size k)) := by
  unfold Duplex.step at hstep
  cases hasks : (thread s).asks (st.ends s).answers with
  | none =>
      simp only [hasks] at hstep
      cases hstep
  | some call =>
      simp only [hasks] at hstep
      cases call with
      | connect protocol =>
          obtain ⟨-, hsome⟩ := Option.ite_none_right_eq_some.mp hstep
          cases hsome
          exact .inr ⟨by simp, rfl, .inl ⟨_, rfl⟩⟩
      | accept protocol =>
          cases hbacklog : st.backlog s protocol with
          | nil =>
              simp only [hbacklog] at hstep
              cases hstep
          | cons link waiting =>
              simp only [hbacklog] at hstep
              cases hstep
              exact .inr ⟨by simp, rfl, .inl ⟨link, rfl⟩⟩
      | send conn off size | recv conn off size =>
          cases hlink : (st.ends s).links[conn]? with
          | none =>
              simp only [hlink] at hstep
              cases hstep
          | some link =>
              simp only [hlink] at hstep
              obtain ⟨-, hsome⟩ := Option.ite_none_right_eq_some.mp hstep
              cases hsome
              exact .inr ⟨by simp, rfl, .inr ⟨size, rfl⟩⟩
      | barrier =>
          cases s with
          | master =>
              cases hstep
              exact .inl ⟨rfl, rfl⟩
          | slave =>
              obtain ⟨-, hsome⟩ := Option.ite_none_right_eq_some.mp hstep
              cases hsome
              exact .inl ⟨rfl, rfl⟩

/-- Away from the barriers nothing changes for the commands. -/
theorem Duplex.Sound.step_strand (h : st.Sound calls) (hpair : StrandPair thread calls)
    (hno : (thread s).asks (st.ends s).answers ≠ some .barrier)
    (hstep : st.step thread room (s, k) = some st') :
    st'.Sound calls ∧ st'.left calls < st.left calls ∧
      ∀ t, (st'.ends t).passed = (st.ends t).passed := by
  obtain ⟨hmirrors, hleft⟩ := h.step hpair hstep
  obtain ⟨-, hcommands, hends⟩ := (Duplex.ends_step hstep).resolve_left fun hb => hno hb.1
  have hpassed : ∀ t, (st'.ends t).passed = (st.ends t).passed := by
    intro t
    rcases hends with ⟨link, hends⟩ | ⟨size, hends⟩
    · rw [hends, Function.update_apply]
      split_ifs with hts
      · rw [hts]
        rfl
      · rfl
    · rw [hends, Function.update_apply]
      split_ifs with hts
      · rw [hts]
        rfl
      · rfl
  refine ⟨⟨hmirrors, ?_⟩, hleft, hpassed⟩
  rw [hcommands, hpassed, hpassed]
  exact h.commands

theorem Duplex.passed_release (st : Duplex) (s t : Role) :
    ((st.release s).ends t).passed =
      if t = s then (st.ends t).passed + 1 else (st.ends t).passed := by
  rcases eq_or s t with rfl | rfl
  · simp [Duplex.release, End.passes]
  · simp [Duplex.release]

/-- The barrier of the master is unlocked. -/
theorem Duplex.Sound.release_master (h : st.Sound calls) (hpair : StrandPair thread calls)
    (hasks : (thread .master).asks (st.ends .master).answers = some .barrier) :
    (st.release .master).Sound calls ∧ (st.release .master).left calls < st.left calls := by
  have hstep : st.step thread ⟨1, 1, Nat.one_pos, Nat.one_pos⟩ (.master, 0) =
      some (st.release .master) := by
    simp only [Duplex.step, hasks]
  obtain ⟨hmirrors, hleft⟩ := h.step hpair hstep
  refine ⟨⟨hmirrors, ?_⟩, hleft⟩
  have hcommands := h.commands
  have hsucc : (st.release .master).commands = st.commands + 1 := rfl
  rw [hsucc, st.passed_release, st.passed_release, if_neg (by decide), if_pos rfl]
  omega

/-- So is that of a slave that has been told. -/
theorem Duplex.Sound.release_slave (h : st.Sound calls) (hpair : StrandPair thread calls)
    (hasks : (thread .slave).asks (st.ends .slave).answers = some .barrier)
    (htold : (st.ends .slave).passed < (st.ends .master).passed) :
    (st.release .slave).Sound calls ∧ (st.release .slave).left calls < st.left calls := by
  have hcommands := h.commands
  have hthere : 0 < st.commands := by omega
  have hstep : st.step thread ⟨1, 1, Nat.one_pos, Nat.one_pos⟩ (.slave, 0) =
      some (st.release .slave) := by
    simp only [Duplex.step, hasks, if_pos hthere]
  obtain ⟨hmirrors, hleft⟩ := h.step hpair hstep
  refine ⟨⟨hmirrors, ?_⟩, hleft⟩
  have hpred : (st.release .slave).commands = st.commands - 1 := rfl
  rw [hpred, st.passed_release, st.passed_release, if_pos rfl, if_neg (by decide)]
  omega

/-- What comes first in the acts of some calls. -/
theorem head_units {opened moved : ℕ} {call : Call} {rest : List Call} (hpos : call.Positive) :
    ∃ act acts, units s opened moved (call :: rest) = act :: acts ∧
      (isCommand act = true ↔ call = .barrier) := by
  cases call with
  | connect protocol | accept protocol => exact ⟨_, _, rfl, by simp [isCommand]⟩
  | send conn off size | recv conn off size =>
      obtain ⟨more, rfl⟩ := Nat.exists_eq_succ_of_ne_zero (Nat.pos_iff_ne_zero.mp hpos)
      rw [units, sentBytes_succ]
      exact ⟨_, _, rfl, by simp [isCommand]⟩
  | barrier => exact ⟨barrierAct s, _, rfl, by simp [isCommand_barrierAct]⟩

/-- A pair that does not go on by itself: the slave has to pass a barrier that the
master has passed, or both wait in the same barrier, or both have ended. -/
theorem Duplex.Sound.blocked (h : st.Sound calls) (hpair : StrandPair thread calls)
    (hstuck : ∀ s k, (thread s).asks (st.ends s).answers ≠ some .barrier →
      st.step thread room (s, k) = none) :
    ((thread .slave).asks (st.ends .slave).answers = some .barrier ∧
      (st.ends .slave).passed < (st.ends .master).passed) ∨
    ((∀ s, (thread s).asks (st.ends s).answers = some .barrier) ∧
      (st.ends .slave).passed = (st.ends .master).passed) ∨
    ∀ s, (thread s).asks (st.ends s).answers = none := by
  obtain ⟨table, ex, hmirrors, hl⟩ := h.mirrors
  have hcommands := h.commands
  -- who could go on waits in a barrier
  have hready : ∀ s, ex.Ready s → (thread s).asks (st.ends s).answers = some .barrier := by
    intro s hs
    by_contra hno
    obtain ⟨k, st', hstep⟩ := hpair.step_of_ready room hmirrors hs
    rw [hstuck s k hno] at hstep
    cases hstep
  have hscript : ∀ s, ex.script s = units s (st.ends s).links.length (st.ends s).transfers
      (residual (sides calls s) (st.ends s).answers) := hmirrors.script
  have hpositive : ∀ s, ∀ c ∈ residual (sides calls s) (st.ends s).answers, c.Positive :=
    fun s => residual_positive (hpair.ready s).positive (st.ends s).answers
  have hasks : ∀ s, (thread s).asks (st.ends s).answers =
      (residual (sides calls s) (st.ends s).answers).head? := fun s => hpair.follows s _
  rcases hl.available_or_even with ⟨s, key, item, rest, hhead, hqueue⟩ | ⟨hdual, hempty⟩
  · have hbarrier : (thread s).asks (st.ends s).answers = some .barrier :=
      hready s (Exchange.ready_of_take hhead hqueue)
    obtain ⟨later, hlater⟩ := List.head?_eq_some_iff.mp ((hasks s).symm.trans hbarrier)
    rw [hscript, hlater] at hhead
    cases s with
    | master => cases (List.cons.inj hhead).1
    | slave =>
        refine .inl ⟨hbarrier, ?_⟩
        obtain ⟨rfl, rfl⟩ := Act.take.inj (List.cons.inj hhead).1
        have hsome : st.commands ≠ 0 := by
          intro hzero
          rw [hmirrors.command, if_pos rfl, hzero] at hqueue
          exact hqueue rfl
        omega
  · have hslave : ex.script .slave = (ex.script .master).map Act.dual := hdual .master
    have hnone : st.commands = 0 := by
      have hcommand := hmirrors.command .slave
      rw [hempty, if_pos rfl] at hcommand
      simpa using hcommand.symm
    cases hmaster : residual (sides calls .master) (st.ends .master).answers with
    | nil =>
        have hnil : ex.script .slave = [] := by
          rw [hslave, hscript .master, hmaster]
          rfl
        refine .inr (.inr fun s => ?_)
        rw [hasks]
        cases s with
        | master => rw [hmaster, List.head?_nil]
        | slave =>
            cases hleft : residual (sides calls .slave) (st.ends .slave).answers with
            | nil => rfl
            | cons call rest =>
                obtain ⟨act, acts, hhead, -⟩ :=
                  head_units (hpositive .slave call (by rw [hleft]; exact List.mem_cons_self))
                rw [hscript, hleft, hhead] at hnil
                cases hnil
    | cons call rest =>
        obtain ⟨act, acts, hhead, hkind⟩ :=
          head_units (hpositive .master call (by rw [hmaster]; exact List.mem_cons_self))
        have hscriptm : ex.script .master = act :: acts := by rw [hscript, hmaster, hhead]
        have hscripts : ex.script .slave = act.dual :: acts.map Act.dual := by
          rw [hslave, hscriptm, List.map_cons]
        cases hleft : residual (sides calls .slave) (st.ends .slave).answers with
        | nil =>
            rw [hscript, hleft] at hscripts
            cases hscripts
        | cons call' rest' =>
            obtain ⟨act', acts', hhead', hkind'⟩ :=
              head_units (hpositive .slave call' (by rw [hleft]; exact List.mem_cons_self))
            have hact : act' = act.dual := by
              rw [hscript, hleft, hhead'] at hscripts
              exact (List.cons.inj hscripts).1
            rw [hact, isCommand_dual] at hkind'
            have hsame : call = .barrier ↔ call' = .barrier := hkind.symm.trans hkind'
            by_cases hbarrier : call = .barrier
            · refine .inr (.inl ⟨fun s => ?_, by omega⟩)
              rw [hasks]
              cases s with
              | master => rw [hmaster, hbarrier, List.head?_cons]
              | slave => rw [hleft, hsame.mp hbarrier, List.head?_cons]
            · -- the side that puts could go on
              exfalso
              cases act with
              | put key item =>
                  have hb := hready .master (Exchange.ready_of_put hscriptm (hempty .slave key))
                  rw [hasks, hmaster] at hb
                  exact hbarrier (Option.some.inj hb)
              | take key item =>
                  have hb := hready .slave (Exchange.ready_of_put hscripts (hempty .master key))
                  rw [hasks, hleft] at hb
                  exact hbarrier (hsame.mpr (Option.some.inj hb))

end

/-! ## The barriers of a group -/

section

variable {b b' : Book} {f : Flowop} {calls : List Call}

theorem Book.execute_ne_barrier {call : Call} (h : b.execute f = some (some call, b')) :
    call ≠ .barrier := by
  unfold Book.execute at h
  cases htype : f.type with
  | connect | accept =>
      simp only [htype] at h
      obtain ⟨-, hsome⟩ := Option.ite_none_right_eq_some.mp h
      cases hsome
      simp
  | read | recv | write | send =>
      simp only [htype] at h
      obtain ⟨-, hmap⟩ := Option.ite_none_right_eq_some.mp h
      obtain ⟨conn, -, hsome⟩ := Option.map_eq_some_iff.mp hmap
      cases hsome
      simp
  | disconnect =>
      simp only [htype] at h
      obtain ⟨conn, -, hsome⟩ := Option.map_eq_some_iff.mp h
      cases hsome
  | nop | think | error | sendfile | sendfilev | other =>
      simp only [htype] at h
      cases h

theorem count_barrier_flowops {flowops : List Flowop}
    (h : b.script (flowops.map .flowop) = some (calls, b')) : calls.count .barrier = 0 := by
  induction flowops generalizing b calls with
  | nil =>
      cases h
      rfl
  | cons f flowops ih =>
      obtain ⟨call, b₁, rest, hexecute, hrest, rfl⟩ := script_flowop_eq_some h
      cases call with
      | none => exact ih hrest
      | some call =>
          have hne := Book.execute_ne_barrier hexecute
          rw [Option.toList_some, List.singleton_append, List.count_cons_of_ne hne]
          exact ih hrest

/-- There is one barrier for each transaction. -/
theorem count_barrier_txns {txns : List Txn}
    (h : b.script (txns.flatMap Txn.jobs) = some (calls, b')) :
    calls.count .barrier = txns.length := by
  induction txns generalizing b calls with
  | nil =>
      cases h
      rfl
  | cons txn txns ih =>
      rw [List.flatMap_cons, Txn.jobs, List.cons_append] at h
      obtain ⟨⟨rest, b₁⟩, hrest, heq⟩ := Option.map_eq_some_iff.mp h
      cases heq
      obtain ⟨first, later, b₂, hfirst, hlater, rfl⟩ := script_append_eq_some hrest
      rw [List.count_cons_self, List.count_append, count_barrier_flowops hfirst, ih hlater,
        Nat.zero_add, List.length_cons]

end

/-! ## The run -/

section

variable {n : ℕ} {F : Fleet n} {calls : Fin n → List Call} {st st' : FleetState n}

/-- What holds in every state of a run. -/
structure Fleet.Inv (F : Fleet n) (calls : Fin n → List Call) (st : FleetState n) : Prop where
  sound : ∀ i, (st.pairs i).Sound (calls i)
  master : ∀ i, ((st.pairs i).ends .master).passed = min st.opened (F.ntxn i)
  slave : ∀ i, ((st.pairs i).ends .slave).passed = min (st.followed (F.host i)) (F.ntxn i)
  behind : ∀ host, st.followed host ≤ st.opened

/-- Each pair runs the two sides of a regular group. -/
def Fleet.Regular (F : Fleet n) (calls : Fin n → List Call) : Prop :=
  ∀ i, StrandPair (F.thread i) (calls i)

/-- How much all strands have still to do. -/
def FleetState.left (calls : Fin n → List Call) (st : FleetState n) : ℕ :=
  ∑ i, (st.pairs i).left (calls i)

theorem Fleet.Regular.start (h : F.Regular calls) : F.Inv calls {} where
  sound i := (h i).sound_start
  master _ := (Nat.zero_min _).symm
  slave _ := (Nat.zero_min _).symm
  behind _ := le_refl _

theorem FleetState.left_lt (i : Fin n)
    (hle : ∀ j, (st'.pairs j).left (calls j) ≤ (st.pairs j).left (calls j))
    (hlt : (st'.pairs i).left (calls i) < (st.pairs i).left (calls i)) :
    st'.left calls < st.left calls :=
  Finset.sum_lt_sum (fun j _ => hle j) ⟨i, Finset.mem_univ i, hlt⟩

/-- A step of one strand. -/
theorem Fleet.Inv.strand (h : F.Inv calls st) (hregular : F.Regular calls) {i : Fin n} {s : Role}
    {k : ℕ} (hno : F.asks st i s ≠ some .barrier) {pair : Duplex}
    (hstep : (st.pairs i).step (F.thread i) F.room (s, k) = some pair) :
    F.Inv calls { st with pairs := Function.update st.pairs i pair } ∧
      ({ st with pairs := Function.update st.pairs i pair } : FleetState n).left calls <
        st.left calls := by
  obtain ⟨hsound, hleft, hpassed⟩ := (h.sound i).step_strand (hregular i) hno hstep
  have hother : ∀ {j}, j ≠ i → Function.update st.pairs i pair j = st.pairs j :=
    fun hj => Function.update_of_ne hj ..
  refine ⟨⟨fun j => ?_, fun j => ?_, fun j => ?_, h.behind⟩, FleetState.left_lt i (fun j => ?_) ?_⟩
  · by_cases hj : j = i
    · subst hj
      simpa using hsound
    · simpa [hother hj] using h.sound j
  · by_cases hj : j = i
    · subst hj
      simpa [hpassed] using h.master j
    · simpa [hother hj] using h.master j
  · by_cases hj : j = i
    · subst hj
      simpa [hpassed] using h.slave j
    · simpa [hother hj] using h.slave j
  · by_cases hj : j = i
    · subst hj
      simpa using hleft.le
    · simp [hother hj]
  · simpa using hleft

/-- The master opens a barrier. -/
theorem Fleet.Inv.open_master (h : F.Inv calls st) (hregular : F.Regular calls)
    (hreached : F.MasterReached st) (hstep : F.step st .master = some st') :
    F.Inv calls st' ∧ st'.left calls < st.left calls := by
  obtain ⟨⟨i, hi⟩, hwaits⟩ := hreached
  have hpairs : ∀ j, st.opened < F.ntxn j →
      ((st.pairs j).release .master).Sound (calls j) ∧
        ((st.pairs j).release .master).left (calls j) < (st.pairs j).left (calls j) :=
    fun j hj => (h.sound j).release_master (hregular j) (hwaits j hj).1
  rw [Fleet.step, if_pos ⟨⟨i, hi⟩, hwaits⟩] at hstep
  cases hstep
  refine ⟨⟨fun j => ?_, fun j => ?_, fun j => ?_, fun host => ?_⟩,
    FleetState.left_lt i (fun j => ?_) ?_⟩
  · dsimp only
    split_ifs with hj
    · exact (hpairs j hj).1
    · exact h.sound j
  · have hmaster := h.master j
    dsimp only
    split_ifs with hj
    · rw [Duplex.passed_release, if_pos rfl]
      omega
    · omega
  · dsimp only
    split_ifs with hj
    · rw [Duplex.passed_release, if_neg (by decide)]
      exact h.slave j
    · exact h.slave j
  · exact (h.behind host).trans (Nat.le_succ _)
  · dsimp only
    split_ifs with hj
    · exact (hpairs j hj).2.le
    · exact le_refl _
  · dsimp only
    rw [if_pos hi]
    exact (hpairs i hi).2

/-- A slave follows. -/
theorem Fleet.Inv.open_slave (h : F.Inv calls st) (hregular : F.Regular calls) {host : ℕ}
    (hreached : F.SlaveReached st host) (hstep : F.step st (.slave host) = some st') :
    F.Inv calls st' ∧ st'.left calls < st.left calls := by
  have hreached' := hreached
  obtain ⟨htold, ⟨i, hi⟩, hwaits⟩ := hreached'
  have hpairs : ∀ j, F.Awaited st host j →
      ((st.pairs j).release .slave).Sound (calls j) ∧
        ((st.pairs j).release .slave).left (calls j) < (st.pairs j).left (calls j) := by
    intro j hj
    have hmaster := h.master j
    have hslave := h.slave j
    obtain ⟨rfl, hlt⟩ := hj
    exact (h.sound j).release_slave (hregular j) (hwaits j ⟨rfl, hlt⟩).1 (by omega)
  rw [Fleet.step, if_pos hreached] at hstep
  cases hstep
  refine ⟨⟨fun j => ?_, fun j => ?_, fun j => ?_, fun host' => ?_⟩,
    FleetState.left_lt i (fun j => ?_) ?_⟩
  · dsimp only
    split_ifs with hj
    · exact (hpairs j hj).1
    · exact h.sound j
  · dsimp only
    split_ifs with hj
    · rw [Duplex.passed_release, if_neg (by decide)]
      exact h.master j
    · exact h.master j
  · have hslave := h.slave j
    dsimp only
    split_ifs with hj
    · obtain ⟨hhost, hlt⟩ := hj
      rw [Duplex.passed_release, if_pos rfl, hhost, Function.update_self]
      rw [hhost] at hslave
      omega
    · by_cases hhost : F.host j = host
      · have hlt : ¬ st.followed host < F.ntxn j := fun hlt => hj ⟨hhost, hlt⟩
        rw [hhost, Function.update_self]
        rw [hhost] at hslave
        omega
      · rw [Function.update_of_ne hhost]
        exact hslave
  · dsimp only
    by_cases hhost : host' = host
    · subst hhost
      rw [Function.update_self]
      exact htold
    · rw [Function.update_of_ne hhost]
      exact h.behind host'
  · dsimp only
    split_ifs with hj
    · exact (hpairs j hj).2.le
    · exact le_refl _
  · dsimp only
    rw [if_pos hi]
    exact (hpairs i hi).2

theorem Fleet.Inv.step (h : F.Inv calls st) (hregular : F.Regular calls) {act : FleetAct n}
    (hstep : F.step st act = some st') : F.Inv calls st' ∧ st'.left calls < st.left calls := by
  cases act with
  | strand i s k =>
      rw [Fleet.step] at hstep
      obtain ⟨hno, hmap⟩ := Option.ite_none_left_eq_some.mp hstep
      obtain ⟨pair, hpair, rfl⟩ := Option.map_eq_some_iff.mp hmap
      exact h.strand hregular hno hpair
  | master =>
      have hreached : F.MasterReached st := by
        by_contra hno
        rw [Fleet.step, if_neg hno] at hstep
        cases hstep
      exact h.open_master hregular hreached hstep
  | slave host =>
      have hreached : F.SlaveReached st host := by
        by_contra hno
        rw [Fleet.step, if_neg hno] at hstep
        cases hstep
      exact h.open_slave hregular hreached hstep

/-- The barriers that a strand has passed and those of its group. -/
theorem Fleet.Inv.passed (h : F.Inv calls st) (hregular : F.Regular calls) (i : Fin n) (s : Role) :
    ((st.pairs i).ends s).passed +
      (residual (sides (calls i) s) ((st.pairs i).ends s).answers).count .barrier = F.ntxn i := by
  obtain ⟨table, ex, hmirrors, -⟩ := (h.sound i).mirrors
  have hpassed := (hmirrors.sound s).passed
  obtain ⟨b, hscript⟩ := (hregular i).master.regular.script
  have htotal : (sides (calls i) s).count .barrier = F.ntxn i := by
    cases s with
    | master => exact count_barrier_txns hscript
    | slave => exact (count_barrier_dual _).trans (count_barrier_txns hscript)
  exact hpassed.trans htotal

theorem Fleet.Inv.passed_lt (h : F.Inv calls st) (hregular : F.Regular calls) {i : Fin n} {s : Role}
    (hasks : F.asks st i s = some .barrier) : ((st.pairs i).ends s).passed < F.ntxn i := by
  have hpassed := h.passed hregular i s
  obtain ⟨rest, hrest⟩ :=
    List.head?_eq_some_iff.mp (((hregular i).follows s _).symm.trans hasks)
  rw [hrest, List.count_cons_self] at hpassed
  omega

theorem Fleet.Inv.passed_eq (h : F.Inv calls st) (hregular : F.Regular calls) {i : Fin n} {s : Role}
    (hasks : F.asks st i s = none) : ((st.pairs i).ends s).passed = F.ntxn i := by
  have hpassed := h.passed hregular i s
  have hnil := List.head?_eq_none_iff.mp (((hregular i).follows s _).symm.trans hasks)
  rwa [hnil] at hpassed

/-- Where no step is possible all strands have ended. -/
theorem Fleet.Inv.progress (h : F.Inv calls st) (hregular : F.Regular calls)
    (hstuck : ∀ act, F.step st act = none) (i : Fin n) (s : Role) : F.asks st i s = none := by
  have hpair : ∀ i s k, F.asks st i s ≠ some .barrier →
      (st.pairs i).step (F.thread i) F.room (s, k) = none := by
    intro i s k hno
    have hstep := hstuck (.strand i s k)
    rw [Fleet.step, if_neg hno] at hstep
    exact Option.map_eq_none_iff.mp hstep
  have hblocked := fun i => (h.sound i).blocked (hregular i) (hpair i)
  -- no slave has still to follow, because it would
  have hfollowed : ∀ i, F.asks st i .slave = some .barrier →
      ¬ ((st.pairs i).ends .slave).passed < ((st.pairs i).ends .master).passed := by
    intro i hasks hlt
    have hmaster := h.master i
    have hslave := h.slave i
    have hntxn := h.passed_lt hregular hasks
    have hreached : F.SlaveReached st (F.host i) := by
      refine ⟨by omega, ⟨i, rfl, by omega⟩, fun j hj => ?_⟩
      obtain ⟨hhost, hj⟩ := hj
      have hmasterj := h.master j
      have hslavej := h.slave j
      rw [hhost] at hslavej
      rcases hblocked j with ⟨hasksj, -⟩ | ⟨-, hsame⟩ | hended
      · exact ⟨hasksj, by omega⟩
      · omega
      · have hall := h.passed_eq hregular (hended .slave)
        omega
    have hstep := hstuck (.slave (F.host i))
    rw [Fleet.step, if_pos hreached] at hstep
    cases hstep
  rcases hblocked i with ⟨hasks, hlt⟩ | ⟨hasks, -⟩ | hended
  · exact absurd hlt (hfollowed i hasks)
  · -- the master would open the barrier of this strand
    exfalso
    have hmaster := h.master i
    have hntxn := h.passed_lt hregular (hasks .master)
    have hreached : F.MasterReached st := by
      refine ⟨⟨i, by omega⟩, fun j hj => ?_⟩
      have hmasterj := h.master j
      rcases hblocked j with ⟨hasksj, hltj⟩ | ⟨hasksj, -⟩ | hendedj
      · exact absurd hltj (hfollowed j hasksj)
      · exact ⟨hasksj .master, by omega⟩
      · have hall := h.passed_eq hregular (hendedj .master)
        omega
    have hstep := hstuck .master
    rw [Fleet.step, if_pos hreached] at hstep
    cases hstep
  · exact hended s

variable {acts : List (FleetAct n)}

theorem Fleet.Regular.run (h : F.Regular calls) (hrun : Lib.run F.step {} acts = some st) :
    F.Inv calls st ∧
      acts.length + st.left calls ≤ ∑ i, 2 * ((calls i).map Call.weight).sum := by
  refine run_history (P := fun acts st => F.Inv calls st ∧
    acts.length + st.left calls ≤ ∑ i, 2 * ((calls i).map Call.weight).sum) ?_ ?_ hrun
  · rintro done act - st st' ⟨hinv, hlength⟩ hstep
    obtain ⟨hinv', hleft⟩ := hinv.step h hstep
    refine ⟨hinv', ?_⟩
    rw [List.length_append, List.length_singleton]
    omega
  · refine ⟨h.start, ?_⟩
    rw [List.length_nil, Nat.zero_add]
    refine Finset.sum_le_sum fun i _ => ?_
    have hleft : ({} : Duplex).left (calls i) =
        ((calls i).map Call.weight).sum + (((calls i).map Call.dual).map Call.weight).sum := rfl
    have hdual : ((calls i).map Call.dual).map Call.weight = (calls i).map Call.weight := by
      rw [List.map_map]
      refine List.map_congr_left fun call _ => ?_
      cases call <;> rfl
    exact (hleft.trans (by rw [hdual, Nat.two_mul])).le

end

/-- Two strands whose counterparts are on two slaves. -/
def echoFleet : Fleet 2 where
  thread _ := echoThreads
  host i := i
  room := narrowRoom
  ports _ s := by cases s <;> decide

theorem echoFleet_regular : echoFleet.Regular fun _ => echoCalls := fun _ => echoThreads_pair

/-- The beginning of a run: the first slave opens its first barrier before the second
does. -/
def echoFleetRun : List (FleetAct 2) :=
  [.master, .slave 0, .strand 0 .master 0, .strand 1 .master 0, .strand 0 .slave 0, .slave 1,
    .strand 1 .slave 0, .master, .slave 1, .strand 1 .master 1]

end Uperf
