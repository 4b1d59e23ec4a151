import Uperf.Duplex.Agreement

/-!
# The two strands of a pair

A strand of the master and the strand of the slave that runs the opposite flowops
use the same connections, read what the other has written, are never both stuck,
and succeed.
-/

namespace Uperf

open Lib TwoSides

/-- The scripts of the two sides. -/
def sides (calls : List Call) : Role → List Call
  | .master => calls
  | .slave => calls.map Call.dual

/-- The threads of the master and of the slave that run the same part of a profile. -/
structure StrandPair (thread : Role → Thread) (calls : List Call) : Prop where
  master : (thread .master).Ready calls
  dual : (thread .master).group.Dual (thread .slave).group
  execute : ∀ f ∈ (thread .slave).group.flowops, f.execute = some (flowopGetExecuteFunc f.type)
  fresh : (thread .slave).conns.Fresh
  connection : (thread .slave).conns.connection = fun _ => none
  listens : ∀ f ∈ (thread .slave).group.flowops, f.type = .accept →
    (thread .slave).conns.listenConn f.options.protocol ≠ none

section

variable {txn txn' : Txn} {g g' : Group} {calls : List Call} {thread : Role → Thread}

theorem Flowop.Dual.moves {f f' : Flowop} (h : f.Dual f') (hfile : f.type ≠ .sendfile)
    (hfilev : f.type ≠ .sendfilev) : f'.type.moves = f.type.moves := by
  rw [h.type]
  cases htype : f.type with
  | sendfile => exact absurd htype hfile
  | sendfilev => exact absurd htype hfilev
  | _ => simp [FlowopType.moves]

/-- Each part of a dual group goes with a part of the group. -/
theorem exists_dual {α : Type*} {R : α → α → Prop} {items items' : List α}
    (h : List.Forall₂ R items items') {a' : α} (ha' : a' ∈ items') : ∃ a ∈ items, R a a' := by
  obtain ⟨i, hi, rfl⟩ := List.getElem_of_mem ha'
  have hi' : i < items.length := h.length_eq ▸ hi
  exact ⟨_, List.getElem_mem hi', (List.forall₂_iff_get.mp h).2 i hi' hi⟩

theorem Txn.Dual.opensFirst (h : txn.Dual txn')
    (hfiles : ∀ f ∈ txn.flist, f.type ≠ .sendfile ∧ f.type ≠ .sendfilev)
    (hfirst : txn.OpensFirst) : txn'.OpensFirst := by
  unfold Txn.OpensFirst at hfirst ⊢
  have hflist := h.flist
  generalize txn.flist = flist at hfirst hflist hfiles
  generalize txn'.flist = flist' at hflist ⊢
  induction hflist with
  | nil => exact .nil
  | @cons f f' flist flist' hf hrest ih =>
      obtain ⟨hhead, htail⟩ := List.pairwise_cons.mp hfirst
      obtain ⟨hfile, hfiles⟩ := List.forall_mem_cons.mp hfiles
      refine List.pairwise_cons.mpr ⟨fun later' hlater' hmoves => ?_, ih htail hfiles⟩
      obtain ⟨later, hlater, hd⟩ := exists_dual hrest hlater'
      rw [hd.type, opens_flowopOpposite]
      exact hhead later hlater (hf.moves hfile.1 hfile.2 ▸ hmoves)

theorem flowopOpposite_ne_file (type : FlowopType) :
    flowopOpposite type ≠ .sendfile ∧ flowopOpposite type ≠ .sendfilev := by
  cases type <;> simp

theorem Group.Dual.regular (h : g.Dual g') (hregular : g.Regular calls)
    (hexecute : ∀ f ∈ g'.flowops, f.execute = some (flowopGetExecuteFunc f.type)) :
    g'.Regular (calls.map Call.dual) := by
  obtain ⟨hduration, hfiles, hfirst, -, b, hscript⟩ := hregular
  constructor
  · intro txn' htxn'
    obtain ⟨txn, htxn, hd⟩ := exists_dual h htxn'
    rw [hd.duration]
    exact hduration txn htxn
  · intro f' hf'
    obtain ⟨txn', htxn', hf'⟩ := List.mem_flatMap.mp hf'
    obtain ⟨txn, -, hd⟩ := exists_dual h htxn'
    obtain ⟨f, -, hf⟩ := exists_dual hd.flist hf'
    rw [hf.type]
    exact flowopOpposite_ne_file f.type
  · intro txn' htxn'
    obtain ⟨txn, htxn, hd⟩ := exists_dual h htxn'
    exact hd.opensFirst (fun f hf => hfiles f (List.mem_flatMap.mpr ⟨txn, htxn, hf⟩))
      (hfirst txn htxn)
  · exact hexecute
  · exact ⟨b, script_dual h.jobs hscript⟩

/-- The thread of the slave can follow the dual script. -/
theorem StrandPair.ready (h : StrandPair thread calls) (s : Role) :
    (thread s).Ready (sides calls s) := by
  cases s with
  | master => exact h.master
  | slave =>
      exact ⟨h.dual.regular h.master.regular h.execute, h.fresh, h.connection, h.listens⟩

theorem StrandPair.follows (h : StrandPair thread calls) : Follows thread (sides calls) :=
  fun s answers => (h.ready s).asks answers

/-! ## The start -/

theorem Book.execute_scope {b b' : Book} {f : Flowop} {call : Option Call}
    (h : b.execute f = some (call, b')) (hbook : ∀ conn ∈ b.conns, conn.2 < b.opened) :
    (∀ conn ∈ b'.conns, conn.2 < b'.opened) ∧ ∀ rest, Scoped b'.opened rest →
      Scoped b.opened (call.toList ++ rest) := by
  have hopen : ∀ conn ∈ (b.open f.connId).conns, conn.2 < (b.open f.connId).opened := by
    intro conn hconn
    rcases List.mem_cons.mp hconn with rfl | hconn
    · exact Nat.lt_succ_self _
    · exact (hbook conn hconn).trans (Nat.lt_succ_self _)
  have hnamed : ∀ conn, b.named f.connId = some conn → conn < b.opened := fun conn hconn =>
    hbook _ (List.mem_of_find?_eq_some (named_eq_some hconn).1)
  unfold Book.execute at h
  cases htype : f.type with
  | connect | accept =>
      simp only [htype] at h
      obtain ⟨-, hsome⟩ := Option.ite_none_right_eq_some.mp h
      cases hsome
      exact ⟨hopen, fun rest hrest => hrest⟩
  | read | recv | write | send =>
      simp only [htype] at h
      obtain ⟨-, hmap⟩ := Option.ite_none_right_eq_some.mp h
      obtain ⟨conn, hconn, hsome⟩ := Option.map_eq_some_iff.mp hmap
      cases hsome
      exact ⟨hbook, fun rest hrest => ⟨hnamed conn hconn, hrest⟩⟩
  | disconnect =>
      simp only [htype] at h
      obtain ⟨conn, -, hsome⟩ := Option.map_eq_some_iff.mp h
      cases hsome
      exact ⟨fun conn hconn => hbook conn (List.mem_of_mem_eraseP hconn), fun rest hrest => hrest⟩
  | nop | think =>
      simp only [htype] at h
      cases h
      exact ⟨hbook, fun rest hrest => hrest⟩
  | error | sendfile | sendfilev | other =>
      simp only [htype] at h
      cases h

/-- The transfers of a script are over connections that it has opened. -/
theorem script_scope {jobs : List Job} {b b' : Book} {calls : List Call}
    (h : b.script jobs = some (calls, b')) (hbook : ∀ conn ∈ b.conns, conn.2 < b.opened) :
    Scoped b.opened calls := by
  induction jobs generalizing b calls with
  | nil =>
      cases h
      exact True.intro
  | cons job jobs ih =>
      cases job with
      | barrier =>
          obtain ⟨⟨rest, b₁⟩, hrest, heq⟩ := Option.map_eq_some_iff.mp h
          cases heq
          change Scoped b.opened rest
          exact ih hrest hbook
      | flowop f =>
          obtain ⟨call, b₁, rest, hexecute, hrest, rfl⟩ := script_flowop_eq_some h
          obtain ⟨hbook', hscope⟩ := Book.execute_scope hexecute hbook
          exact hscope rest (ih hrest hbook')

theorem Thread.Ready.scope {t : Thread} (h : t.Ready calls) : Scoped 0 calls := by
  obtain ⟨b', hscript⟩ := h.regular.script
  exact script_scope hscript (by simp)

theorem Thread.Ready.positive {t : Thread} (h : t.Ready calls) : ∀ c ∈ calls, c.Positive := by
  obtain ⟨b', hscript⟩ := h.regular.script
  exact script_positive hscript

/-- The exchange at the beginning. -/
def startExchange (calls : List Call) : Exchange Role Key Item where
  script s := units s 0 0 (sides calls s)
  queue _ _ := []

theorem linked_startExchange (calls : List Call) : (startExchange calls).Linked :=
  Exchange.linked_of_dual (units_dual .master 0 0 calls) fun _ _ => rfl

theorem StrandPair.mirrors_start (h : StrandPair thread calls) :
    ({} : Duplex).Mirrors (sides calls) (fun _ => none) (startExchange calls) where
  script _ := rfl
  sound s := ⟨(h.ready s).scope, by simp, Nat.zero_add _⟩
  numbered := by simp
  known := by simp
  backlog _ _ := rfl
  pending := by simp
  data _ _ := rfl
  unknown _ _ _ := rfl
  command s := by cases s <;> rfl

/-! ## Runs -/

/-- How many acts a call is. -/
def Call.weight : Call → ℕ
  | .send _ _ size | .recv _ _ size => size
  | .connect _ | .accept _ | .barrier => 1

theorem length_units (s : Role) (opened moved : ℕ) (calls : List Call) :
    (units s opened moved calls).length = (calls.map Call.weight).sum := by
  induction calls generalizing opened moved with
  | nil => rfl
  | cons call calls ih =>
      cases call with
      | connect protocol | accept protocol | barrier => simp [units, Call.weight, ih, Nat.add_comm]
      | send conn off size | recv conn off size => simp [units, Call.weight, ih]

variable {room : Room} {st : Duplex} {acts : List (Role × ℕ)}

/-- The state after a run is an exchange of linked parties, with less left to do. -/
theorem StrandPair.run (h : StrandPair thread calls)
    (hrun : Lib.run (Duplex.step thread room) {} acts = some st) :
    ∃ table ex, st.Mirrors (sides calls) table ex ∧ ex.Linked ∧
      acts.length + (ex.script .master).length + (ex.script .slave).length ≤
        2 * (calls.map Call.weight).sum := by
  refine run_history (P := fun acts st => ∃ table ex, st.Mirrors (sides calls) table ex ∧
    ex.Linked ∧ acts.length + (ex.script .master).length + (ex.script .slave).length ≤
      2 * (calls.map Call.weight).sum) ?_ ?_ hrun
  · rintro done ⟨s, k⟩ - st st' ⟨table, ex, hmirrors, hl, hlength⟩ hstep
    obtain ⟨n, table', ex', hpos, hsteps, hmirrors'⟩ := hmirrors.step hl h.follows hstep
    refine ⟨table', ex', hmirrors', hl.steps hsteps, ?_⟩
    obtain ⟨hself, hother⟩ := Exchange.length_steps hsteps
    rw [List.length_append, List.length_singleton]
    cases s with
    | master =>
        have hsame : ex'.script .slave = ex.script .slave := hother
        rw [hsame]
        omega
    | slave =>
        have hsame : ex'.script .master = ex.script .master := hother
        rw [hsame]
        omega
  · refine ⟨_, _, h.mirrors_start, linked_startExchange calls, ?_⟩
    have hmaster : ((startExchange calls).script .master).length =
        (calls.map Call.weight).sum := length_units ..
    have hslave : ((startExchange calls).script .slave).length =
        (calls.map Call.weight).sum := by
      have hdual : (startExchange calls).script .slave =
          ((startExchange calls).script .master).map Act.dual := units_dual .master 0 0 calls
      rw [hdual, List.length_map, hmaster]
    rw [hmaster, hslave, List.length_nil]
    omega

/-! ## Where the strands have met -/

/-- Nothing is on its way. -/
structure Duplex.Quiet (st : Duplex) : Prop where
  backlog : ∀ s protocol, st.backlog s protocol = []
  queue : ∀ s link, st.queue s link = []
  commands : st.commands = 0

/-- Both strands have ended, or they wait in the same barrier. -/
def Duplex.Met (thread : Role → Thread) (st : Duplex) : Prop :=
  (∀ s, (thread s).asks (st.ends s).answers = none) ∨
    (∀ s, (thread s).asks (st.ends s).answers = some .barrier) ∧
      (st.ends .master).passed = (st.ends .slave).passed

section

variable {calls : Role → List Call} {table : ℕ → Option Conn} {ex : Exchange Role Key Item}

/-- Nothing is on its way when all queues of the exchange are empty. -/
theorem Duplex.Mirrors.quiet (h : st.Mirrors calls table ex)
    (hempty : ∀ s key, ex.queue s key = []) : st.Quiet where
  backlog s protocol := by
    have hbacklog := h.backlog s protocol
    rw [hempty] at hbacklog
    exact List.map_eq_nil_iff.mp hbacklog.symm
  queue s link := by
    by_cases hlink : table link.number = some link
    · have hdata := h.data s link.number
      rw [hempty, hlink, Option.elim_some] at hdata
      exact List.map_eq_nil_iff.mp hdata.symm
    · exact h.unknown s link hlink
  commands := by
    have hcommand := h.command .slave
    rw [hempty, if_pos rfl] at hcommand
    simpa using hcommand.symm

end

/-- The act is the one of a barrier. -/
def isCommand : Act Key Item → Bool
  | .put .command _ | .take .command _ => true
  | .put _ _ | .take _ _ => false

theorem isCommand_dual (act : Act Key Item) : isCommand act.dual = isCommand act := by
  cases act with
  | put key item | take key item => cases key <;> rfl

theorem isCommand_barrierAct (s : Role) : isCommand (barrierAct s) = true := by cases s <;> rfl

theorem countP_units (s : Role) (opened moved : ℕ) (calls : List Call) :
    (units s opened moved calls).countP isCommand = calls.count .barrier := by
  induction calls generalizing opened moved with
  | nil => rfl
  | cons call calls ih =>
      cases call with
      | connect protocol | accept protocol => simp [units, isCommand, ih]
      | send conn off size | recv conn off size =>
          rw [units, List.countP_append, ih, List.map_map, List.countP_map]
          simp [isCommand, Function.comp_def]
      | barrier => rw [units, List.countP_cons_of_pos (isCommand_barrierAct s), ih,
          List.count_cons_self]

theorem count_barrier_dual (calls : List Call) :
    (calls.map Call.dual).count .barrier = calls.count .barrier := by
  induction calls with
  | nil => rfl
  | cons call calls ih =>
      cases call with
      | connect protocol | accept protocol | send conn off size | recv conn off size =>
          simpa [Call.dual] using ih
      | barrier => simpa [Call.dual] using ih

/-- When the strands have met, nothing is on its way. -/
theorem StrandPair.quiet (h : StrandPair thread calls) {table : ℕ → Option Conn}
    {ex : Exchange Role Key Item} (hmirrors : st.Mirrors (sides calls) table ex)
    (hl : ex.Linked) (hmet : st.Met thread) : st.Quiet := by
  refine hmirrors.quiet fun s key => ?_
  rcases hmet with hended | ⟨hbarrier, hpassed⟩
  · have hnil : ∀ t, ex.script t = [] := by
      intro t
      have hleft : residual (sides calls t) (st.ends t).answers = [] :=
        List.head?_eq_none_iff.mp ((h.follows t _).symm.trans (hended t))
      rw [hmirrors.script, End.acts, hleft]
      rfl
    exact hl.queue_eq_nil (fun s t => by rw [hnil, hnil]) s key
  · have hhead : ∀ t, ∃ rest, residual (sides calls t) (st.ends t).answers = .barrier :: rest :=
      fun t => List.head?_eq_some_iff.mp ((h.follows t _).symm.trans (hbarrier t))
    refine hl.queue_eq_nil_of_count isCommand_dual (fun t => ?_) (fun t t' => ?_) s key
    · obtain ⟨rest, hrest⟩ := hhead t
      rw [hmirrors.script, End.acts, hrest]
      exact ⟨barrierAct t, _, rfl, isCommand_barrierAct t⟩
    · have htotal : ∀ t, (sides calls t).count .barrier = calls.count .barrier := by
        intro t
        cases t with
        | master => rfl
        | slave => exact count_barrier_dual calls
      have hcount : ∀ t, (ex.script t).countP isCommand =
          calls.count .barrier - (st.ends .master).passed := by
        intro t
        have hpass : (st.ends t).passed = (st.ends .master).passed := by
          cases t with
          | master => rfl
          | slave => exact hpassed.symm
        have hsound := (hmirrors.sound t).passed
        rw [htotal, hpass] at hsound
        rw [hmirrors.script, End.acts, countP_units]
        omega
      rw [hcount, hcount]

/-- Connections with the same number are the two ends of one connection. -/
theorem Duplex.Mirrors.links_eq {calls : Role → List Call} {table : ℕ → Option Conn}
    {ex : Exchange Role Key Item} (h : st.Mirrors calls table ex) (n : ℕ) (link link' : Conn)
    (hlink : (st.ends .master).links[n]? = some link)
    (hlink' : (st.ends .slave).links[n]? = some link') : link = link' := by
  have htable := (h.sound .master).links n link hlink
  have htable' := (h.sound .slave).links n link' hlink'
  exact Option.some.inj (htable.symm.trans htable')

/-- A transfer takes the bytes that the other side has written in the same one. -/
theorem StrandPair.taken_eq (h : StrandPair thread calls) {table : ℕ → Option Conn}
    {ex : Exchange Role Key Item} (hmirrors : st.Mirrors (sides calls) table ex)
    (hl : ex.Linked) (s : Role) (conn off size : ℕ) (link : Conn) (k : ℕ)
    (hasks : (thread s).asks (st.ends s).answers = some (.recv conn off size))
    (hlink : (st.ends s).links[conn]? = some link) (hpos : 0 < k) (hle : k ≤ size)
    (hthere : k ≤ (st.queue s link).length) :
    (st.queue s link).take k = sentBytes (st.ends s).transfers off k := by
  obtain ⟨rest, hleft⟩ := List.head?_eq_some_iff.mp ((h.follows s _).symm.trans hasks)
  exact (hmirrors.recv hl hleft hlink hpos hle hthere).1

/-! ## Somebody can go on -/

theorem residual_positive {calls : List Call} (h : ∀ c ∈ calls, c.Positive) (answers : List ℕ) :
    ∀ c ∈ residual calls answers, c.Positive := by
  induction answers generalizing calls with
  | nil => exact h
  | cons n answers ih => exact ih (advance_positive h n)

/-- A side of the exchange that can go on is a strand that can. -/
theorem StrandPair.step_of_ready (h : StrandPair thread calls) (room : Room)
    {table : ℕ → Option Conn}
    {ex : Exchange Role Key Item} (hmirrors : st.Mirrors (sides calls) table ex) {s : Role}
    (hready : ex.Ready s) : ∃ k st', st.step thread room (s, k) = some st' := by
  have hasks := h.follows s (st.ends s).answers
  have hpositive := residual_positive (h.ready s).positive (st.ends s).answers
  have hscope := (hmirrors.sound s).scope
  unfold Exchange.Ready at hready
  rw [hmirrors.script, End.acts] at hready
  unfold Duplex.step
  cases hleft : residual (sides calls s) (st.ends s).answers with
  | nil =>
      rw [hleft] at hready
      exact hready.elim
  | cons call rest =>
      rw [hleft] at hready hasks hpositive hscope
      rw [List.head?_cons] at hasks
      simp only [hasks]
      have hlinked : ∀ conn, conn < (st.ends s).links.length →
          ∃ link, (st.ends s).links[conn]? = some link ∧
            ∀ t, ex.queue t (.data conn) = (st.queue t link).map .byte := by
        intro conn hconn
        have hlink := List.getElem?_eq_getElem hconn
        have htable := (hmirrors.sound s).links _ _ hlink
        refine ⟨_, hlink, fun t => ?_⟩
        rw [hmirrors.data, htable, Option.elim_some]
      cases call with
      | connect protocol =>
          have hbacklog : st.backlog s.peer protocol = [] :=
            List.map_eq_nil_iff.mp ((hmirrors.backlog s.peer protocol).symm.trans hready)
          refine ⟨0, _, if_pos ?_⟩
          rw [hbacklog]
          exact room.backlog_pos
      | accept protocol =>
          have hbacklog : st.backlog s protocol ≠ [] := by
            intro hnil
            refine hready ?_
            rw [hmirrors.backlog, hnil]
            rfl
          obtain ⟨link, waiting, hcons⟩ := List.exists_cons_of_ne_nil hbacklog
          simp only [hcons]
          exact ⟨0, _, rfl⟩
      | send conn off size =>
          obtain ⟨link, hlink, hdata⟩ := hlinked conn hscope.1
          have hsize : 0 < size := hpositive _ List.mem_cons_self
          obtain ⟨more, rfl⟩ := Nat.exists_eq_succ_of_ne_zero hsize.ne'
          rw [units, sentBytes_succ] at hready
          have hqueue : st.queue s.peer link = [] :=
            List.map_eq_nil_iff.mp ((hdata s.peer).symm.trans hready)
          simp only [hlink]
          refine ⟨1, _, if_pos ⟨Nat.one_pos, hsize, ?_⟩⟩
          rw [hqueue]
          exact room.buffer_pos
      | recv conn off size =>
          obtain ⟨link, hlink, hdata⟩ := hlinked conn hscope.1
          have hsize : 0 < size := hpositive _ List.mem_cons_self
          obtain ⟨more, rfl⟩ := Nat.exists_eq_succ_of_ne_zero hsize.ne'
          rw [units, sentBytes_succ] at hready
          have hqueue : 0 < (st.queue s link).length := by
            rw [List.length_pos_iff]
            intro hnil
            refine hready ?_
            rw [hdata, hnil]
            rfl
          simp only [hlink]
          exact ⟨1, _, if_pos ⟨Nat.one_pos, hsize, hqueue⟩⟩
      | barrier =>
          cases s with
          | master => exact ⟨0, _, rfl⟩
          | slave =>
              have hcommands : 0 < st.commands := by
                by_contra hnone
                refine hready ?_
                rw [hmirrors.command, if_pos rfl, Nat.eq_zero_of_not_pos hnone]
                rfl
              exact ⟨0, _, if_pos hcommands⟩

/-- Where the strands do not go on both have ended. -/
theorem StrandPair.progress (h : StrandPair thread calls) {table : ℕ → Option Conn}
    {ex : Exchange Role Key Item} (hmirrors : st.Mirrors (sides calls) table ex)
    (hl : ex.Linked) (hstuck : ∀ act, st.step thread room act = none) (s : Role) :
    (thread s).asks (st.ends s).answers = none := by
  rcases hl.progress with ⟨t, hready⟩ | hended
  · obtain ⟨k, st', hstep⟩ := h.step_of_ready room hmirrors hready
    rw [hstuck] at hstep
    cases hstep
  · rw [h.follows, List.head?_eq_none_iff]
    have hnil := hended s
    rw [hmirrors.script, End.acts] at hnil
    have hlength := congrArg List.length hnil
    rw [length_units, List.length_nil] at hlength
    have hpositive := residual_positive (h.ready s).positive (st.ends s).answers
    cases hleft : residual (sides calls s) (st.ends s).answers with
    | nil => rfl
    | cons call rest =>
        rw [hleft] at hlength hpositive
        have hcall := hpositive call List.mem_cons_self
        rw [List.map_cons, List.sum_cons] at hlength
        have hweight : 0 < call.weight := by
          cases call with
          | send conn off size | recv conn off size => exact hcall
          | connect protocol | accept protocol | barrier => exact Nat.one_pos
        omega

/-- A run is not longer than what the strands have to do, and ends when both have
succeeded. -/
theorem StrandPair.complete (h : StrandPair thread calls)
    (hrun : Lib.run (Duplex.step thread room) {} acts = some st) :
    acts.length ≤ 2 * (calls.map Call.weight).sum ∧
      ((∀ act, st.step thread room act = none) →
        st.Quiet ∧ ∀ s, ((thread s).run (st.ends s).answers).1 = some (some 0)) := by
  obtain ⟨table, ex, hmirrors, hl, hlength⟩ := h.run hrun
  refine ⟨by omega, fun hstuck => ?_⟩
  have hended := h.progress hmirrors hl hstuck
  exact ⟨h.quiet hmirrors hl (.inl hended), fun s => (h.ready s).success (hended s)⟩

end

/-! ## Two strands that exchange messages -/

def echoFlowop (type : FlowopType) (size : UInt32) : Flowop where
  type := type
  options := { protocol := protocolTcp, size, count := 1 }
  execute := some (flowopGetExecuteFunc type)

/-- A transaction that opens a connection, and one that moves three bytes there and
two back, twice. -/
def echoGroup (opens first second : FlowopType) : Group where
  endian := uperfEndianValue
  nthreads := 1
  ntxn := 2
  tlist := [{ nflowop := 1, iter := 1, flist := [echoFlowop opens 1] },
    { nflowop := 2, iter := 2, flist := [echoFlowop first 3, echoFlowop second 2] }]

theorem strandConnectionCacheSize_pos : 0 < strandConnectionCacheSize := by decide

def echoThread (group : Group) : Thread where
  group := group
  conns := {
    allocated := 1, listenConn := fun protocol => if protocol = protocolTcp then some 0 else none }
  cursor _ := ⟨0, strandConnectionCacheSize_pos⟩
  timing := { txnBegin := pure 0, calloutRegister := fun _ => pure (), rateExecute := fun _ x => x }
  rounds := 0

def echoThreads : Role → Thread
  | .master => echoThread (echoGroup .connect .write .read)
  | .slave => echoThread (echoGroup .accept .read .write)

def echoCalls : List Call :=
  [.barrier, .connect protocolTcp, .barrier, .send 0 0 3, .recv 0 0 2, .send 0 0 3, .recv 0 0 2]

theorem echoThread_fresh (g : Group) : (echoThread g).conns.Fresh where
  cpool := rfl
  ccacheSize := rfl
  listening protocol p hp := by
    obtain ⟨-, hp⟩ := Option.ite_none_right_eq_some.mp hp
    cases hp
    exact Nat.one_pos
  closed _ := rfl

theorem echoThreads_pair : StrandPair echoThreads echoCalls where
  master := ⟨⟨by decide, by decide, by decide, by decide, ⟨_, rfl⟩⟩, echoThread_fresh _, rfl,
    by decide⟩
  dual := by
    have hdual : ∀ (size : UInt32) (type : FlowopType),
        (echoFlowop type size).Dual (echoFlowop (flowopOpposite type) size) :=
      fun _ _ => ⟨rfl, rfl, rfl, rfl, rfl, rfl⟩
    exact .cons ⟨rfl, rfl, .cons (hdual 1 .connect) .nil⟩
      (.cons ⟨rfl, rfl, .cons (hdual 3 .write) (.cons (hdual 2 .read) .nil)⟩ .nil)
  execute := by decide
  fresh := echoThread_fresh _
  connection := rfl
  listens := by decide

/-- One side and then the other, with one byte each, some times. -/
def alternating (s : Role) (count : ℕ) : List (Role × ℕ) :=
  (List.replicate count [(s, 1), (s.peer, 1)]).flatten

/-- A whole run. -/
def echoRun : List (Role × ℕ) :=
  alternating .master 3 ++
    (List.replicate 2 (alternating .master 3 ++ alternating .slave 2)).flatten

def narrowRoom : Room := ⟨1, 1, Nat.one_pos, Nat.one_pos⟩

theorem exists_echoRun :
    ∃ st, Lib.run (Duplex.step echoThreads narrowRoom) {} echoRun = some st :=
  Option.isSome_iff_exists.mp (by decide +kernel)

example : (Lib.run (Duplex.step echoThreads narrowRoom) {} echoRun).map (fun st =>
    ((echoThreads .master).asks (st.ends .master).answers,
      (echoThreads .slave).asks (st.ends .slave).answers)) = some (none, none) := by
  decide +kernel

/-! ## The two strands -/

section

variable {calls : List Call} {thread : Role → Thread} {room : Room} {st : Duplex}
  {acts : List (Role × ℕ)}

end

end Uperf
