import Uperf.Duplex.Received

/-!
# A group and its opposite

A group whose flowops name their connections properly has a script, and so has its
`group_opposite`, and the strands that run the two keep in step.  What a profile has
to say for that is said here in terms of the ids that are open while it is executed.

`strand_get_connection` takes the id `-1`, that of a flowop for which the profile gives
none, for any connection, where its comment speaks of the anonymous ones.  Which one it
takes depends on the cache, and what leaves a full cache depends on all strands of the
process (`not_opposites_in_step`).
-/

namespace Uperf

open Lib

/-! ## The ids that are open -/

/-- The ids that are open after the flowop. -/
def Flowop.openIds (f : Flowop) (ids : List Int32) : List Int32 :=
  match f.type with
  | .connect | .accept => f.connId :: ids
  | .disconnect => ids.erase f.connId
  | _ => ids

/-- Every flowop has `P` with the ids that are open when it is executed. -/
def AlongIds (P : List Int32 → Flowop → Prop) : List Int32 → List Flowop → Prop
  | _, [] => True
  | ids, f :: rest => P ids f ∧ AlongIds P (f.openIds ids) rest

instance decidableAlongIds (P : List Int32 → Flowop → Prop)
    [∀ ids f, Decidable (P ids f)] :
    ∀ ids flowops, Decidable (AlongIds P ids flowops)
  | _, [] => inferInstanceAs (Decidable True)
  | ids, f :: rest =>
      have := decidableAlongIds P (f.openIds ids) rest
      inferInstanceAs (Decidable (_ ∧ _))

/-- The flowop opens an id that is not open, or moves data over one that is. -/
def NamesOpen (ids : List Int32) (f : Flowop) : Prop :=
  (f.type.opens = true → f.connId ∉ ids) ∧ (f.type.moves = true → f.connId ∈ ids)

/-- The flowop disconnects an id that is open, and has the id `-1` only if there is no
other one. -/
def NamesOne (ids : List Int32) (f : Flowop) : Prop :=
  (f.type = .disconnect → f.connId ∈ ids) ∧ (f.type.uses = true → f.connId = -1 → ids = [-1])

instance (ids : List Int32) (f : Flowop) : Decidable (NamesOpen ids f) :=
  inferInstanceAs (Decidable (_ ∧ _))

instance (ids : List Int32) (f : Flowop) : Decidable (NamesOne ids f) :=
  inferInstanceAs (Decidable (_ ∧ _))

/-- The flowops that a strand executes, one after the other. -/
def Group.executed (g : Group) : List Flowop := g.tlist.flatMap Txn.flowops

/-- A group of the parser that is run by iterations.  Its connects and accepts name one
host, over protocols whose `accept` makes an object, no id is opened while it is open,
data flowops name open ids, no connection is opened behind a data flowop of the same
transaction, sizes are fixed and positive, `rsize` is not greater, and no files are
sent. -/
structure Group.Orderly (g : Group) : Prop where
  duration : ∀ txn ∈ g.tlist, txn.duration = 0
  host : ∃ host, ∀ f ∈ g.flowops, f.type.opens = true → f.options.remotehost = host
  protocol : ∀ f ∈ g.flowops, f.type.opens = true → acceptsItself f.options.protocol = false
  names : AlongIds NamesOpen [] g.executed
  opensFirst : ∀ txn ∈ g.tlist, txn.OpensFirst
  sizes : ∀ f ∈ g.flowops, f.type.moves = true → f.options.fixedSize = true
  rsize : ∀ f ∈ g.flowops, f.options.rsize ≤ f.options.size
  files : ∀ f ∈ g.flowops, f.type ≠ .sendfile ∧ f.type ≠ .sendfilev
  known : ∀ f ∈ g.flowops, f.type ∈ FlowopType.named ∧ f.type ≠ .error
  execute : ∀ f ∈ g.flowops, f.execute = some (flowopGetExecuteFunc f.type)

/-- Every lookup is for one connection, and no port of the profile makes the threads
share a listener. -/
structure Group.Definite (g : Group) : Prop where
  names : AlongIds NamesOne [] g.executed
  ports : g.nthreads ≤ 1 ∨ ∀ f ∈ g.flowops, f.type.opens = true → f.options.port = 0

/-! ## The script -/

/-- The ids of the connections of a book. -/
def Book.ids (b : Book) : List Int32 := b.conns.map Prod.fst

def Job.flowops : Job → List Flowop
  | .barrier => []
  | .flowop f => [f]

section

variable {f : Flowop} {g : Group}

theorem flatMap_jobs (g : Group) : g.jobs.flatMap Job.flowops = g.executed := by
  have hjobs : ∀ txn : Txn, txn.jobs.flatMap Job.flowops = txn.flowops := by
    intro txn
    simp [Txn.jobs, Job.flowops, List.flatMap_map]
  simp only [Group.jobs, Group.executed, List.flatMap_assoc, hjobs]

/-- A flowop that is executed is one of the group. -/
theorem Group.mem_flowops_of_executed (hf : f ∈ g.executed) : f ∈ g.flowops := by
  obtain ⟨txn, htxn, hf⟩ := List.mem_flatMap.mp hf
  obtain ⟨once, honce, hf⟩ := List.mem_flatten.mp hf
  rw [List.eq_of_mem_replicate honce] at hf
  obtain ⟨f', hf', hrepeated⟩ := List.mem_flatMap.mp hf
  rw [List.eq_of_mem_replicate hrepeated]
  exact List.mem_flatMap.mpr ⟨txn, htxn, hf'⟩

theorem Book.ids_close (b : Book) (id : Int32) : (b.close id).ids = b.ids.erase id := by
  rw [Book.ids, Book.ids, Book.close, List.erase_eq_eraseP', List.eraseP_map]
  rfl

/-- An open id stands for a connection, `-1` if it is the only one. -/
theorem Book.named_isSome {b : Book} {id : Int32} (hmem : id ∈ b.ids)
    (hany : id = -1 → b.ids = [-1]) : ∃ conn, b.named id = some conn := by
  have hdefinite : ¬ (id = -1 ∧ b.conns.length ≠ 1) := by
    rintro ⟨hid, hlength⟩
    have hone := congrArg List.length (hany hid)
    rw [Book.ids, List.length_map] at hone
    exact hlength hone
  obtain ⟨conn, hconn, rfl⟩ := List.mem_map.mp hmem
  have hfind : (b.conns.find? fun c => c.1 = conn.1).isSome :=
    List.find?_isSome.mpr ⟨conn, hconn, by simp⟩
  obtain ⟨found, hfound⟩ := Option.isSome_iff_exists.mp hfind
  exact ⟨found.2, by rw [Book.named, if_neg hdefinite, hfound, Option.map_some]⟩

/-- A flowop that names its connection properly is in the book. -/
theorem Book.execute_isSome {b : Book} (hopen : NamesOpen b.ids f) (hone : NamesOne b.ids f)
    (hprotocol : f.type.opens = true → acceptsItself f.options.protocol = false)
    (hsize : f.type.moves = true → f.options.fixedSize = true)
    (hfile : f.type ≠ .sendfile ∧ f.type ≠ .sendfilev)
    (hknown : f.type ∈ FlowopType.named ∧ f.type ≠ .error) :
    ∃ call b', b.execute f = some (call, b') ∧ b'.ids = f.openIds b.ids := by
  unfold Book.execute Flowop.openIds
  obtain ⟨hunused, hnamed⟩ := hopen
  obtain ⟨hclose, hany⟩ := hone
  have hfree : f.type.opens = true → b.free f = true := by
    intro hopens
    rw [Book.free, hprotocol hopens, Bool.not_false, Bool.and_true, List.all_eq_true]
    intro conn hconn
    have hne : conn.1 ≠ f.connId := fun heq =>
      hunused hopens (heq ▸ List.mem_map_of_mem hconn)
    simpa using hne
  cases htype : f.type with
  | connect | accept =>
      rw [htype] at hfree
      simp only [hfree rfl, if_true]
      exact ⟨_, _, rfl, rfl⟩
  | disconnect =>
      rw [htype] at hclose hany
      obtain ⟨conn, hconn⟩ := Book.named_isSome (hclose rfl) (hany rfl)
      simp only [hconn, Option.map_some]
      exact ⟨_, _, rfl, b.ids_close f.connId⟩
  | read | recv | write | send =>
      rw [htype] at hnamed hany hsize
      obtain ⟨conn, hconn⟩ := Book.named_isSome (hnamed rfl) (hany rfl)
      simp only [hsize rfl, hconn, Option.map_some, if_true]
      exact ⟨_, _, rfl, rfl⟩
  | nop | think => exact ⟨_, _, rfl, rfl⟩
  | error => exact absurd htype hknown.2
  | sendfile => exact absurd htype hfile.1
  | sendfilev => exact absurd htype hfile.2
  | other word =>
      rw [htype] at hknown
      simp [FlowopType.named] at hknown

/-- Step by step the ids of the book are those that are open. -/
theorem script_isSome {jobs : List Job} {b : Book}
    (hopen : AlongIds NamesOpen b.ids (jobs.flatMap Job.flowops))
    (hone : AlongIds NamesOne b.ids (jobs.flatMap Job.flowops))
    (hflowops : ∀ f ∈ jobs.flatMap Job.flowops,
      (f.type.opens = true → acceptsItself f.options.protocol = false) ∧
      (f.type.moves = true → f.options.fixedSize = true) ∧
      (f.type ≠ .sendfile ∧ f.type ≠ .sendfilev) ∧
      (f.type ∈ FlowopType.named ∧ f.type ≠ .error)) :
    ∃ calls b', b.script jobs = some (calls, b') := by
  induction jobs generalizing b with
  | nil => exact ⟨[], b, rfl⟩
  | cons job jobs ih =>
      cases job with
      | barrier =>
          obtain ⟨calls, b', hscript⟩ := ih hopen hone hflowops
          exact ⟨.barrier :: calls, b', by rw [Book.script, hscript, Option.map_some]⟩
      | flowop f =>
          obtain ⟨hf, hrest⟩ := List.forall_mem_cons.mp hflowops
          obtain ⟨call, b₁, hexecute, hids⟩ :=
            Book.execute_isSome hopen.1 hone.1 hf.1 hf.2.1 hf.2.2.1 hf.2.2.2
          obtain ⟨calls, b', hscript⟩ := ih (hids ▸ hopen.2) (hids ▸ hone.2) hrest
          exact ⟨call.toList ++ calls, b', by rw [script_flowop _ hexecute, hscript]; rfl⟩

/-- The group has a script. -/
theorem Group.Orderly.regular (h : g.Orderly) (hdefinite : g.Definite) :
    ∃ calls, g.Regular calls := by
  have hflowops : ∀ f ∈ g.jobs.flatMap Job.flowops, f ∈ g.flowops := by
    rw [flatMap_jobs]
    exact fun f => Group.mem_flowops_of_executed
  have hopen : AlongIds NamesOpen ({} : Book).ids (g.jobs.flatMap Job.flowops) := by
    rw [flatMap_jobs]
    exact h.names
  have hone : AlongIds NamesOne ({} : Book).ids (g.jobs.flatMap Job.flowops) := by
    rw [flatMap_jobs]
    exact hdefinite.names
  obtain ⟨calls, b, hscript⟩ := script_isSome hopen hone fun f hf =>
    ⟨h.protocol f (hflowops f hf), h.sizes f (hflowops f hf), h.files f (hflowops f hf),
      h.known f (hflowops f hf)⟩
  exact ⟨calls, h.duration, h.files, h.opensFirst, h.execute, b, hscript⟩

/-! ## The opposite of the group -/

/-- The slave sets the functions of the flowops that it has read. -/
def Flowop.withFunction (f : Flowop) : Flowop :=
  { f with execute := some (flowopGetExecuteFunc f.type) }

def Group.withFunctions (g : Group) : Group :=
  { g with
    tlist := g.tlist.map fun txn => { txn with flist := txn.flist.map Flowop.withFunction } }

theorem Group.execute_withFunctions (g : Group) :
    ∀ f ∈ g.withFunctions.flowops, f.execute = some (flowopGetExecuteFunc f.type) := by
  intro f hf
  obtain ⟨txn', htxn', hf⟩ := List.mem_flatMap.mp hf
  obtain ⟨txn, -, rfl⟩ := List.mem_map.mp htxn'
  obtain ⟨f', -, rfl⟩ := List.mem_map.mp hf
  rfl

/-- The group of the slave is the dual of the one of the master. -/
theorem Group.dual_opposite (h : ∀ f ∈ g.flowops, f.Symmetric) :
    g.Dual (groupOpposite g).withFunctions := by
  have htlist : (groupOpposite g).withFunctions.tlist = g.tlist.map fun txn =>
      { txn with flist := txn.flist.map fun f => f.forSlave.withFunction } := by
    simp [Group.withFunctions, groupOpposite, Txn.opposite_eq, Function.comp_def]
  rw [Group.Dual, htlist, List.forall₂_map_right_iff]
  refine List.forall₂_same.mpr fun txn htxn => ⟨rfl, rfl, ?_⟩
  refine List.forall₂_map_right_iff.mpr (List.forall₂_same.mpr fun f hf => ?_)
  have hdual := (h f (List.mem_flatMap.mpr ⟨txn, htxn, hf⟩)).dual
  exact ⟨hdual.type, hdual.pId, hdual.size, hdual.random, hdual.protocol, hdual.count⟩

end

/-! ## The two strands -/

/-- What holds of the two strands, where `calls` are those of the master.  Each of them
waits in the call that comes next, connections with the same number are the two ends of
one connection, a transfer reads what the transfer of the other side with the same
number has written, somebody can go on until both have succeeded, with the same
connections open in the end, and at the end of a transaction nothing is on its way. -/
structure Duplex.InStep (thread : Role → Thread) (room : Room) (calls : List Call)
    (st : Duplex) : Prop where
  position : ∀ s, (thread s).asks (st.ends s).answers =
    (residual (sides calls s) (st.ends s).answers).head?
  links : ∀ (n : ℕ) (link link' : Conn), (st.ends .master).links[n]? = some link →
    (st.ends .slave).links[n]? = some link' → link = link'
  received : ∀ (s : Role) (conn off size : ℕ) (link : Conn) (k : ℕ),
    (thread s).asks (st.ends s).answers = some (.recv conn off size) →
    (st.ends s).links[conn]? = some link → 0 < k → k ≤ size → k ≤ (st.queue s link).length →
    (st.queue s link).take k = sentBytes (st.ends s).transfers off k
  goesOn : (∀ act, st.step thread room act = none) →
    ∀ s, ((thread s).run (st.ends s).answers).1 = some (some 0)
  closed : (∀ s, (thread s).asks (st.ends s).answers = none) →
    ∃ b : Book, ∀ s, ∃ flist, HasBook (thread s).conns.allocated (thread s).conns.listenConn
      flist b ((thread s).run (st.ends s).answers).2
  empty : st.Met thread → st.Quiet

/-- In every run of the strands of the two sides, with any room in the kernels, they are
in step. -/
def Group.OppositesInStep (g : Group) : Prop :=
  ∃ calls : List Call,
    ∀ (thread : Role → Thread) (room : Room) (acts : List (Role × ℕ)) (st : Duplex),
      (thread .master).group = groupClone g →
      (thread .slave).group = (groupOpposite (groupClone g)).withFunctions →
      (∀ s, (thread s).AtStart) → Lib.run (Duplex.step thread room) {} acts = some st →
      st.InStep thread room calls

section

variable {thread : Role → Thread} {calls : List Call} {room : Room} {st : Duplex}
  {acts : List (Role × ℕ)}

/-- Strands that have ended have the same connections. -/
theorem StrandPair.closed (h : StrandPair thread calls)
    (hended : ∀ s, (thread s).asks (st.ends s).answers = none) :
    ∃ b : Book, ∀ s, ∃ flist, HasBook (thread s).conns.allocated (thread s).conns.listenConn
      flist b ((thread s).run (st.ends s).answers).2 := by
  obtain ⟨b, hscript⟩ := h.master.regular.script
  have hboth : ∀ s, Book.script {} (thread s).group.jobs = some (sides calls s, b) := by
    intro s
    cases s with
    | master => exact hscript
    | slave => exact script_dual h.dual.jobs hscript
  exact ⟨b, fun s => (((h.ready s).ends (hboth s) _).2 (hended s)).2⟩

theorem StrandPair.inStep (h : StrandPair thread calls)
    (hrun : Lib.run (Duplex.step thread room) {} acts = some st) :
    st.InStep thread room calls := by
  obtain ⟨table, ex, hmirrors, hl, -⟩ := h.run hrun
  exact {
    position := fun s => h.follows s _
    links := hmirrors.links_eq
    received := h.taken_eq hmirrors hl
    goesOn := fun hstuck => ((h.complete hrun).2 hstuck).2
    closed := h.closed
    empty := h.quiet hmirrors hl }

/-- The strands of the group and of its opposite are a pair. -/
theorem Group.Orderly.strandPair {g : Group} (h : g.Orderly) (hregular : g.Regular calls)
    (hmaster : (thread .master).group = groupClone g)
    (hslave : (thread .slave).group = (groupOpposite (groupClone g)).withFunctions)
    (hstart : ∀ s, (thread s).AtStart) : StrandPair thread calls where
  master := by
    rw [groupClone_eq] at hmaster
    exact ⟨hmaster ▸ hregular, (hstart .master).fresh, (hstart .master).connection,
      (hstart .master).listens⟩
  dual := by
    rw [hmaster, hslave, groupClone_eq]
    exact Group.dual_opposite fun f hf => ⟨h.rsize f hf, h.files f hf⟩
  execute := by
    rw [hslave]
    exact Group.execute_withFunctions _
  fresh := (hstart .slave).fresh
  connection := (hstart .slave).connection
  listens := (hstart .slave).listens

end

theorem echoGroup_orderly : (echoGroup .connect .write .read).Orderly where
  duration := by decide
  host := ⟨default, by simp [echoGroup, echoFlowop, Group.flowops]⟩
  protocol := by decide
  names := by decide
  opensFirst := by decide
  sizes := by decide
  rsize := by decide
  files := by decide
  known := by decide
  execute := by decide

/-- Eight connections with ids of their own, and one with `-1`. -/
def manyIds : List UInt32 := [1, 2, 3, 4, 5, 6, 7, 8, 4294967295]

def numberedFlowop (type : FlowopType) (id : UInt32) : Flowop :=
  let flowop := echoFlowop type 1
  { flowop with
    pId := id
    options := { flowop.options with remotehost := HostName.ofBytes [104, 49] } }

/-- All connections are written to, and the first is read from. -/
def manyGroup : Group where
  endian := uperfEndianValue
  nthreads := 2
  ntxn := 2
  tlist := [{ nflowop := 9, iter := 1, flist := manyIds.map (numberedFlowop .connect) },
    { nflowop := 10, iter := 1
      flist := manyIds.map (numberedFlowop .write) ++ [numberedFlowop .read 1] }]

theorem one_lt_strandConnectionCacheSize : 1 < strandConnectionCacheSize := by decide

/-- Another thread of the slave has moved the cursor. -/
def manyThreads : Role → Thread
  | .master => echoThread (groupClone manyGroup)
  | .slave =>
      { echoThread (groupOpposite (groupClone manyGroup)).withFunctions with
        cursor := fun _ => ⟨1, one_lt_strandConnectionCacheSize⟩ }

def wideRoom : Room := ⟨16, 16, Nat.succ_pos 15, Nat.succ_pos 15⟩

def manyRun : List (Role × ℕ) :=
  List.replicate 20 (.master, 1) ++ List.replicate 19 (.slave, 1)

/-- A strand that waits for bytes does not go on when there are none. -/
theorem Duplex.step_eq_none {thread : Role → Thread} {room : Room} {st : Duplex} {s : Role}
    {conn off size : ℕ} {link : Conn}
    (hasks : (thread s).asks (st.ends s).answers = some (.recv conn off size))
    (hlink : (st.ends s).links[conn]? = some link) (hqueue : st.queue s link = []) (k : ℕ) :
    st.step thread room (s, k) = none := by
  unfold Duplex.step
  simp only [hasks, hlink, hqueue, List.length_nil]
  refine if_neg ?_
  rintro ⟨hpos, -, hle⟩
  omega

/-- What the kernel of a side has answered, on which connection its first one is an end,
and what is there to read on the first connection of the master. -/
def Duplex.seen (st : Duplex) (s : Role) : List ℕ × Option Conn × List Sent :=
  ((st.ends s).answers, (st.ends s).links[0]?, st.queue s ⟨.master, 0⟩)

/-- Both sides wait for a byte that nobody sends. -/
theorem Duplex.not_inStep {thread : Role → Thread} {room : Room} {calls : List Call} {st : Duplex}
    {answers : Role → List ℕ} (hseen : ∀ s, st.seen s = (answers s, some ⟨.master, 0⟩, []))
    (hasks : ∀ s, (thread s).asks (answers s) = some (.recv 0 0 1))
    (hfails : ((thread .master).run (answers .master)).1 = some (some (-1))) :
    ¬ st.InStep thread room calls := by
  intro hinStep
  have hanswers : ∀ s, (st.ends s).answers = answers s := fun s => (Prod.ext_iff.mp (hseen s)).1
  have hstuck : ∀ act, st.step thread room act = none := by
    rintro ⟨s, k⟩
    obtain ⟨hlink, hqueue⟩ := Prod.ext_iff.mp (Prod.ext_iff.mp (hseen s)).2
    exact Duplex.step_eq_none ((hanswers s).symm ▸ hasks s) hlink hqueue k
  have hdone := hinStep.goesOn hstuck .master
  rw [hanswers, hfails] at hdone
  exact absurd hdone (by decide)

/-- Barriers and connects first, and then the bytes. -/
def manyAnswers : Role → List ℕ
  | .master => List.replicate 11 0 ++ List.replicate 9 1
  | .slave => List.replicate 11 0 ++ List.replicate 8 1

theorem manyRun_seen : (Lib.run (Duplex.step manyThreads wideRoom) {} manyRun).map
    (fun st => (st.seen .master, st.seen .slave)) =
    some ((manyAnswers .master, some ⟨.master, 0⟩, []),
      (manyAnswers .slave, some ⟨.master, 0⟩, [])) := by
  decide +kernel

/-- The strand of the slave has read from the first connection for the one with `-1`,
and both sides wait for a byte on it. -/
theorem manyThreads_asks (s : Role) :
    (manyThreads s).asks (manyAnswers s) = some (.recv 0 0 1) := by
  cases s with
  | master => decide +kernel
  | slave => decide +kernel

theorem manyThreads_fails :
    ((manyThreads .master).run (manyAnswers .master)).1 = some (some (-1)) := by
  decide +kernel

theorem manyGroup_orderly : manyGroup.Orderly where
  duration := by decide
  host := ⟨HostName.ofBytes [104, 49], by
    simp [manyGroup, manyIds, numberedFlowop, Group.flowops, echoFlowop]⟩
  protocol := by decide
  names := by decide
  opensFirst := by decide
  sizes := by decide
  rsize := by decide
  files := by decide
  known := by decide
  execute := by decide

theorem manyThreads_atStart (s : Role) : (manyThreads s).AtStart := by
  cases s with
  | master => exact ⟨echoThread_fresh manyGroup, rfl, by decide⟩
  | slave => exact ⟨echoThread_fresh manyGroup, rfl, by decide⟩

end Uperf
