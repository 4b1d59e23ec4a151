import Uperf.Opposite
import Uperf.Strand.Connections
import Uperf.Strand.Iterations

/-!
# What a strand has to say to its peer

The program of a strand comes down to a list of calls that need the other side:
connects, accepts, transfers and barriers.  `Book` is the pool of a strand as a
list of numbered connections with their ids, and `Book.script` the list of calls,
if every flowop names a connection that is open.  The group that a slave has runs
through the same flowops, each replaced by its opposite (`Flowop.Dual`), and its
script is the dual of the master's (`script_dual`).
-/

namespace Uperf

open Lib

/-- A call in which a strand may have to wait for the other side.  Connections are
numbered in the order in which the strand opens them; a transfer says from or to
which place of the strand's buffer it is, and how many bytes are left. -/
inductive Call
  | connect (protocol : UInt32)
  | accept (protocol : UInt32)
  | send (conn off size : ℕ)
  | recv (conn off size : ℕ)
  | barrier
deriving DecidableEq

/-- The call of the other side that this one goes with. -/
def Call.dual : Call → Call
  | connect protocol => accept protocol
  | accept protocol => connect protocol
  | send conn off size => recv conn off size
  | recv conn off size => send conn off size
  | barrier => barrier

/-! ## The flowops that are executed -/

/-- What a strand does in `group_execute`. -/
inductive Job
  | barrier
  | flowop (f : Flowop)

/-- A flowop as often as its count says. -/
def Flowop.repeated (f : Flowop) : List Flowop := List.replicate f.options.count.toNat f

/-- The flowops of one iteration. -/
def Txn.once (txn : Txn) : List Flowop := txn.flist.flatMap Flowop.repeated

/-- The flowops of all iterations. -/
def Txn.flowops (txn : Txn) : List Flowop :=
  (List.replicate (turns txn.iter txn.iter.toNat 0) txn.once).flatten

def Txn.jobs (txn : Txn) : List Job := .barrier :: txn.flowops.map .flowop

def Group.jobs (g : Group) : List Job := g.tlist.flatMap Txn.jobs

/-! ## The connections and the calls -/

/-- How many connections a strand has opened, and those that are open, with their
ids and numbers, the latest first. -/
structure Book where
  opened : ℕ := 0
  conns : List (Int32 × ℕ) := []

/-- The connection that an id stands for.  The id `-1` stands for any connection,
so there must not be another one. -/
def Book.named (b : Book) (id : Int32) : Option ℕ :=
  if id = -1 ∧ b.conns.length ≠ 1 then none
  else (b.conns.find? fun conn => conn.1 = id).map Prod.snd

def Book.open (b : Book) (id : Int32) : Book where
  opened := b.opened + 1
  conns := (id, b.opened) :: b.conns

def Book.close (b : Book) (id : Int32) : Book :=
  { b with conns := b.conns.eraseP fun conn => conn.1 = id }

/-- A size that is not drawn at random, positive and an `int`. -/
def FlowopOptions.fixedSize (o : FlowopOptions) : Bool :=
  !o.foRandomSize && (0 < o.size.toNat && o.size.toNat < 2 ^ 31)

/-- The id can be given to a new connection, over a protocol whose `accept` makes
one. -/
def Book.free (b : Book) (f : Flowop) : Bool :=
  b.conns.all (fun conn => conn.1 ≠ f.connId) && !acceptsItself f.options.protocol

/-- One execution of a flowop: the call it makes, if any, and the connections
afterwards. -/
def Book.execute (b : Book) (f : Flowop) : Option (Option Call × Book) :=
  let size := f.options.size.toNat
  match f.type with
  | .connect =>
      if b.free f then some (some (.connect f.options.protocol), b.open f.connId) else none
  | .accept =>
      if b.free f then some (some (.accept f.options.protocol), b.open f.connId) else none
  | .disconnect => (b.named f.connId).map fun _ => (none, b.close f.connId)
  | .write | .send =>
      if f.options.fixedSize then
        (b.named f.connId).map fun conn => (some (.send conn 0 size), b)
      else none
  | .read | .recv =>
      if f.options.fixedSize then
        (b.named f.connId).map fun conn => (some (.recv conn 0 size), b)
      else none
  | .nop | .think => some (none, b)
  | .error | .sendfile | .sendfilev | .other _ => none

/-- The calls of a strand, and the connections afterwards. -/
def Book.script : Book → List Job → Option (List Call × Book)
  | b, [] => some ([], b)
  | b, .barrier :: rest => (b.script rest).map fun (calls, b) => (.barrier :: calls, b)
  | b, .flowop f :: rest =>
      match b.execute f with
      | none => none
      | some (call, b) => (b.script rest).map fun (calls, b) => (call.toList ++ calls, b)

/-- No connection is opened behind a data flowop of the same transaction. -/
def Txn.OpensFirst (txn : Txn) : Prop :=
  txn.flist.Pairwise fun f f' => f.type.moves = true → f'.type.opens = false

instance (txn : Txn) : Decidable txn.OpensFirst := inferInstanceAs (Decidable (List.Pairwise _ _))

/-- The group is run by iterations and sends no files, no flowop opens a connection
behind one that moves data in the same transaction, every flowop names a connection
that is open when it is executed, no id is given to two open connections, every accept
makes an object of its own, and sizes are fixed. -/
structure Group.Regular (g : Group) (calls : List Call) : Prop where
  duration : ∀ txn ∈ g.tlist, txn.duration = 0
  files : ∀ f ∈ g.flowops, f.type ≠ .sendfile ∧ f.type ≠ .sendfilev
  opensFirst : ∀ txn ∈ g.tlist, txn.OpensFirst
  execute : ∀ f ∈ g.flowops, f.execute = some (flowopGetExecuteFunc f.type)
  script : ∃ b, Book.script {} g.jobs = some (calls, b)

section

variable {b b' b'' : Book} {f : Flowop} {jobs jobs' : List Job} {calls : List Call}

/-- The calls of a flowop and of what comes after it. -/
theorem script_flowop {call : Option Call} (rest : List Job)
    (hexecute : b.execute f = some (call, b')) :
    b.script (.flowop f :: rest) =
      (b'.script rest).map fun (calls, b) => (call.toList ++ calls, b) := by
  rw [Book.script, hexecute]

theorem script_flowop_eq_some (h : b.script (.flowop f :: jobs) = some (calls, b'')) :
    ∃ call b' rest, b.execute f = some (call, b') ∧ b'.script jobs = some (rest, b'') ∧
      calls = call.toList ++ rest := by
  unfold Book.script at h
  cases hexecute : b.execute f with
  | none =>
      rw [hexecute] at h
      cases h
  | some result =>
      obtain ⟨call, b'⟩ := result
      rw [hexecute] at h
      obtain ⟨⟨rest, b₁⟩, hrest, heq⟩ := Option.map_eq_some_iff.mp h
      cases heq
      exact ⟨call, b', rest, rfl, hrest, rfl⟩

theorem script_append : b.script (jobs ++ jobs') =
    (b.script jobs).bind fun (calls, b) =>
      (b.script jobs').map fun (calls', b) => (calls ++ calls', b) := by
  induction jobs generalizing b with
  | nil => simp [Book.script]
  | cons job jobs ih =>
      cases job with
      | barrier =>
          simp only [List.cons_append, Book.script, ih]
          cases b.script jobs with
          | none => rfl
          | some result => simp [Function.comp_def]
      | flowop f =>
          simp only [List.cons_append, Book.script]
          cases b.execute f with
          | none => rfl
          | some result =>
              obtain ⟨call, b'⟩ := result
              simp only [ih]
              cases b'.script jobs with
              | none => rfl
              | some result => simp [Function.comp_def]

/-- The parts of a script. -/
theorem script_append_eq_some (h : b.script (jobs ++ jobs') = some (calls, b'')) :
    ∃ first rest b', b.script jobs = some (first, b') ∧ b'.script jobs' = some (rest, b'') ∧
      calls = first ++ rest := by
  rw [script_append] at h
  obtain ⟨⟨first, b'⟩, hfirst, h⟩ := Option.bind_eq_some_iff.mp h
  obtain ⟨⟨rest, b₁⟩, hrest, h⟩ := Option.map_eq_some_iff.mp h
  cases h
  exact ⟨first, rest, b', hfirst, hrest, rfl⟩

end

/-! ## The dual script -/

/-- The flowop of the other side that goes with this one. -/
structure Flowop.Dual (f f' : Flowop) : Prop where
  type : f'.type = flowopOpposite f.type
  pId : f'.pId = f.pId
  size : f'.options.size = f.options.size
  random : f'.options.foRandomSize = f.options.foRandomSize
  protocol : f'.options.protocol = f.options.protocol
  count : f'.options.count = f.options.count

structure Txn.Dual (txn txn' : Txn) : Prop where
  iter : txn'.iter = txn.iter
  duration : txn'.duration = txn.duration
  flist : List.Forall₂ Flowop.Dual txn.flist txn'.flist

def Group.Dual (g g' : Group) : Prop := List.Forall₂ Txn.Dual g.tlist g'.tlist

inductive Job.Dual : Job → Job → Prop
  | barrier : Dual .barrier .barrier
  | flowop {f f' : Flowop} (h : f.Dual f') : Dual (.flowop f) (.flowop f')

section

variable {f f' : Flowop} {txn txn' : Txn} {g g' : Group}

theorem Flowop.Dual.connId (h : f.Dual f') : f'.connId = f.connId := by
  rw [Flowop.connId, Flowop.connId, h.pId]

theorem Flowop.Dual.fixedSize (h : f.Dual f') : f'.options.fixedSize = f.options.fixedSize := by
  rw [FlowopOptions.fixedSize, FlowopOptions.fixedSize, h.random, h.size]

theorem Flowop.Dual.repeated (h : f.Dual f') :
    List.Forall₂ Flowop.Dual f.repeated f'.repeated := by
  rw [Flowop.repeated, Flowop.repeated, h.count]
  exact List.forall₂_iff_get.mpr ⟨by simp, by simpa using fun _ _ => h⟩

/-- Pieces that go with each other make up lists that do. -/
theorem forall₂_flatMap {α β : Type*} {R : α → α → Prop} {S : β → β → Prop}
    {pieces pieces' : α → List β}
    (hpieces : ∀ a a', R a a' → List.Forall₂ S (pieces a) (pieces' a'))
    {items items' : List α} (h : List.Forall₂ R items items') :
    List.Forall₂ S (items.flatMap pieces) (items'.flatMap pieces') := by
  induction h with
  | nil => exact .nil
  | cons hhead _ ih =>
      rw [List.flatMap_cons, List.flatMap_cons]
      exact List.rel_append (hpieces _ _ hhead) ih

theorem Txn.Dual.once (h : txn.Dual txn') : List.Forall₂ Flowop.Dual txn.once txn'.once :=
  forall₂_flatMap (fun _ _ hf => hf.repeated) h.flist

theorem Txn.Dual.jobs (h : txn.Dual txn') : List.Forall₂ Job.Dual txn.jobs txn'.jobs := by
  have hflowops : List.Forall₂ Flowop.Dual txn.flowops txn'.flowops := by
    rw [Txn.flowops, Txn.flowops, h.iter]
    induction turns txn.iter txn.iter.toNat 0 with
    | zero => exact .nil
    | succ rounds ih =>
        rw [List.replicate_succ, List.replicate_succ, List.flatten_cons, List.flatten_cons]
        exact List.rel_append h.once ih
  refine .cons .barrier ?_
  rw [List.forall₂_map_left_iff, List.forall₂_map_right_iff]
  exact hflowops.imp fun _ _ hf => .flowop hf

theorem Group.Dual.jobs (h : g.Dual g') : List.Forall₂ Job.Dual g.jobs g'.jobs :=
  forall₂_flatMap (fun _ _ htxn => htxn.jobs) h

theorem Flowop.Dual.free (h : f.Dual f') (b : Book) : b.free f' = b.free f := by
  rw [Book.free, Book.free, h.connId, h.protocol]

/-- A flowop and its dual do the same with their connections, and their calls go
with each other. -/
theorem Flowop.Dual.execute (h : f.Dual f') {b b' : Book} {call : Option Call}
    (hexecute : b.execute f = some (call, b')) :
    b.execute f' = some (call.map Call.dual, b') := by
  unfold Book.execute at hexecute ⊢
  rw [h.type, h.size, h.free, h.fixedSize, h.connId, h.protocol]
  cases htype : f.type with
  | connect | accept =>
      simp only [htype] at hexecute
      obtain ⟨hfree, hsome⟩ := Option.ite_none_right_eq_some.mp hexecute
      cases hsome
      simp [hfree, Call.dual]
  | disconnect =>
      simp only [htype] at hexecute
      obtain ⟨conn, hconn, hsome⟩ := Option.map_eq_some_iff.mp hexecute
      cases hsome
      simp [hconn]
  | read | write | send | recv =>
      simp only [htype] at hexecute
      obtain ⟨hsize, hmap⟩ := Option.ite_none_right_eq_some.mp hexecute
      obtain ⟨conn, hconn, hsome⟩ := Option.map_eq_some_iff.mp hmap
      cases hsome
      simp [hsize, hconn, Call.dual]
  | nop | think =>
      simp only [htype] at hexecute
      cases hexecute
      simp
  | error | sendfile | sendfilev | other =>
      simp only [htype] at hexecute
      cases hexecute

/-- Jobs that go with each other have dual scripts. -/
theorem script_dual {jobs jobs' : List Job} (h : List.Forall₂ Job.Dual jobs jobs') {b b' : Book}
    {calls : List Call} (hscript : b.script jobs = some (calls, b')) :
    b.script jobs' = some (calls.map Call.dual, b') := by
  induction h generalizing b calls with
  | nil =>
      cases hscript
      rfl
  | cons hjob _ ih =>
      cases hjob with
      | barrier =>
          obtain ⟨⟨rest, b₁⟩, hrest, heq⟩ := Option.map_eq_some_iff.mp hscript
          cases heq
          rw [Book.script, ih hrest]
          rfl
      | flowop hf =>
          obtain ⟨call, b₁, rest, hexecute, hrest, rfl⟩ := script_flowop_eq_some hscript
          rw [script_flowop _ (hf.execute hexecute), ih hrest]
          cases call <;> simp

end

/-! ## The group of the slave -/

section

variable {g : Group} {f : Flowop}

/-- A flowop whose slave does not read in other sizes, and that sends no files. -/
def Flowop.Symmetric (f : Flowop) : Prop :=
  f.options.rsize ≤ f.options.size ∧ f.type ≠ .sendfile ∧ f.type ≠ .sendfilev

theorem Flowop.Symmetric.forSlave (h : f.Symmetric) :
    f.forSlave =
      { f with type := flowopOpposite f.type, options := f.options.optionOposite } := by
  obtain ⟨hsize, hfile, hfilev⟩ := h
  have hopposite : f.opposite =
      { f with type := flowopOpposite f.type, options := f.options.optionOposite } := by
    simp [Flowop.opposite, hfile, hfilev]
  have hnot : ¬ f.options.optionOposite.rsize > f.options.optionOposite.size :=
    UInt32.not_lt.mpr hsize
  rw [Flowop.forSlave, hopposite, FlowopOptions.optimizeForSlave, if_neg hnot]

theorem Flowop.Symmetric.dual (h : f.Symmetric) : f.Dual f.forSlave := by
  rw [h.forSlave]
  exact ⟨rfl, rfl, rfl, rfl, rfl, rfl⟩

end

end Uperf
