import Uperf.Duplex.Dialogue

/-!
# Programs that make calls

`Plays x P calls Q` says that the program `x` makes the calls and, if they are all
answered, returns a value and leaves a state with `Q`.  The pool of the strand
follows the list of `Book` (`Holds`): no lookup fails, and the one that finds a
connection in the cache finds the one that the id stands for.
-/

namespace Uperf

open Lib

/-! ## Programs that make calls -/

/-- After a call that is not answered the program makes no other one.  `env` is the
dialogue in the state. -/
def Silent {σ α : Type} (env : σ → Dialogue) (x : Exec σ α) : Prop :=
  ∀ d : Dialogue, d.asked ≠ none →
    Exec.Triple (fun s => env s = d) x (fun _ s => env s = d) fun s => env s = d

/-- From a state with `P` the program makes the calls.  When they are all answered
it returns a value and leaves a state with `Q`. -/
def Plays {σ α : Type} (env : σ → Dialogue) (x : Exec σ α) (P : σ → Prop) (calls : List Call)
    (Q : α → σ → Prop) : Prop :=
  ∀ s, (env s).asked = none → P s →
    env (x.runFrom s).2 = (env s).makeAll calls ∧
      ((env (x.runFrom s).2).asked = none → ∃ a, (x.runFrom s).1 = some a ∧ Q a (x.runFrom s).2)

section

variable {σ τ α β : Type} {env : σ → Dialogue} {x : Exec σ α} {f : α → Exec σ β}
  {P P' : σ → Prop} {calls calls' : List Call} {Q Q' : α → σ → Prop}

theorem Silent.pure (a : α) : Silent env (pure a) := fun _ _ => Exec.Triple.pure fun _ hs => hs

theorem Silent.failure : Silent env (failure : Exec σ α) :=
  fun _ _ => Exec.Triple.failure fun _ hs => hs

theorem Silent.state : Silent env Exec.state := fun _ _ => Exec.Triple.state fun _ hs => hs

theorem Silent.change {g : σ → σ} (hg : ∀ s, env (g s) = env s) : Silent env (Exec.change g) :=
  fun _ _ => Exec.Triple.change fun s hs => (hg s).trans hs

theorem Silent.bind (hx : Silent env x) (hf : ∀ a, Silent env (f a)) : Silent env (x >>= f) :=
  fun d hd => (hx d hd).bind fun a => hf a d hd

theorem Plays.pure {a : α} (h : ∀ s, P s → Q a s) : Plays env (pure a) P [] Q :=
  fun s _ hs => ⟨rfl, fun _ => ⟨a, rfl, h s hs⟩⟩

theorem Plays.change {g : σ → σ} {Q : Unit → σ → Prop} (hg : ∀ s, env (g s) = env s)
    (h : ∀ s, P s → Q () (g s)) : Plays env (Exec.change g) P [] Q :=
  fun s _ hs => ⟨hg s, fun _ => ⟨(), rfl, h s hs⟩⟩

theorem Plays.imp (h : Plays env x P' calls Q') (hP : ∀ s, P s → P' s)
    (hQ : ∀ a s, Q' a s → Q a s) : Plays env x P calls Q := by
  intro s hasked hs
  obtain ⟨henv, hdone⟩ := h s hasked (hP s hs)
  refine ⟨henv, fun hnone => ?_⟩
  obtain ⟨a, ha, hq⟩ := hdone hnone
  exact ⟨a, ha, hQ a _ hq⟩

/-- What is known of the values so far, and not of the state. -/
theorem Plays.const {c : Prop} (h : c → Plays env x P calls Q) :
    Plays env x (fun s => c ∧ P s) calls Q :=
  fun s hasked hs => h hs.1 s hasked hs.2

/-- A value that is known by now. -/
theorem Plays.known {x : α → Exec σ β} {Q : β → σ → Prop} {a : α}
    (h : Plays env (x a) P calls Q) (a' : α) :
    Plays env (x a') (fun s => a' = a ∧ P s) calls Q := by
  rintro s hasked ⟨rfl, hs⟩
  exact h s hasked hs

theorem Plays.bind {R : α → σ → Prop} {Q : β → σ → Prop} (hx : Plays env x P calls R)
    (hf : ∀ a, Plays env (f a) (R a) calls' Q) (hsilent : ∀ a, Silent env (f a)) :
    Plays env (x >>= f) P (calls ++ calls') Q := by
  intro s hasked hs
  obtain ⟨henv, hdone⟩ := hx s hasked hs
  rw [Exec.runFrom_bind, makeAll_append, ← henv]
  generalize x.runFrom s = result at henv hdone ⊢
  obtain ⟨a, s'⟩ := result
  by_cases hnone : (env s').asked = none
  · obtain ⟨a, rfl, hr⟩ := hdone hnone
    exact hf a s' hnone hr
  · -- the program is stopped, or goes on in vain
    rw [makeAll_of_asked hnone]
    cases a with
    | none => exact ⟨rfl, fun h => absurd h hnone⟩
    | some a =>
        have hkept := hsilent a (env s') hnone s' rfl
        dsimp only
        generalize (f a).runFrom s' = result at hkept ⊢
        obtain ⟨b, s''⟩ := result
        have hsame : env s'' = env s' := by
          cases b with
          | none => exact hkept
          | some b => exact hkept
        exact ⟨hsame, fun h => absurd (hsame ▸ h) hnone⟩

/-- A first part that makes no call. -/
theorem Plays.bind_nil {R : α → σ → Prop} {Q : β → σ → Prop} (hx : Plays env x P [] R)
    (hf : ∀ a, Plays env (f a) (R a) calls' Q) (hsilent : ∀ a, Silent env (f a)) :
    Plays env (x >>= f) P calls' Q :=
  hx.bind hf hsilent

/-- A last part that makes no call. -/
theorem Plays.bind_pure {R : α → σ → Prop} {Q : β → σ → Prop} (hx : Plays env x P calls R)
    (hf : ∀ a, Plays env (f a) (R a) [] Q) (hsilent : ∀ a, Silent env (f a)) :
    Plays env (x >>= f) P calls Q := by
  have h := hx.bind hf hsilent
  rwa [List.append_nil] at h

/-- A program on the part of the state that has the dialogue. -/
theorem Silent.zoom {get : τ → σ} {set : σ → τ → τ} (hget : ∀ s t, get (set s t) = s)
    (hx : Silent env x) : Silent (fun t => env (get t)) (Exec.zoom get set x) := by
  intro d hd t ht
  have hkept := hx d hd (get t) ht
  rw [Exec.runFrom_zoom]
  generalize x.runFrom (get t) = result at hkept ⊢
  obtain ⟨a, s⟩ := result
  cases a with
  | none => exact (congrArg env (hget s t)).trans hkept
  | some a => exact (congrArg env (hget s t)).trans hkept

end

/-! ## Silence -/

/-- A program on the outside that does nothing after a call that is not answered. -/
theorem Silent.outside {α : Type} {y : StateM Dialogue α}
    (hy : ∀ d, d.asked ≠ none → (y.run d).2 = d) : Silent StrandWorld.env (outside y) := by
  intro d hd w hw
  rw [Uperf.outside, Exec.runFrom_onPart]
  exact (congrArg (fun env => (y.run env).2) hw).trans (hy d hd)

section

variable {base : ℕ} {cursor : ℕ → Fin strandConnectionCacheSize} {f : Flowop} {j : ℕ}

theorem silent_perform (act : ConnAct) :
    Silent (StrandWorld.env : StrandWorld Dialogue → Dialogue) (perform j act) := by
  refine Silent.bind (Silent.change fun _ => ?_) fun _ => Silent.state.bind fun w => ?_
  · rfl
  cases connStep w.conns act with
  | none => exact Silent.failure
  | some result =>
      refine Silent.bind (Silent.change fun _ => ?_) fun _ => Silent.pure _
      rfl

theorem silent_flowopSize : Silent StrandWorld.env (flowopSize (kernelEnv base cursor) f) := by
  unfold flowopSize
  split_ifs
  · refine (Silent.outside fun d _ => rfl).bind fun rand => ?_
    cases myRandom rand f.options.randSzMin f.options.randSzMax with
    | none => exact Silent.failure
    | some size => exact Silent.pure _
  · exact Silent.pure _
  · exact Silent.pure _

theorem silent_rwLoop (c size rounds sz : ℕ) :
    Silent StrandWorld.env (rwLoop (kernelEnv base cursor) f c size rounds sz) := by
  induction rounds generalizing sz with
  | zero => exact Silent.pure _
  | succ rounds ih =>
      unfold rwLoop
      split
      · refine (Silent.outside fun d _ => rfl).bind fun signalled => ?_
        split
        · exact Silent.pure _
        · refine (Silent.outside fun d hd => ?_).bind fun n => ?_
          · exact congrArg Prod.snd (ask_of_asked hd _)
          · split_ifs
            · exact (Silent.outside fun d _ => rfl).bind fun _ => Silent.pure _
            · exact Silent.pure _
            · exact Silent.pure _
            · exact ih _
      · exact Silent.pure _

theorem silent_flowopRw : Silent StrandWorld.env (flowopRw (kernelEnv base cursor) j f) := by
  refine (silent_perform _).bind fun ret => Silent.state.bind fun w => ?_
  cases w.conns.connection j with
  | none => exact Silent.pure _
  | some c =>
      refine silent_flowopSize.bind fun size => ?_
      split_ifs
      · exact Silent.pure _
      · exact Silent.failure
      · exact silent_rwLoop c _ _ _

theorem silent_executeFlowop :
    Silent StrandWorld.env (executeFlowop (kernelEnv base cursor) j f) := by
  have hrecord : Silent StrandWorld.env
      (Exec.change fun w : StrandWorld Dialogue => w.record j none) := Silent.change fun _ => rfl
  refine (Silent.outside fun d _ => rfl).bind fun cursor => ?_
  refine Silent.bind (Silent.change fun _ => ?_) fun _ => ?_
  · rfl
  cases f.execute with
  | none => exact Silent.failure
  | some func =>
      cases func with
      | flowopRw => exact silent_flowopRw
      | flowopConnect | flowopAccept =>
          refine (Silent.outside fun d hd => ?_).bind fun _ => silent_perform _
          exact congrArg Prod.snd (ask_of_asked hd _)
      | flowopDisconnect =>
          exact (Silent.outside fun d _ => rfl).bind fun _ => silent_perform _
      | flowopSendfilev =>
          refine (silent_perform _).bind fun ret => Silent.state.bind fun w => ?_
          cases w.conns.connection j with
          | none => exact Silent.pure _
          | some c => exact Silent.outside fun d _ => rfl
      | flowopNop => exact hrecord.bind fun _ => Silent.pure _
      | flowopThink => exact hrecord.bind fun _ => Silent.outside fun d _ => rfl
      | flowopUnknown => exact hrecord.bind fun _ => Silent.pure _

/-- The parts of the machine, after a call that is not answered. -/
theorem kernelEnv_keeps {d : Dialogue} (hd : d.asked ≠ none) (flist : List Flowop) :
    (strandMachine (kernelEnv base cursor)).Keeps flist (fun _ w => w.env = d)
      fun w => w.env = d where
  next _ _ h := h
  signalled _ := Silent.outside (fun _ _ => rfl) d hd
  errno _ := Silent.outside (fun _ _ => rfl) d hd
  execute _ _ _ := silent_executeFlowop d hd
  flowopBegin _ := Silent.pure () d hd
  flowopEnd _ _ _ := Silent.pure () d hd
  txnBegin _ := Silent.change (fun _ => rfl) d hd
  txnEnd _ := Silent.pure () d hd

end

/-! ## The pool as a list of ids -/

/-- The strand with the pool `l` has the connections of the book, and a flowop that
remembers a connection remembers the one that its id stands for, as long as that is
open. -/
structure Holds (base : ℕ) (listen : UInt32 → Option ℕ) (flist : List Flowop) (b : Book)
    (l : List ℕ) (s : StrandConns) : Prop where
  tidy : s.Tidy l
  conns : l.map (fun p => ((s.objs p).pId, p - base)) = b.conns
  ids : (b.conns.map Prod.fst).Nodup
  based : ∀ p ∈ l, base ≤ p
  allocated : s.allocated = base + b.opened
  listenConn : s.listenConn = listen
  fields : ∀ j p, s.connection j = some p → ∃ f, flist[j]? = some f ∧ f.type.moves = true ∧
    ∀ conn, (f.connId, conn) ∈ b.conns → p = base + conn

section

variable {base : ℕ} {listen : UInt32 → Option ℕ} {flist : List Flowop} {b b' : Book} {l : List ℕ}
  {s s' : StrandConns} {f : Flowop} {j conn p : ℕ} {id : Int32}

theorem Holds.mem_conns (h : Holds base listen flist b l s) (hp : p ∈ l) :
    ((s.objs p).pId, p - base) ∈ b.conns := by
  rw [← h.conns]
  exact List.mem_map_of_mem hp

/-- An id has at most one open connection. -/
theorem Holds.unique (h : Holds base listen flist b l s) {conn' : ℕ}
    (hconn : (id, conn) ∈ b.conns) (hconn' : (id, conn') ∈ b.conns) : conn = conn' :=
  congrArg Prod.snd (List.inj_on_of_nodup_map h.ids hconn hconn' rfl)

theorem named_eq_some (h : b.named id = some conn) :
    b.conns.find? (fun conn => conn.1 = id) = some (id, conn) ∧
      (id = -1 → b.conns.length = 1) := by
  unfold Book.named at h
  obtain ⟨hdefinite, hfind⟩ := Option.ite_none_left_eq_some.mp h
  obtain ⟨⟨id', conn'⟩, hfound, heq⟩ := Option.map_eq_some_iff.mp hfind
  have hid : id' = id := by simpa using List.find?_some hfound
  have hconn : conn' = conn := heq
  rw [hid, hconn] at hfound
  refine ⟨hfound, fun hany => ?_⟩
  by_contra hlength
  exact hdefinite ⟨hany, hlength⟩

/-- The walk over the pool finds the connection that the id stands for. -/
theorem Holds.find (h : Holds base listen flist b l s) (hnamed : b.named id = some conn) :
    l.find? (s.hasId id) = some (base + conn) := by
  obtain ⟨hfind, -⟩ := named_eq_some hnamed
  rw [← h.conns, List.find?_map] at hfind
  obtain ⟨p, hp, heq⟩ := Option.map_eq_some_iff.mp hfind
  have hbase := h.based p (List.mem_of_find?_eq_some hp)
  have hconn : p - base = conn := congrArg Prod.snd heq
  rw [← hconn, Nat.add_sub_cancel' hbase]
  exact hp

/-- So does the cache, if it finds one. -/
theorem Holds.cached (h : Holds base listen flist b l s) (hnamed : b.named id = some conn)
    (hcached : s.cached id = some p) : p = base + conn := by
  obtain ⟨hfind, hdefinite⟩ := named_eq_some hnamed
  have hmem : (id, conn) ∈ b.conns := List.mem_of_find?_eq_some hfind
  obtain ⟨⟨i, hi, hslot⟩, hid⟩ := StrandConns.cached_eq_some hcached
  have hp : p ∈ l := h.tidy.cached i hi p hslot
  have hbase := h.based p hp
  have hconn : p - base = conn := by
    rcases hid with hid | hid
    · have hpmem := h.mem_conns hp
      rw [hid] at hpmem
      exact h.unique hpmem hmem
    · obtain ⟨only, honly⟩ := List.length_eq_one_iff.mp (hdefinite hid)
      have hpmem := h.mem_conns hp
      rw [honly] at hpmem hmem
      rw [List.mem_singleton] at hpmem hmem
      exact congrArg Prod.snd (hpmem.trans hmem.symm)
  omega

/-- The lookup of an id finds the connection that it stands for. -/
theorem Holds.get (h : Holds base listen flist b l s) (hnamed : b.named id = some conn) :
    ∃ s', strandGetConnection s id = some (some (base + conn), s') ∧ s.SameButCache s' ∧
      s'.Tidy l ∧ s'.connection = s.connection := by
  obtain ⟨found, s', hget, hsame, htidy, hconnection, -⟩ := h.tidy.get id
  refine ⟨s', ?_, hsame, htidy, hconnection⟩
  rcases h.tidy.get_cases id with ⟨hget', hcached⟩ | ⟨-, hfind⟩ | ⟨p, hget', -, hfind⟩
  · obtain ⟨p, hp⟩ := Option.ne_none_iff_exists'.mp hcached
    rw [hp, h.cached hnamed hp] at hget'
    rw [hget'] at hget ⊢
    cases hget
    rfl
  · rw [h.find hnamed] at hfind
    cases hfind
  · rw [h.find hnamed] at hfind
    cases hfind
    rw [hget'] at hget ⊢
    cases hget
    rfl

/-- What does not change the ids of the pool. -/
theorem Holds.of_same (h : Holds base listen flist b l s) (htidy : s'.Tidy l)
    (hobjs : s'.objs = s.objs) (hallocated : s'.allocated = s.allocated)
    (hlisten : s'.listenConn = s.listenConn)
    (hfields : ∀ j p, s'.connection j = some p → ∃ f, flist[j]? = some f ∧
      f.type.moves = true ∧ ∀ conn, (f.connId, conn) ∈ b.conns → p = base + conn) :
    Holds base listen flist b l s' where
  tidy := htidy
  conns := by
    rw [hobjs]
    exact h.conns
  ids := h.ids
  based := h.based
  allocated := hallocated.trans h.allocated
  listenConn := hlisten.trans h.listenConn
  fields := hfields

/-- A data flowop gets the connection that its id stands for. -/
theorem Holds.lookup (h : Holds base listen flist b l s) (hf : flist[j]? = some f)
    (hmoves : f.type.moves = true) (hnamed : b.named f.connId = some conn) :
    ∃ s', flowopLookup s j f = some (some (base + conn), s') ∧
      s'.connection j = some (base + conn) ∧ Holds base listen flist b l s' := by
  have hmem : (f.connId, conn) ∈ b.conns :=
    List.mem_of_find?_eq_some (named_eq_some hnamed).1
  unfold flowopLookup
  cases hj : s.connection j with
  | some p =>
      obtain ⟨f', hf', -, hp⟩ := h.fields j p hj
      rw [hf] at hf'
      cases hf'
      rw [hp conn hmem] at hj
      exact ⟨s, by rw [hp conn hmem], hj, h⟩
  | none =>
      obtain ⟨s₁, hget, hsame, htidy, hconnection⟩ := h.get hnamed
      refine ⟨{ s₁ with connection := Function.update s₁.connection j (some (base + conn)) }, ?_,
        Function.update_self .., h.of_same (htidy.congr _ _) hsame.objs hsame.allocated
          hsame.listenConn fun i p hp => ?_⟩
      · simp only [hget]
      · by_cases hij : i = j
        · subst hij
          dsimp only at hp
          rw [Function.update_self] at hp
          cases hp
          exact ⟨f, hf, hmoves, fun conn' hconn' => by rw [h.unique hmem hconn']⟩
        · dsimp only at hp
          rw [Function.update_of_ne hij, hconnection] at hp
          exact h.fields i p hp

/-- Behind a flowop that opens connections no field is left. -/
theorem Holds.connection_reset (h : Holds base listen flist b l s) (hf : flist[j]? = some f)
    (hopens : f.type.opens = true)
    (horder : flist.Pairwise fun f f' => f.type.moves = true → f'.type.opens = false) (i : ℕ) :
    (if j ≤ i then none else s.connection i) = none := by
  split_ifs with hle
  · rfl
  · cases hi : s.connection i with
    | none => rfl
    | some p =>
        obtain ⟨f', hf', hmoves, -⟩ := h.fields i p hi
        obtain ⟨hj, rfl⟩ := List.getElem?_eq_some_iff.mp hf
        obtain ⟨hi', rfl⟩ := List.getElem?_eq_some_iff.mp hf'
        have hnot := List.pairwise_iff_getElem.mp horder i j hi' hj (Nat.lt_of_not_le hle) hmoves
        rw [hnot] at hopens
        cases hopens

/-- A new connection under an id that is free. -/
theorem Holds.addNew (h : Holds base listen flist b l s) (hf : flist[j]? = some f)
    (hopens : f.type.opens = true)
    (horder : flist.Pairwise fun f f' => f.type.moves = true → f'.type.opens = false)
    (hfree : b.free f = true) {obj : ProtocolObj} (hobj : obj.pId = f.connId) :
    Holds base listen flist (b.open f.connId) (s.allocated :: l)
      ((strandAddConnection (s.allocate obj) s.allocated).resetFrom j) where
  tidy := (h.tidy.addNew obj).resetFrom j
  conns := by
    have hold : ∀ p ∈ l, Function.update s.objs s.allocated obj p = s.objs p := fun p hp =>
      Function.update_of_ne (h.tidy.inside p hp).ne _ _
    have hmap : l.map (fun p => ((Function.update s.objs s.allocated obj p).pId, p - base)) =
        b.conns := by
      rw [← h.conns]
      exact List.map_congr_left fun p hp => by rw [hold p hp]
    have hnumber : s.allocated - base = b.opened := by
      rw [h.allocated, Nat.add_sub_cancel_left]
    simp only [StrandConns.resetFrom, strandAddConnection, StrandConns.allocate, Book.open,
      List.map_cons, Function.update_self, hobj, hnumber, hmap]
  ids := by
    have hnew : f.connId ∉ b.conns.map Prod.fst := by
      intro hmem
      obtain ⟨conn, hconn, hid⟩ := List.mem_map.mp hmem
      have hall := (Bool.and_eq_true_iff.mp hfree).1
      exact absurd hid (by simpa using List.all_eq_true.mp hall conn hconn)
    exact List.nodup_cons.mpr ⟨hnew, h.ids⟩
  based p hp := by
    rcases List.mem_cons.mp hp with rfl | hp
    · rw [h.allocated]
      exact Nat.le_add_right ..
    · exact h.based p hp
  allocated := by
    show s.allocated + 1 = base + (b.opened + 1)
    rw [h.allocated]
    omega
  listenConn := h.listenConn
  fields i p hp := by
    rw [show ((strandAddConnection (s.allocate obj) s.allocated).resetFrom j).connection i = none
      from h.connection_reset hf hopens horder i] at hp
    cases hp

/-- A disconnect of the connection that an id stands for. -/
theorem Holds.disconnect (h : Holds base listen flist b l s) (hnamed : b.named f.connId = some conn)
    (j : ℕ) : ∃ s' l', flowopDisconnect s j f true = some (0, s') ∧
      Holds base listen flist (b.close f.connId) l' s' := by
  obtain ⟨s₁, hget, hsame, htidy, hconnection⟩ := h.get hnamed
  have hclosed := htidy.close (base + conn)
  have hfind : l.find? ((s₁.close (base + conn)).hasId f.connId) = some (base + conn) := by
    rw [s₁.hasId_close, hsame.hasId]
    exact h.find hnamed
  obtain ⟨hpid, first, rest, hl, hfirst⟩ := List.find?_eq_some_iff_append.mp hfind
  have hpids : ∀ q, ((((s₁.close (base + conn)).remove (base + conn)).resetFrom j).objs q).pId =
      (s.objs q).pId := by
    intro q
    rw [← hsame.objs]
    by_cases hq : q = base + conn
    · subst hq
      show (((s₁.close (base + conn)).remove (base + conn)).objs _).pId = _
      rw [StrandConns.objs_remove_self, StrandConns.close, StrandConns.objs_setObj,
        Function.update_self]
    · show (((s₁.close (base + conn)).remove (base + conn)).objs q).pId = _
      rw [StrandConns.objs_remove_of_ne _ hq, StrandConns.close, StrandConns.objs_setObj,
        Function.update_of_ne hq]
  have hsplit : b.conns =
      first.map (fun p => ((s.objs p).pId, p - base)) ++
        ((s.objs (base + conn)).pId, base + conn - base) ::
          rest.map (fun p => ((s.objs p).pId, p - base)) := by
    rw [← h.conns, hl, List.map_append, List.map_cons]
  have hasId : ∀ q, (s₁.close (base + conn)).hasId f.connId q =
      decide ((s.objs q).pId = f.connId) := by
    intro q
    rw [s₁.hasId_close, hsame.hasId, StrandConns.hasId]
  have herase : b.conns.eraseP (fun conn => conn.1 = f.connId) =
      (first ++ rest).map fun p => ((s.objs p).pId, p - base) := by
    rw [hsplit, List.eraseP_append_right, List.eraseP_cons_of_pos, List.map_append]
    · rw [hasId] at hpid
      exact hpid
    · intro conn' hconn'
      obtain ⟨p, hp, rfl⟩ := List.mem_map.mp hconn'
      have hnot := hfirst p hp
      rw [hasId] at hnot
      simpa using hnot
  refine ⟨((s₁.close (base + conn)).remove (base + conn)).resetFrom j, first ++ rest, ?_, ?_⟩
  · have hdelete := (hclosed.delete_some hfind).1
    rw [flowopDisconnect, hget]
    simp only [hdelete]
    rfl
  · constructor
    · rw [hl] at hclosed
      exact hclosed.remove.resetFrom j
    · rw [Book.close, herase]
      exact List.map_congr_left fun p _ => by rw [hpids]
    · exact (h.ids.sublist ((List.eraseP_sublist).map _))
    · intro p hp
      refine h.based p ?_
      rw [hl]
      simp only [List.mem_append, List.mem_cons] at hp ⊢
      tauto
    · exact hsame.allocated.trans h.allocated
    · exact hsame.listenConn.trans h.listenConn
    · intro i p hp
      have hi : s.connection i = some p := by
        have hreset : (if j ≤ i then none else s₁.connection i) = some p := hp
        split_ifs at hreset
        rwa [hconnection] at hreset
      obtain ⟨f', hf', hmoves, hconn⟩ := h.fields i p hi
      exact ⟨f', hf', hmoves, fun conn' hconn' => hconn conn' (List.mem_of_mem_eraseP hconn')⟩

/-- The fields and the cursor before a flowop is executed. -/
theorem Holds.cursor (h : Holds base listen flist b l s) (cursor : ℕ) :
    Holds base listen flist b l { s with currentReplacement := cursor } :=
  h.of_same (h.tidy.congr _ _) rfl rfl rfl h.fields

/-- At the beginning of a transaction. -/
theorem Holds.begin (h : Holds base listen flist b l s) (flist' : List Flowop) :
    Holds base listen flist' b l { s with connection := fun _ => none } :=
  ⟨h.tidy.congr _ _, h.conns, h.ids, h.based, h.allocated, h.listenConn, nofun⟩

/-- A strand that has opened no connection. -/
theorem StrandConns.Fresh.holds (h : s.Fresh) (flist : List Flowop) :
    Holds s.allocated s.listenConn flist {} [] { s with connection := fun _ => none } :=
  ⟨h.tidy.congr _ _, rfl, List.nodup_nil, nofun, rfl, rfl, nofun⟩

end

end Uperf
