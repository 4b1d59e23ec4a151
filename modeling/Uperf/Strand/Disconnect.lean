import Uperf.Strand.Cache

/-!
# Disconnecting

`flowop_disconnect` chooses twice: it closes the connection that a lookup finds,
and deletes the first one of the pool with the number.  These are the same while
the cache is coherent, so then each disconnect closes the connection that leaves
the pool, and all connections in the pool are open (`sound_iff`).  The number -1,
which the parser lets through, is special: a lookup of it takes any connection
that is in the cache.
-/

namespace Uperf

open Lib

/-- A disconnect that finds a connection closes it, destroys it and takes it out
of the pool, and touches no other object. -/
def DisconnectsOne (s : StrandConns) (j : ℕ) (f : Flowop) (closed : Bool) : Prop :=
  ∀ victim s₁, strandGetConnection s f.connId = some (some victim, s₁) →
    ∃ ret s' first rest, flowopDisconnect s j f closed = some (ret, s') ∧
      s.Pool (first ++ victim :: rest) ∧ s'.Pool (first ++ rest) ∧
      s'.objs victim = { s.objs victim with opened := false, destroyed := true } ∧
      ∀ p, p ≠ victim → s'.objs p = s.objs p

/-- All connections of the pool are open, and a disconnect that comes now, with
any number but -1, closes the connection that it removes. -/
structure StrandConns.Sound (s : StrandConns) : Prop where
  allOpen : ∀ l, s.Pool l → ∀ p ∈ l, s.IsOpen p
  disconnects : ∀ j f closed, f.connId ≠ -1 → DisconnectsOne s j f closed

/-- The step is no disconnect, or closes the connection that it removes, and the
strand is sound after it. -/
structure SoundStep (s : StrandConns) (act : ConnAct) : Prop where
  disconnects : ∀ j f closed, act = .disconnect j f closed → DisconnectsOne s j f closed
  sound : ∀ s', s.step act = some s' → s'.Sound

/-- A flowop that a strand executes which only connects. -/
def ConnAct.Connects : ConnAct → Prop
  | .accept _ _ _ => False
  | _ => True

/-- No connection is opened with a number that is in the cache, and a disconnect
with the number -1 comes only when the cache is empty or its first connection is
also the first of the pool with that number. -/
def NotMisled (s : StrandConns) : ConnAct → Prop
  | .connect _ f .connected => f.connId ≠ -1 → s.cached f.connId = none
  | .disconnect _ f _ =>
      f.connId = -1 → ∀ p, s.cached (-1) = some p → s.scan (-1) = some (some p)
  | _ => True

/-- The pool of the strand is `l`, the cache is coherent with it and all its
connections are open. -/
structure StrandConns.Intact (s : StrandConns) (l : List ℕ) : Prop where
  tidy : s.Tidy l
  coherent : s.Coherent (· ≠ -1) l
  isOpen : ∀ p ∈ l, s.IsOpen p

section

variable {s s' : StrandConns} {l : List ℕ} {p : ℕ}

theorem StrandConns.Fresh.intact (h : s.Fresh) : s.Intact [] :=
  ⟨h.tidy, .of_flushed h.ccacheSize, by simp⟩

theorem StrandConns.Intact.congr (h : s.Intact l) (cursor : ℕ) (connection : ℕ → Option ℕ) :
    ({ s with currentReplacement := cursor, connection := connection } : StrandConns).Intact l :=
  ⟨h.tidy.congr cursor connection, h.coherent, h.isOpen⟩

theorem StrandConns.Intact.resetFrom (h : s.Intact l) (j : ℕ) : (s.resetFrom j).Intact l :=
  h.congr _ _

theorem StrandConns.Intact.get (h : s.Intact l) (id : Int32) {found : Option ℕ}
    (hget : strandGetConnection s id = some (found, s')) : s'.Intact l := by
  obtain ⟨found', s₁, hget', hsame, htidy, -⟩ := h.tidy.get id
  cases hget.symm.trans hget'
  refine ⟨htidy, h.coherent.get h.tidy id hget, fun p hp => ?_⟩
  rw [IsOpen, hsame.objs]
  exact h.isOpen p hp

/-- A lookup of the number and the walk find the same connection. -/
def StrandConns.Agrees (s : StrandConns) (id : Int32) : Prop :=
  (strandGetConnection s id).map Prod.fst = s.scan id

theorem StrandConns.Intact.agrees (h : s.Intact l) {id : Int32} (hid : id ≠ -1) : s.Agrees id :=
  h.coherent.lookup h.tidy hid hid

/-- A lookup that the cache does not answer agrees with the walk, and one that it
answers if the walk comes to the same. -/
theorem StrandConns.Intact.agrees_of_cached (h : s.Intact l) {id : Int32}
    (hcached : ∀ p, s.cached id = some p → s.scan id = some (some p)) : s.Agrees id := by
  rw [Agrees]
  rcases h.tidy.get_cases id with ⟨hget, hne⟩ | ⟨hget, hfind⟩ | ⟨p, hget, -, hfind⟩
  · obtain ⟨p, hp⟩ := Option.ne_none_iff_exists'.mp hne
    rw [hget, hcached p hp, hp]
    rfl
  · rw [hget, h.tidy.scan, hfind]
    rfl
  · rw [hget, h.tidy.scan, hfind]
    rfl

/-- The condition on a disconnect makes the two agree, whatever its number. -/
theorem StrandConns.Intact.agrees_of_uncached (h : s.Intact l) {j : ℕ} {f : Flowop}
    {closed : Bool} (huncached : NotMisled s (.disconnect j f closed)) :
    s.Agrees f.connId := by
  by_cases hid : f.connId = -1
  · rw [hid]
    exact h.agrees_of_cached (huncached hid)
  · exact h.agrees hid

/-- Where the two agree a disconnect closes the connection that it removes. -/
theorem StrandConns.Intact.disconnect (h : s.Intact l) (j : ℕ) (f : Flowop) (closed : Bool)
    (hagrees : s.Agrees f.connId) {victim : ℕ} {s₁ : StrandConns}
    (hget : strandGetConnection s f.connId = some (some victim, s₁)) :
    ∃ first rest, l = first ++ victim :: rest ∧
      flowopDisconnect s j f closed =
        some (if closed then 0 else -1, ((s₁.close victim).remove victim).resetFrom j) ∧
      (((s₁.close victim).remove victim).resetFrom j).Intact (first ++ rest) ∧
        s₁.objs = s.objs := by
  obtain ⟨found, s₂, hget', hsame, htidy, -⟩ := h.tidy.get f.connId
  cases hget.symm.trans hget'
  -- the lookup and the walk of the pool find the same connection
  have hfind : l.find? (s.hasId f.connId) = some victim := by
    rw [StrandConns.Agrees, hget, h.tidy.scan] at hagrees
    exact (Option.some.inj hagrees).symm
  have hsameId : (s₁.close victim).hasId = s.hasId := by rw [s₁.hasId_close, hsame.hasId]
  have hfound : l.find? ((s₁.close victim).hasId f.connId) = some victim := by
    rw [hsameId, hfind]
  obtain ⟨hdelete, first, rest, hl, hremoved⟩ := (htidy.close victim).delete_some hfound
  refine ⟨first, rest, hl, ?_, ⟨hremoved.resetFrom j, .of_flushed rfl, fun p hp => ?_⟩, hsame.objs⟩
  · rw [flowopDisconnect, hget]
    simp only [hdelete]
  · have hne : p ≠ victim := by
      rintro rfl
      have hnodup := h.tidy.pool.nodup
      rw [hl] at hnodup
      exact (List.nodup_cons.mp (List.nodup_middle.mp hnodup)).1 hp
    have hmem : p ∈ l := by
      rw [hl]
      simp only [List.mem_append, List.mem_cons] at hp ⊢
      tauto
    -- the connections that stay are what they were
    have hobj : (((s₁.close victim).remove victim).resetFrom j).objs p = s.objs p := by
      rw [← hsame.objs]
      exact ((s₁.close victim).objs_remove_of_ne hne).trans (Function.update_of_ne hne _ _)
    rw [IsOpen, hobj]
    exact h.isOpen p hmem

theorem StrandConns.Intact.disconnectsOne (h : s.Intact l) (j : ℕ) (f : Flowop) (closed : Bool)
    (hagrees : s.Agrees f.connId) : DisconnectsOne s j f closed := by
  intro victim s₁ hget
  obtain ⟨first, rest, hl, hdisconnect, hintact, hobjs⟩ := h.disconnect j f closed hagrees hget
  refine ⟨_, _, first, rest, hdisconnect, hl ▸ h.tidy.pool, hintact.tidy.pool, ?_, ?_⟩
  · rw [← hobjs]
    calc (((s₁.close victim).remove victim).resetFrom j).objs victim =
        { (s₁.close victim).objs victim with destroyed := true } :=
          (s₁.close victim).objs_remove_self victim
      _ = { s₁.objs victim with opened := false, destroyed := true } := by
          rw [StrandConns.close, objs_setObj, Function.update_self]
  · intro p hp
    rw [← hobjs]
    exact ((s₁.close victim).objs_remove_of_ne hp).trans (Function.update_of_ne hp _ _)

theorem StrandConns.Intact.sound (h : s.Intact l) : s.Sound where
  allOpen l' hl' p hp := h.isOpen p (by rwa [h.tidy.pool.unique hl'])
  disconnects j f closed hid := h.disconnectsOne j f closed (h.agrees hid)

/-- A disconnect with a number for which the cache answers closes what the cache
has, so it must be what the walk finds. -/
theorem StrandConns.Intact.scan_of_disconnectsOne (h : s.Intact l) {j : ℕ} {f : Flowop}
    {closed : Bool} (hone : DisconnectsOne s j f closed) (hcached : s.cached f.connId = some p) :
    s.scan f.connId = some (some p) := by
  obtain ⟨i, hi, hslot⟩ := (StrandConns.cached_eq_some hcached).1
  have hmem : p ∈ l := h.tidy.cached i hi p hslot
  have hget : strandGetConnection s f.connId = some (some p, s) := by
    have hpool : s.cpool ≠ none := fun hnone => by simp [h.tidy.pool.eq_nil hnone] at hmem
    rw [strandGetConnection, if_neg hpool, hcached]
  obtain ⟨ret, s', first, rest, hdisconnect, -, -, hself, hother⟩ := hone p s hget
  have hclosed : (s.close p).scan f.connId = s.scan f.connId := by
    rw [StrandConns.scan, StrandConns.scan]
    exact congrArg (fun test => s.links.walk (test f.connId) s.allocated s.cpool) (s.hasId_close p)
  rw [flowopDisconnect, hget] at hdisconnect
  simp only [strandDeleteConnection, hclosed, h.tidy.scan] at hdisconnect
  rw [h.tidy.scan]
  cases hfind : l.find? (s.hasId f.connId) with
  | none =>
      -- the connection is closed and stays
      rw [hfind] at hdisconnect
      cases hdisconnect
      have hdestroyed : (s.objs p).destroyed = true := by
        have hobj := congrArg ProtocolObj.destroyed hself
        rwa [StrandConns.resetFrom, StrandConns.close, objs_setObj, Function.update_self] at hobj
      rw [(h.isOpen p hmem).2] at hdestroyed
      cases hdestroyed
  | some q =>
      rw [hfind] at hdisconnect
      cases hdisconnect
      by_contra hne
      have hqp : q ≠ p := fun heq => hne (by rw [heq])
      have hdestroyed : (s.objs q).destroyed = true := by
        rw [← hother q hqp]
        exact congrArg ProtocolObj.destroyed ((s.close p).objs_remove_self q)
      rw [(h.isOpen q (List.mem_of_find?_eq_some hfind)).2] at hdestroyed
      cases hdestroyed

/-- A connection opened with a number that is not in the cache. -/
theorem StrandConns.Intact.connect (h : s.Intact l) (j : ℕ) (f : Flowop)
    (huncached : f.connId ≠ -1 → s.cached f.connId = none) :
    (flowopConnect s j f .connected).2.Intact (s.allocated :: l) := by
  have hself : ∀ obj, (s.allocate obj).objs s.allocated = obj :=
    fun _ => Function.update_self _ _ _
  refine StrandConns.Intact.resetFrom ⟨h.tidy.addNew _, ?_, fun p hp => ?_⟩ j
  · exact h.coherent.addNew h.tidy _ huncached
  · rcases List.mem_cons.mp hp with rfl | hp
    · rw [IsOpen, strandAddConnection, hself]
      exact ⟨rfl, rfl⟩
    · have hne : p ≠ s.allocated := (h.tidy.inside p hp).ne
      rw [IsOpen, strandAddConnection, (h.tidy.allocate _).2.2.2 p hne]
      exact h.isOpen p hp

/-- A failed `connect` touches no connection. -/
theorem StrandConns.Intact.refuse (h : s.Intact l) (obj : ProtocolObj) :
    (destroyProtocol (s.allocate obj) s.allocated).Intact l := by
  have hsame : ∀ p ∈ l, (destroyProtocol (s.allocate obj) s.allocated).objs p = s.objs p := by
    intro p hp
    have hne : p ≠ s.allocated := (h.tidy.inside p hp).ne
    rw [destroyProtocol, objs_setObj, Function.update_of_ne hne, (h.tidy.allocate obj).2.2.2 p hne]
  refine ⟨h.tidy.refuse obj, fun i hi p hp hpos => ?_, fun p hp => ?_⟩
  · rw [hsame p (h.tidy.cached i hi p hp)] at hpos ⊢
    rw [← h.coherent i hi p hp hpos]
    refine List.find?_congr fun q hq => ?_
    rw [hasId, hasId, hsame q hq]
  · rw [IsOpen, hsame p hp]
    exact h.isOpen p hp

/-- A step of a connecting strand that opens no cached number. -/
theorem StrandConns.Intact.step (h : s.Intact l) {act : ConnAct} (hconnects : act.Connects)
    (huncached : NotMisled s act) (hstep : s.step act = some s') :
    ∃ l', s'.Intact l' := by
  obtain ⟨⟨ret, s₁⟩, hconn, rfl⟩ := Option.map_eq_some_iff.mp hstep
  cases act with
  | accept j f accepted => exact hconnects.elim
  | connect j f outcome =>
      cases outcome with
      | failed =>
          cases hconn
          exact ⟨l, h⟩
      | refused =>
          cases hconn
          exact ⟨l, h.refuse _⟩
      | connected =>
          cases hconn
          exact ⟨_, h.connect j f huncached⟩
  | disconnect j f closed =>
      -- a lookup changes the cache at most
      obtain ⟨found, s₂, hget, -⟩ := h.tidy.get f.connId
      cases found with
      | none =>
          rw [connStep, flowopDisconnect, hget] at hconn
          cases hconn
          exact ⟨l, h.get f.connId hget⟩
      | some victim =>
          obtain ⟨first, rest, -, hdisconnect, hintact, -⟩ :=
            h.disconnect j f closed (h.agrees_of_uncached huncached) hget
          rw [connStep, hdisconnect] at hconn
          cases hconn
          exact ⟨_, hintact⟩
  | rw j f =>
      rw [connStep, flowopLookup] at hconn
      cases hconnection : s.connection j with
      | some p =>
          rw [hconnection] at hconn
          cases hconn
          exact ⟨l, h⟩
      | none =>
          obtain ⟨found, s₂, hget, -⟩ := h.tidy.get f.connId
          simp only [hconnection, hget, Option.map_some] at hconn
          cases hconn
          have hintact := h.get f.connId hget
          exact ⟨l, hintact.congr _ _⟩
  | begin | others =>
      cases hconn
      exact ⟨l, h.congr _ _⟩

/-- After a connection is opened with a cached number, a disconnect closes one
connection and destroys another. -/
theorem StrandConns.Tidy.not_sound (h : s.Tidy l) (j : ℕ) (f : Flowop) (hid : f.connId ≠ -1)
    (hcached : s.cached f.connId = some p) : ¬ (flowopConnect s j f .connected).2.Sound := by
  intro hsound
  let obj : ProtocolObj := { type := f.options.protocol, pId := f.connId, opened := true }
  let s₁ := (strandAddConnection (s.allocate obj) s.allocated).resetFrom j
  obtain ⟨hmem, hhit, hscan⟩ := h.hides obj hcached
  have hne : s.allocated ≠ p := (h.inside p hmem).ne'
  have hget : strandGetConnection s₁ f.connId = some (some p, s₁) := by
    have hhit' : s₁.cached f.connId = some p := hhit
    rw [strandGetConnection, if_neg (by simp [s₁, StrandConns.resetFrom, strandAddConnection]),
      hhit']
  obtain ⟨ret, s', first, rest, hdisconnect, -, -, -, hother⟩ :=
    hsound.disconnects j f true hid p s₁ hget
  -- the object that the walk finds is destroyed
  have hscan' : (s₁.close p).scan f.connId = some (some s.allocated) := by
    have hsame : (s₁.close p).scan f.connId =
        s₁.links.walk (s₁.hasId f.connId) s₁.allocated s₁.cpool := by
      rw [← s₁.hasId_close p]
      rfl
    rw [hsame]
    exact hscan
  have hs' : s' = ((s₁.close p).remove s.allocated).resetFrom j := by
    rw [flowopConnect, flowopDisconnect, hget] at hdisconnect
    simp only [strandDeleteConnection, hscan'] at hdisconnect
    exact (Prod.mk.inj (Option.some.inj hdisconnect)).2.symm
  have hobj := hother s.allocated hne
  have hdestroyed : (s'.objs s.allocated).destroyed = true := by
    rw [hs']
    exact congrArg ProtocolObj.destroyed ((s₁.close p).objs_remove_self s.allocated)
  have hnew : s₁.objs s.allocated = obj := Function.update_self _ _ _
  rw [hobj, show (flowopConnect s j f .connected).2.objs s.allocated = obj from hnew]
    at hdestroyed
  cases hdestroyed

/-- What a sound step says about the number of its flowop. -/
theorem StrandConns.Intact.uncached_of_soundStep (h : s.Intact l) {act : ConnAct}
    (hstep : SoundStep s act) : NotMisled s act := by
  cases act with
  | connect j f outcome =>
      cases outcome with
      | connected =>
          intro hid
          by_contra hcached
          obtain ⟨p, hp⟩ := Option.ne_none_iff_exists'.mp hcached
          exact h.tidy.not_sound j f hid hp (hstep.sound _ rfl)
      | failed | refused => trivial
  | disconnect j f closed =>
      intro hid p hcached
      rw [← hid] at hcached ⊢
      exact h.scan_of_disconnectsOne (hstep.disconnects j f closed rfl) hcached
  | accept | rw | begin | others => trivial

/-- Along every sequence of flowops of a strand that connects, all connections of
the pool are open and each disconnect closes the connection that it removes,
exactly when no connection is opened with a number that is in the cache, and no
disconnect with the number -1 is misled by the cache. -/
theorem sound_iff (hs : s.Fresh) {acts : List ConnAct} (hacts : ∀ act ∈ acts, act.Connects) :
    Along StrandConns.step SoundStep s acts ↔ Along StrandConns.step NotMisled s acts := by
  refine along_iff_of (fun s => ∃ l, s.Intact l) ?_ ?_ ⟨[], hs.intact⟩
  · rintro s act hact ⟨l, h⟩
    refine ⟨h.uncached_of_soundStep, fun huncached => ⟨?_, fun s' hstep => ?_⟩⟩
    · rintro j f closed rfl
      exact h.disconnectsOne j f closed (h.agrees_of_uncached huncached)
    · obtain ⟨l', hintact⟩ := h.step (hacts act hact) huncached hstep
      exact hintact.sound
  · rintro s act hact s' ⟨l, h⟩ huncached hstep
    exact h.step (hacts act hact) huncached hstep

end

/-! ## Two connections with one number -/

/-- A flowop over TCP for the connection `pId`. -/
def tcpFlowop (type : FlowopType) (pId : UInt32) : Flowop where
  type := type
  pId := pId
  options := { protocol := protocolTcp, size := 1, count := 1 }

theorem strand_fresh : ({} : StrandConns).Fresh := ⟨rfl, rfl, by simp, fun _ => rfl⟩

/-- The connection is opened again after it has been closed. -/
theorem sound_iff_reconnect :
    Along StrandConns.step SoundStep {}
      [.connect 0 (tcpFlowop .connect 1) .connected, .rw 1 (tcpFlowop .read 1),
        .disconnect 2 (tcpFlowop .disconnect 1) true, .begin,
        .connect 0 (tcpFlowop .connect 1) .connected] := by
  refine (sound_iff strand_fresh ?_).mpr ⟨fun _ => rfl, fun s hs => ?_⟩
  · simp [ConnAct.Connects]
  · cases hs
    refine ⟨trivial, fun s hs => ?_⟩
    cases hs
    refine ⟨fun hid => absurd hid (by decide), fun s hs => ?_⟩
    cases hs
    refine ⟨trivial, fun s hs => ?_⟩
    cases hs
    exact ⟨fun _ => rfl, fun _ _ => trivial⟩

/-- The first connection is looked up, a second one opened with its number, and
the disconnect then closes the first and destroys the second: the pool is left
with a connection that is closed. -/
theorem not_sound_repeated : ∃ s s',
    run StrandConns.step {}
      [.connect 0 (tcpFlowop .connect 1) .connected, .rw 1 (tcpFlowop .read 1),
        .connect 2 (tcpFlowop .connect 1) .connected] = some s ∧
      s.step (.disconnect 3 (tcpFlowop .disconnect 1) true) = some s' ∧
      s'.cpool = some 0 ∧ (s'.objs 0).opened = false ∧ (s'.objs 1).destroyed = true ∧
      ¬ s'.Sound := by
  have hseen : (run StrandConns.step {}
      [.connect 0 (tcpFlowop .connect 1) .connected, .rw 1 (tcpFlowop .read 1),
        .connect 2 (tcpFlowop .connect 1) .connected]).bind (fun s =>
          (s.step (.disconnect 3 (tcpFlowop .disconnect 1) true)).map fun s' =>
            (s'.cpool, (s'.objs 0).opened, (s'.objs 1).destroyed, s'.links.prev 0,
              s'.links.next 0)) = some (some 0, false, true, none, none) := by rfl
  obtain ⟨s, hs, hseen⟩ := Option.bind_eq_some_iff.mp hseen
  obtain ⟨s', hs', hseen⟩ := Option.map_eq_some_iff.mp hseen
  simp only [Prod.mk.injEq] at hseen
  obtain ⟨hpool, hopened, hdestroyed, hprev, hnext⟩ := hseen
  refine ⟨s, s', hs, hs', hpool, hopened, hdestroyed, fun hsound => ?_⟩
  have hlist : s'.Pool [0] := by
    rw [StrandConns.Pool, hpool]
    exact ⟨⟨rfl, hprev, hnext⟩, List.nodup_singleton 0⟩
  have hopen := hsound.allOpen [0] hlist 0 List.mem_cons_self
  rw [StrandConns.IsOpen, hopened] at hopen
  cases hopen.1

end Uperf
