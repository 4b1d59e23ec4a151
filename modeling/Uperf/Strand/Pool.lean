import Uperf.Lib.Transition
import Uperf.Strand.Connections

/-!
# The pool as a list

`Pool s l` says that the pool of the strand is the list `l`.  The functions of
`strand.c` then do to `l` what they are for: inserting is `cons`, the walk is
`find?` and deleting takes out the first connection with the number.  The pool
stays a list except when an object comes back that is still in it, or that was
not at its head when it left (`pool_wellFormed_iff`).
-/

namespace Uperf

open Lib

/-- The pool of the strand holds the connections of `l`. -/
def StrandConns.Pool (s : StrandConns) (l : List ℕ) : Prop := s.links.Represents s.cpool l

/-- The object has been opened, and neither disconnected nor destroyed. -/
def StrandConns.IsOpen (s : StrandConns) (p : ℕ) : Prop :=
  (s.objs p).opened = true ∧ (s.objs p).destroyed = false

/-- The test of the walks over the pool. -/
def StrandConns.hasId (s : StrandConns) (id : Int32) (p : ℕ) : Bool := (s.objs p).pId = id

/-- What holds of a strand whose pool is `l`. -/
structure StrandConns.Tidy (s : StrandConns) (l : List ℕ) : Prop where
  pool : s.Pool l
  inside : ∀ p ∈ l, p < s.allocated
  listening : ∀ protocol p, s.listenConn protocol = some p → p < s.allocated
  opened : ∀ p, s.IsOpen p → p ∈ l
  cached : ∀ i < s.ccacheSize, ∀ p, s.ccache i = some p → p ∈ l
  cacheSize : s.ccacheSize < strandConnectionCacheSize

section

variable {s s' : StrandConns} {l : List ℕ} {p : ℕ} {id : Int32}

theorem StrandConns.Pool.unique {l' : List ℕ} (h : s.Pool l) (h' : s.Pool l') : l = l' :=
  Links.Represents.unique h h'

theorem StrandConns.Pool.eq_nil (h : s.Pool l) (hpool : s.cpool = none) : l = [] := by
  have hhead := h.isSegment.head_eq
  rw [hpool] at hhead
  exact List.head?_eq_none_iff.mp hhead.symm

theorem StrandConns.Tidy.length_le (h : s.Tidy l) : l.length ≤ s.allocated := by
  have hsubset : l.toFinset ⊆ Finset.range s.allocated := by
    intro p hp
    exact Finset.mem_range.mpr (h.inside p (List.mem_toFinset.mp hp))
  calc l.length = l.toFinset.card := (List.toFinset_card_of_nodup h.pool.nodup).symm
    _ ≤ (Finset.range s.allocated).card := Finset.card_le_card hsubset
    _ = s.allocated := Finset.card_range _

/-- The walk finds the first connection of the list. -/
theorem StrandConns.Tidy.scan (h : s.Tidy l) (id : Int32) :
    s.scan id = some (l.find? (s.hasId id)) :=
  h.pool.isSegment.walk_eq _ h.length_le

/-! ## Lookups -/

theorem StrandConns.cached_eq_some (hcached : s.cached id = some p) :
    (∃ i < s.ccacheSize, s.ccache i = some p) ∧ ((s.objs p).pId = id ∨ id = -1) := by
  obtain ⟨i, hi, hslot⟩ := List.exists_of_findSome?_eq_some hcached
  cases hp : s.ccache i with
  | none => simp [hp] at hslot
  | some p' =>
      rw [hp] at hslot
      obtain ⟨hid, hsome⟩ := Option.ite_none_right_eq_some.mp hslot
      cases hsome
      exact ⟨⟨i, List.mem_range.mp hi, hp⟩, hid⟩

/-- Only the cache of a strand changes. -/
structure StrandConns.SameButCache (s s' : StrandConns) : Prop where
  objs : s'.objs = s.objs
  links : s'.links = s.links
  allocated : s'.allocated = s.allocated
  listenConn : s'.listenConn = s.listenConn
  cpool : s'.cpool = s.cpool

theorem StrandConns.SameButCache.refl (s : StrandConns) : s.SameButCache s :=
  ⟨rfl, rfl, rfl, rfl, rfl⟩

theorem strandPutConnectionInCache_same (p : ℕ) :
    s.SameButCache (strandPutConnectionInCache s p) := by
  unfold strandPutConnectionInCache
  split_ifs <;> exact ⟨rfl, rfl, rfl, rfl, rfl⟩

/-- What the slots in use hold after an insertion into the cache. -/
theorem strandPutConnectionInCache_slots (hsize : s.ccacheSize < strandConnectionCacheSize)
    (p : ℕ) :
    (strandPutConnectionInCache s p).ccacheSize < strandConnectionCacheSize ∧
      ∀ i < (strandPutConnectionInCache s p).ccacheSize,
        (strandPutConnectionInCache s p).ccache i = some p ∨
          (i < s.ccacheSize ∧ (strandPutConnectionInCache s p).ccache i = s.ccache i) := by
  unfold strandPutConnectionInCache
  split_ifs with hfull
  · refine ⟨hsize, fun i hi => ?_⟩
    by_cases heq : i = s.currentReplacement
    · subst heq
      exact .inl (Function.update_self _ _ _)
    · exact .inr ⟨hi, Function.update_of_ne heq _ _⟩
  · refine ⟨by dsimp only; omega, fun i hi => ?_⟩
    by_cases heq : i = s.ccacheSize
    · subst heq
      exact .inl (Function.update_self _ _ _)
    · refine .inr ⟨?_, Function.update_of_ne heq _ _⟩
      exact lt_of_le_of_ne (Nat.le_of_lt_succ hi) heq

/-- A change of the cache, to connections of the pool. -/
theorem StrandConns.Tidy.of_cache (h : s.Tidy l) (hsame : s.SameButCache s')
    (hcached : ∀ i < s'.ccacheSize, ∀ p, s'.ccache i = some p → p ∈ l)
    (hsize : s'.ccacheSize < strandConnectionCacheSize) : s'.Tidy l where
  pool := by
    rw [Pool, hsame.links, hsame.cpool]
    exact h.pool
  inside p hp := by
    rw [hsame.allocated]
    exact h.inside p hp
  listening protocol p hp := by
    rw [hsame.listenConn] at hp
    rw [hsame.allocated]
    exact h.listening protocol p hp
  opened p hp := h.opened p (by rwa [IsOpen, hsame.objs] at hp)
  cached := hcached
  cacheSize := hsize

/-- The fields of the flowops and the shared cursor do not matter for the pool. -/
theorem StrandConns.Tidy.congr (h : s.Tidy l) (cursor : ℕ) (connection : ℕ → Option ℕ) :
    ({ s with currentReplacement := cursor, connection := connection } : StrandConns).Tidy l :=
  ⟨h.pool, h.inside, h.listening, h.opened, h.cached, h.cacheSize⟩

/-- What a lookup does: nothing for a pool without connections or a number in
the cache, and for any other number it finds what the walk finds and puts it
into the cache. -/
theorem StrandConns.Tidy.get_cases (h : s.Tidy l) (id : Int32) :
    (strandGetConnection s id = some (s.cached id, s) ∧ s.cached id ≠ none) ∨
      (strandGetConnection s id = some (none, s) ∧ l.find? (s.hasId id) = none) ∨
      ∃ p, strandGetConnection s id = some (some p, strandPutConnectionInCache s p) ∧
        s.cached id = none ∧ l.find? (s.hasId id) = some p := by
  by_cases hpool : s.cpool = none
  · obtain rfl := h.pool.eq_nil hpool
    exact .inr (.inl ⟨by rw [strandGetConnection, if_pos hpool], rfl⟩)
  · cases hcached : s.cached id with
    | some p => exact .inl ⟨by rw [strandGetConnection, if_neg hpool, hcached], by simp⟩
    | none =>
        cases hfind : l.find? (s.hasId id) with
        | none =>
            refine .inr (.inl ⟨?_, rfl⟩)
            simp only [strandGetConnection, if_neg hpool, hcached, h.scan, hfind]
        | some p =>
            refine .inr (.inr ⟨p, ?_, rfl, rfl⟩)
            simp only [strandGetConnection, if_neg hpool, hcached, h.scan, hfind]

/-- A lookup finds connections of the pool and only fills the cache. -/
theorem StrandConns.Tidy.get (h : s.Tidy l) (id : Int32) :
    ∃ p s', strandGetConnection s id = some (p, s') ∧ s.SameButCache s' ∧ s'.Tidy l ∧
      s'.connection = s.connection ∧ ∀ c, p = some c → c ∈ l := by
  rcases h.get_cases id with ⟨hget, -⟩ | ⟨hget, -⟩ | ⟨p, hget, -, hfind⟩
  · refine ⟨_, s, hget, .refl s, h, rfl, fun c hc => ?_⟩
    obtain ⟨⟨i, hi, hslot⟩, -⟩ := StrandConns.cached_eq_some hc
    exact h.cached i hi c hslot
  · exact ⟨none, s, hget, .refl s, h, rfl, by simp⟩
  · have hp : p ∈ l := List.mem_of_find?_eq_some hfind
    obtain ⟨hsize, hslots⟩ := strandPutConnectionInCache_slots h.cacheSize p
    have hsame := strandPutConnectionInCache_same (s := s) p
    refine ⟨some p, _, hget, hsame, h.of_cache hsame (fun i hi q hq => ?_) hsize, ?_, ?_⟩
    · rcases hslots i hi with hnew | ⟨hi', hold⟩
      · rw [hnew] at hq
        cases hq
        exact hp
      · exact h.cached i hi' q (hold ▸ hq)
    · unfold strandPutConnectionInCache
      split_ifs <;> rfl
    · intro c hc
      cases hc
      exact hp

/-! ## Insertions -/

theorem StrandConns.Tidy.add (h : s.Tidy l) (hnew : p ∉ l) (hp : p < s.allocated)
    (hprev : s.links.prev p = none) : (strandAddConnection s p).Tidy (p :: l) where
  pool := Links.Represents.push h.pool hnew hprev
  inside q hq := by
    rcases List.mem_cons.mp hq with rfl | hq
    · exact hp
    · exact h.inside q hq
  listening := h.listening
  opened q hq := List.mem_cons_of_mem p (h.opened q hq)
  cached i hi q hq := List.mem_cons_of_mem p (h.cached i hi q hq)
  cacheSize := h.cacheSize

/-- A new object is in no list yet. -/
theorem StrandConns.Tidy.allocate (h : s.Tidy l) (obj : ProtocolObj) :
    (s.allocate obj).links.prev s.allocated = none ∧ s.allocated ∉ l ∧
      (s.allocate obj).Pool l ∧
      (∀ q, q ≠ s.allocated → (s.allocate obj).objs q = s.objs q) := by
  have hnew : s.allocated ∉ l := fun hmem => absurd (h.inside _ hmem) (lt_irrefl _)
  refine ⟨Function.update_self _ _ _, hnew, ?_, fun q hq => Function.update_of_ne hq _ _⟩
  refine h.pool.congr (fun q hq => ?_) fun q hq => ?_ <;>
    exact Function.update_of_ne (fun heq => hnew (by rwa [← heq])) _ _

/-- A new connection, opened and inserted. -/
theorem StrandConns.Tidy.addNew (h : s.Tidy l) (obj : ProtocolObj) :
    (strandAddConnection (s.allocate obj) s.allocated).Tidy (s.allocated :: l) := by
  obtain ⟨hprev, hnew, hpool, hobjs⟩ := h.allocate obj
  refine ⟨Links.Represents.push hpool hnew hprev, fun q hq => ?_, fun protocol q hq => ?_,
    fun q hq => ?_, fun i hi q hq => ?_, h.cacheSize⟩
  · rcases List.mem_cons.mp hq with rfl | hq
    · exact Nat.lt_succ_self _
    · exact (h.inside q hq).trans (Nat.lt_succ_self _)
  · exact (h.listening protocol q hq).trans (Nat.lt_succ_self _)
  · by_cases heq : q = s.allocated
    · exact heq ▸ List.mem_cons_self
    · refine List.mem_cons_of_mem _ (h.opened q ?_)
      have hopen : (s.allocate obj).IsOpen q := hq
      rwa [IsOpen, hobjs q heq] at hopen
  · exact List.mem_cons_of_mem _ (h.cached i hi q hq)

/-! ## Deletions -/

/-- Deleting a number that the pool does not have changes nothing. -/
theorem StrandConns.Tidy.delete_none (h : s.Tidy l) (hfind : l.find? (s.hasId id) = none) :
    strandDeleteConnection s id = some (1, s) := by
  rw [strandDeleteConnection, h.scan, hfind]

/-- Removing destroys one object and touches no other. -/
theorem StrandConns.objs_remove_self (s : StrandConns) (p : ℕ) :
    (s.remove p).objs p = { s.objs p with destroyed := true } :=
  Function.update_self _ _ _

theorem StrandConns.objs_remove_of_ne (s : StrandConns) {p q : ℕ} (hq : q ≠ p) :
    (s.remove p).objs q = s.objs q :=
  Function.update_of_ne hq _ _

theorem StrandConns.Tidy.remove {first rest : List ℕ} (h : s.Tidy (first ++ p :: rest)) :
    (s.remove p).Tidy (first ++ rest) where
  pool := Links.Represents.unlink h.pool
  inside q hq := h.inside q (by simp only [List.mem_append, List.mem_cons] at hq ⊢; tauto)
  listening := h.listening
  opened q hq := by
    by_cases heq : q = p
    · subst heq
      rw [IsOpen, s.objs_remove_self] at hq
      cases hq.2
    · rw [IsOpen, s.objs_remove_of_ne heq] at hq
      have hmem := h.opened q hq
      simp only [List.mem_append, List.mem_cons] at hmem ⊢
      tauto
  cached i hi := absurd hi (Nat.not_lt_zero i)
  cacheSize := Nat.zero_lt_succ 7

/-- Otherwise the first connection with the number leaves the pool and is
destroyed, and the cache is flushed. -/
theorem StrandConns.Tidy.delete_some (h : s.Tidy l) (hfind : l.find? (s.hasId id) = some p) :
    strandDeleteConnection s id = some (0, s.remove p) ∧
      ∃ first rest, l = first ++ p :: rest ∧ (s.remove p).Tidy (first ++ rest) := by
  refine ⟨by rw [strandDeleteConnection, h.scan, hfind], ?_⟩
  obtain ⟨first, rest, rfl⟩ := List.append_of_mem (List.mem_of_find?_eq_some hfind)
  exact ⟨first, rest, rfl, h.remove⟩

/-- The `disconnect` function of a protocol closes an object. -/
theorem StrandConns.Tidy.close (h : s.Tidy l) (p : ℕ) : (s.close p).Tidy l where
  pool := h.pool
  inside := h.inside
  listening := h.listening
  opened q hq := by
    refine h.opened q ?_
    by_cases heq : q = p
    · subst heq
      rw [IsOpen, StrandConns.close, objs_setObj, Function.update_self] at hq
      cases hq.1
    · rwa [IsOpen, StrandConns.close, objs_setObj, Function.update_of_ne heq] at hq
  cached := h.cached
  cacheSize := h.cacheSize

end

/-! ## Steps -/

/-- The pool is a list that contains each open connection exactly once. -/
def StrandConns.WellFormed (s : StrandConns) : Prop :=
  ∃ l, s.Pool l ∧ ∀ p, s.IsOpen p → l.count p = 1

/-- What a step has to keep: the pool is well formed afterwards, and as it was
when the flowop fails. -/
def KeepsPool (s : StrandConns) (act : ConnAct) : Prop :=
  ∀ ret s', connStep s act = some (ret, s') →
    s'.WellFormed ∧ (ret < 0 → ∀ l, s.Pool l → s'.Pool l)

/-- The object that an `accept` returns is not in the pool, and was at its head
if it has been in it before; no `disconnect` function fails on a connection of
the pool. -/
def ReturnsClean (s : StrandConns) : ConnAct → Prop
  | .accept _ f accepted => accepted = true → acceptsItself f.options.protocol = true →
      ∀ p, s.listenConn f.options.protocol = some p →
        (∀ l, s.Pool l → p ∉ l) ∧ s.links.prev p = none
  | .disconnect _ f closed => closed = true ∨ s.scan f.connId = some none
  | _ => True

section

variable {s s' : StrandConns} {l : List ℕ}

theorem StrandConns.Tidy.wellFormed (h : s.Tidy l) : s.WellFormed :=
  ⟨l, h.pool, fun p hp => List.count_eq_one_of_mem h.pool.nodup (h.opened p hp)⟩

theorem StrandConns.Tidy.resetFrom (h : s.Tidy l) (j : ℕ) : (s.resetFrom j).Tidy l :=
  h.congr _ _

/-- The connection that a failed `connect` leaves behind is not open. -/
theorem StrandConns.Tidy.refuse (h : s.Tidy l) (obj : ProtocolObj) :
    (destroyProtocol (s.allocate obj) s.allocated).Tidy l := by
  obtain ⟨-, hnew, hpool, hobjs⟩ := h.allocate obj
  refine ⟨hpool, fun q hq => (h.inside q hq).trans (Nat.lt_succ_self _),
    fun protocol q hq => (h.listening protocol q hq).trans (Nat.lt_succ_self _), fun q hq => ?_,
    h.cached, h.cacheSize⟩
  rw [IsOpen, destroyProtocol, objs_setObj] at hq
  by_cases heq : q = s.allocated
  · subst heq
    rw [Function.update_self] at hq
    cases hq.2
  · rw [Function.update_of_ne heq, hobjs q heq] at hq
    exact h.opened q hq

/-- The listening object is handed out as a connection. -/
theorem StrandConns.Tidy.addItself (h : s.Tidy l) {p : ℕ} {protocol : UInt32} (obj : ProtocolObj)
    (hp : s.listenConn protocol = some p) (hnew : p ∉ l) (hprev : s.links.prev p = none) :
    (strandAddConnection (s.setObj p obj) p).Tidy (p :: l) := by
  refine ⟨Links.Represents.push h.pool hnew hprev, fun q hq => ?_, h.listening, fun q hq => ?_,
    fun i hi q hq => List.mem_cons_of_mem p (h.cached i hi q hq), h.cacheSize⟩
  · rcases List.mem_cons.mp hq with rfl | hq
    · exact h.listening protocol q hp
    · exact h.inside q hq
  · by_cases heq : q = p
    · exact heq ▸ List.mem_cons_self
    · refine List.mem_cons_of_mem p (h.opened q ?_)
      have hopen : (s.setObj p obj).IsOpen q := hq
      rwa [IsOpen, objs_setObj, Function.update_of_ne heq] at hopen

theorem StrandConns.hasId_close (s : StrandConns) (p : ℕ) : (s.close p).hasId = s.hasId := by
  funext id q
  rw [hasId, hasId, StrandConns.close, objs_setObj]
  by_cases hq : q = p
  · subst hq
    rw [Function.update_self]
  · rw [Function.update_of_ne hq]

theorem StrandConns.SameButCache.hasId (h : s.SameButCache s') : s'.hasId = s.hasId := by
  funext id q
  rw [StrandConns.hasId, StrandConns.hasId, h.objs]

/-- What a disconnect does: nothing to the pool when there is no connection with
the number, and otherwise the first one leaves it. -/
theorem StrandConns.Tidy.disconnect_cases (h : s.Tidy l) (j : ℕ) (f : Flowop) (closed : Bool) :
    ∃ ret s', flowopDisconnect s j f closed = some (ret, s') ∧
      ((l.find? (s.hasId f.connId) = none ∧ s'.Tidy l) ∨
        ∃ p first rest, l.find? (s.hasId f.connId) = some p ∧ l = first ++ p :: rest ∧
          s'.Tidy (first ++ rest) ∧ ret = if closed then 0 else -1) := by
  obtain ⟨found, s₁, hget, hsame, htidy, -, hfound⟩ := h.get f.connId
  cases found with
  | none =>
      refine ⟨-1, s₁, by rw [flowopDisconnect, hget], .inl ⟨?_, htidy⟩⟩
      rcases h.get_cases f.connId with ⟨hget', hcached⟩ | ⟨-, hfind⟩ | ⟨p, hget', -⟩
      · rw [hget] at hget'
        obtain ⟨hnone, -⟩ := Prod.mk.inj (Option.some.inj hget')
        exact absurd hnone.symm hcached
      · exact hfind
      · rw [hget] at hget'
        cases hget'
  | some datap =>
      have hclosed := htidy.close datap
      have hid : (s₁.close datap).hasId f.connId = s.hasId f.connId := by
        rw [s₁.hasId_close, hsame.hasId]
      cases hfind : l.find? (s.hasId f.connId) with
      | none =>
          have hfound : l.find? ((s₁.close datap).hasId f.connId) = none := by rw [hid, hfind]
          have hdelete := hclosed.delete_none hfound
          refine ⟨if closed then 0 else -1, (s₁.close datap).resetFrom j, ?_,
            .inl ⟨rfl, hclosed.resetFrom j⟩⟩
          rw [flowopDisconnect, hget]
          simp only [hdelete]
      | some p =>
          have hfound : l.find? ((s₁.close datap).hasId f.connId) = some p := by rw [hid, hfind]
          obtain ⟨hdelete, first, rest, hl, hremoved⟩ := hclosed.delete_some hfound
          refine ⟨if closed then 0 else -1, ((s₁.close datap).remove p).resetFrom j, ?_,
            .inr ⟨p, first, rest, rfl, hl, hremoved.resetFrom j, rfl⟩⟩
          rw [flowopDisconnect, hget]
          simp only [hdelete]

theorem StrandConns.Tidy.connect (h : s.Tidy l) (j : ℕ) (f : Flowop) (outcome : ConnectOutcome) :
    ∃ ret s', flowopConnect s j f outcome = (ret, s') ∧
      ((ret < 0 ∧ s'.Tidy l) ∨ (ret = 0 ∧ s'.Tidy (s.allocated :: l))) := by
  cases outcome with
  | failed => exact ⟨-1, s, rfl, .inl ⟨by decide, h⟩⟩
  | refused => exact ⟨-1, _, rfl, .inl ⟨by decide, h.refuse _⟩⟩
  | connected => exact ⟨0, _, rfl, .inr ⟨rfl, (h.addNew _).resetFrom j⟩⟩

theorem StrandConns.Tidy.lookup (h : s.Tidy l) (j : ℕ) (f : Flowop) :
    ∃ p s', flowopLookup s j f = some (p, s') ∧ s'.Tidy l := by
  unfold flowopLookup
  cases s.connection j with
  | some p => exact ⟨some p, s, rfl, h⟩
  | none =>
      obtain ⟨p, s₁, hget, -, htidy, -⟩ := h.get f.connId
      refine ⟨p, { s₁ with connection := Function.update s₁.connection j p }, ?_, htidy.congr _ _⟩
      simp only [hget]

/-- A clean accept inserts a connection, or fails and changes nothing. -/
theorem StrandConns.Tidy.accept (h : s.Tidy l) {j : ℕ} {f : Flowop} {accepted : Bool}
    (hclean : ReturnsClean s (.accept j f accepted)) {ret : Int32}
    (haccept : flowopAccept s j f accepted = some (ret, s')) :
    (ret = -1 ∧ accepted = false ∧ s' = s) ∨
      (ret = 0 ∧ accepted = true ∧ s'.connection = (s.resetFrom j).connection ∧
        ∃ p, s'.Tidy (p :: l)) := by
  rw [flowopAccept] at haccept
  cases hp : s.listenConn f.options.protocol with
  | none =>
      rw [hp] at haccept
      cases haccept
  | some p =>
      rw [hp] at haccept
      cases accepted with
      | false =>
          cases haccept
          exact .inl ⟨rfl, rfl, rfl⟩
      | true =>
          refine .inr ?_
          by_cases hitself : acceptsItself f.options.protocol = true
          · simp only [hitself, if_true] at haccept
            cases haccept
            obtain ⟨hnew, hprev⟩ := hclean rfl hitself p hp
            exact ⟨rfl, rfl, rfl, p, (h.addItself _ hp (hnew l h.pool) hprev).resetFrom j⟩
          · simp only [if_neg hitself, if_true] at haccept
            cases haccept
            exact ⟨rfl, rfl, rfl, _, (h.addNew _).resetFrom j⟩

/-- A clean step leaves the strand tidy, with the pool it had if the flowop
fails. -/
theorem StrandConns.Tidy.step (h : s.Tidy l) {act : ConnAct} (hclean : ReturnsClean s act)
    {ret : Int32} (hstep : connStep s act = some (ret, s')) :
    ∃ l', s'.Tidy l' ∧ (ret < 0 → l' = l) := by
  cases act with
  | connect j f outcome =>
      obtain ⟨ret', s₁, hconnect, hcases⟩ := h.connect j f outcome
      rw [connStep, hconnect] at hstep
      cases hstep
      rcases hcases with ⟨-, htidy⟩ | ⟨rfl, htidy⟩
      · exact ⟨l, htidy, fun _ => rfl⟩
      · exact ⟨_, htidy, fun hneg => absurd hneg (by decide)⟩
  | accept j f accepted =>
      rcases h.accept hclean hstep with ⟨-, -, rfl⟩ | ⟨rfl, -, -, p, htidy⟩
      · exact ⟨l, h, fun _ => rfl⟩
      · exact ⟨_, htidy, fun hneg => absurd hneg (by decide)⟩
  | disconnect j f closed =>
      obtain ⟨ret', s₁, hdisconnect, hcases⟩ := h.disconnect_cases j f closed
      rw [connStep, hdisconnect] at hstep
      cases hstep
      rcases hcases with ⟨-, htidy⟩ | ⟨p, first, rest, hfind, hl, htidy, hret⟩
      · exact ⟨l, htidy, fun _ => rfl⟩
      · refine ⟨_, htidy, fun hneg => ?_⟩
        rcases hclean with hclosed | hnone
        · rw [hret, if_pos hclosed] at hneg
          exact absurd hneg (by decide)
        · rw [h.scan, hfind] at hnone
          cases hnone
  | rw j f =>
      obtain ⟨p, s₁, hlookup, htidy⟩ := h.lookup j f
      rw [connStep, hlookup] at hstep
      cases hstep
      exact ⟨l, htidy, fun _ => rfl⟩
  | begin | others =>
      cases hstep
      exact ⟨l, h.congr _ _, fun _ => rfl⟩

/-- A step that is not clean breaks the pool, or changes it while it fails. -/
theorem StrandConns.Tidy.clean_of_keepsPool (h : s.Tidy l) {act : ConnAct}
    (hkeeps : KeepsPool s act) : ReturnsClean s act := by
  cases act with
  | accept j f accepted =>
      intro haccepted hitself p hp
      have haccept : connStep s (.accept j f accepted) =
          some (0, (strandAddConnection
            (s.setObj p
              { s.objs p with pId := f.connId, opened := true, destroyed := false })
            p).resetFrom j) := by
        simp only [connStep, flowopAccept, hp, haccepted, hitself, if_true]
      obtain ⟨⟨l', hpool, -⟩, -⟩ := hkeeps _ _ haccept
      obtain ⟨hnew, hprev⟩ := (Links.exists_represents_push_iff h.pool).mp ⟨l', hpool⟩
      refine ⟨fun l₀ hl₀ => ?_, hprev⟩
      rwa [hl₀.unique h.pool]
  | disconnect j f closed =>
      obtain ⟨ret, s', hdisconnect, hcases⟩ := h.disconnect_cases j f closed
      rcases hcases with ⟨hfind, -⟩ | ⟨p, first, rest, -, hl, htidy, hret⟩
      · exact .inr (by rw [h.scan, hfind])
      · refine .inl (by_contra fun hclosed => ?_)
        rw [if_neg hclosed] at hret
        have hsame : s'.Pool l := (hkeeps ret s' hdisconnect).2 (by rw [hret]; decide) l h.pool
        have hlength := congrArg List.length (hsame.unique htidy.pool)
        rw [hl] at hlength
        simp at hlength
  | connect | rw | begin | others => trivial

/-- A strand that has not opened a connection. -/
structure StrandConns.Fresh (s : StrandConns) : Prop where
  cpool : s.cpool = none
  ccacheSize : s.ccacheSize = 0
  listening : ∀ protocol p, s.listenConn protocol = some p → p < s.allocated
  closed : ∀ p, (s.objs p).opened = false

theorem StrandConns.Fresh.tidy (h : s.Fresh) : s.Tidy [] where
  pool := by
    rw [Pool, h.cpool]
    exact Links.Represents.nil
  inside := by simp
  listening := h.listening
  opened p hp := by
    rw [IsOpen, h.closed] at hp
    cases hp.1
  cached i hi := by
    rw [h.ccacheSize] at hi
    exact absurd hi (Nat.not_lt_zero i)
  cacheSize := by
    rw [h.ccacheSize]
    exact Nat.zero_lt_succ 7

/-- Along every sequence of flowops of a strand the pool stays a list with each
open connection once, which failed flowops do not change, exactly when every
`accept` returns an object that is out of the pool and was at its head when it
left, and no `disconnect` function fails. -/
theorem pool_wellFormed_iff (hs : s.Fresh) (acts : List ConnAct) :
    Along StrandConns.step KeepsPool s acts ↔ Along StrandConns.step ReturnsClean s acts := by
  refine along_iff_of (fun s => ∃ l, s.Tidy l) ?_ ?_ ⟨[], hs.tidy⟩
  · rintro s act - ⟨l, h⟩
    refine ⟨h.clean_of_keepsPool, fun hclean ret s' hstep => ?_⟩
    obtain ⟨l', htidy, hret⟩ := h.step hclean hstep
    refine ⟨htidy.wellFormed, fun hneg l₀ hl₀ => ?_⟩
    rw [hl₀.unique h.pool, ← hret hneg]
    exact htidy.pool
  · rintro s act - s' ⟨l, h⟩ hclean hstep
    obtain ⟨⟨ret, s₁⟩, hconn, rfl⟩ := Option.map_eq_some_iff.mp hstep
    obtain ⟨l', htidy, -⟩ := h.step hclean hconn
    exact ⟨l', htidy⟩

end

/-! ## A listening object that comes back -/

/-- A strand that listens with UDP. -/
def udpStrand : StrandConns where
  allocated := 1
  listenConn protocol := if protocol = protocolUdp then some 0 else none

theorem udpStrand_fresh : udpStrand.Fresh where
  cpool := rfl
  ccacheSize := rfl
  listening protocol p hp := by
    obtain ⟨-, hp⟩ := Option.ite_none_right_eq_some.mp hp
    cases hp
    exact Nat.zero_lt_one
  closed _ := rfl

/-- A flowop over UDP for the connection `pId`. -/
def udpFlowop (type : FlowopType) (pId : UInt32) : Flowop where
  type := type
  pId := pId
  options := { protocol := protocolUdp, count := 1 }

/-- One connection after the other. -/
theorem pool_wellFormed_iff_udp :
    Along StrandConns.step KeepsPool udpStrand
      [.accept 0 (udpFlowop .accept 1) true, .disconnect 1 (udpFlowop .disconnect 1) true,
        .accept 0 (udpFlowop .accept 1) true] := by
  refine (pool_wellFormed_iff udpStrand_fresh _).mpr ⟨fun _ _ p hp => ?_, fun s hs => ?_⟩
  · cases hp
    exact ⟨fun l hl => by simp [hl.eq_nil rfl], rfl⟩
  · cases hs
    refine ⟨.inl rfl, fun s hs => ?_⟩
    cases hs
    refine ⟨fun _ _ p hp => ?_, fun _ _ => trivial⟩
    cases hp
    exact ⟨fun l hl => by simp [hl.eq_nil rfl], rfl⟩

/-- Two connections at a time: the second `accept` inserts the object before
itself. -/
theorem not_keepsPool_udp :
    ¬ Along StrandConns.step KeepsPool udpStrand
      [.accept 0 (udpFlowop .accept 1) true, .accept 1 (udpFlowop .accept 2) true] := by
  rintro ⟨-, hrest⟩
  obtain ⟨hkeeps, -⟩ := hrest _ rfl
  obtain ⟨⟨l, hpool, -⟩, -⟩ := hkeeps _ _ rfl
  obtain ⟨hsegment, hnodup⟩ := hpool
  cases l with
  | nil => cases hsegment
  | cons p rest =>
      obtain ⟨hp, -, hrest⟩ := hsegment
      cases hp
      cases rest with
      | nil => cases hrest
      | cons q rest =>
          cases hrest.1
          simp at hnodup

end Uperf
