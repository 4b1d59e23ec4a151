import Mathlib.Data.List.Find
import Uperf.Strand.Pool

/-!
# The cache of a strand

`strand_get_connection` looks into the cache before it walks over the pool.  The
two agree as long as the cache has, for each number in it, the connection that
the walk would find (`Coherent`).  Deleting flushes the cache, but inserting does
not: a connection with a number that is in the cache hides behind the older one
(`transparent_iff`).
-/

namespace Uperf

open Lib

/-- A lookup finds what the walk over the pool finds. -/
def StrandConns.Transparent (s : StrandConns) : Prop :=
  ∀ id, 0 ≤ id → (strandGetConnection s id).map Prod.fst = s.scan id

/-- The cache has the first connections of the pool for the numbers `valid`. -/
def StrandConns.Coherent (s : StrandConns) (valid : Int32 → Prop) (l : List ℕ) : Prop :=
  ∀ i < s.ccacheSize, ∀ p, s.ccache i = some p → valid (s.objs p).pId →
    l.find? (s.hasId (s.objs p).pId) = some p

section

variable {s s' : StrandConns} {valid : Int32 → Prop} {l : List ℕ} {p : ℕ} {id : Int32}

theorem StrandConns.Coherent.cached (h : s.Coherent valid l) (hvalid : valid id) (hid : id ≠ -1)
    (hcached : s.cached id = some p) : l.find? (s.hasId id) = some p := by
  obtain ⟨⟨i, hi, hslot⟩, hany⟩ := StrandConns.cached_eq_some hcached
  have hnumber : (s.objs p).pId = id := hany.resolve_right hid
  rw [← hnumber]
  exact h i hi p hslot (by rwa [hnumber])

/-- A coherent cache is transparent for its numbers other than -1, which stands
for any connection there. -/
theorem StrandConns.Coherent.lookup (h : s.Coherent valid l) (htidy : s.Tidy l)
    (hvalid : valid id) (hid : id ≠ -1) :
    (strandGetConnection s id).map Prod.fst = s.scan id := by
  rw [htidy.scan]
  rcases htidy.get_cases id with ⟨hget, hne⟩ | ⟨hget, hfind⟩ | ⟨p, hget, -, hfind⟩
  · obtain ⟨p, hp⟩ := Option.ne_none_iff_exists'.mp hne
    rw [hget, hp, h.cached hvalid hid hp]
    rfl
  · rw [hget, hfind]
    rfl
  · rw [hget, hfind]
    rfl

/-- A lookup keeps the cache coherent. -/
theorem StrandConns.Coherent.get (h : s.Coherent valid l) (htidy : s.Tidy l) (id : Int32)
    {p : Option ℕ} (hget : strandGetConnection s id = some (p, s')) : s'.Coherent valid l := by
  rcases htidy.get_cases id with ⟨hget', -⟩ | ⟨hget', -⟩ | ⟨c, hget', -, hfind⟩
  · cases hget.symm.trans hget'
    exact h
  · cases hget.symm.trans hget'
    exact h
  · cases hget.symm.trans hget'
    have hsame := strandPutConnectionInCache_same (s := s) c
    intro i hi q hq hpos
    rw [hsame.objs] at hpos ⊢
    rw [hsame.hasId]
    rcases (strandPutConnectionInCache_slots htidy.cacheSize c).2 i hi with hnew | ⟨hi', hold⟩
    · rw [hnew] at hq
      cases hq
      have hnumber : (s.objs c).pId = id := by
        simpa [hasId] using List.find?_some hfind
      rw [hnumber]
      exact hfind
    · exact h i hi' q (hold ▸ hq) hpos

/-- Inserting a connection whose number is not in the cache keeps it coherent. -/
theorem StrandConns.Coherent.addNew (h : s.Coherent valid l) (htidy : s.Tidy l)
    (obj : ProtocolObj) (hnew : valid obj.pId → s.cached obj.pId = none) :
    (strandAddConnection (s.allocate obj) s.allocated).Coherent valid (s.allocated :: l) := by
  intro i hi p hp hpos
  have hmem : p ∈ l := htidy.cached i hi p hp
  have hne : ∀ q ∈ l, q ≠ s.allocated := fun q hq => (htidy.inside q hq).ne
  have hobj : ∀ q, q ≠ s.allocated → (s.allocate obj).objs q = s.objs q :=
    (htidy.allocate obj).2.2.2
  have hp' : (strandAddConnection (s.allocate obj) s.allocated).objs p = s.objs p :=
    hobj p (hne p hmem)
  rw [hp'] at hpos ⊢
  have hslot : s.ccache i = some p := hp
  have hnumber : (s.objs p).pId ≠ obj.pId := by
    intro heq
    have hnone := hnew (by rwa [← heq])
    have hcached := List.findSome?_eq_none_iff.mp hnone i (List.mem_range.mpr hi)
    simp [hslot, heq] at hcached
  have hself : (s.allocate obj).objs s.allocated = obj := Function.update_self _ _ _
  have hother : ¬ (strandAddConnection (s.allocate obj) s.allocated).hasId (s.objs p).pId
      s.allocated = true := by
    simpa [hasId, strandAddConnection, hself] using hnumber.symm
  rw [List.find?_cons_of_neg hother, ← h i hi p hslot hpos]
  refine List.find?_congr fun q hq => ?_
  simp only [hasId, strandAddConnection, hobj q (hne q hq)]

theorem findSome?_congr {α β : Type*} {f g : α → Option β} {items : List α}
    (hsame : ∀ x ∈ items, f x = g x) : items.findSome? f = items.findSome? g := by
  induction items with
  | nil => rfl
  | cons x rest ih =>
      rw [List.findSome?_cons, List.findSome?_cons, hsame x List.mem_cons_self,
        ih fun y hy => hsame y (List.mem_cons_of_mem x hy)]

/-- A flushed cache is coherent. -/
theorem StrandConns.Coherent.of_flushed (hsize : s.ccacheSize = 0) : s.Coherent valid l := by
  intro i hi
  rw [hsize] at hi
  exact absurd hi (Nat.not_lt_zero i)

/-- A connection inserted with a number that is in the cache hides behind the
older one: the walk finds it, the cache does not. -/
theorem StrandConns.Tidy.hides (htidy : s.Tidy l) (obj : ProtocolObj)
    (hcached : s.cached obj.pId = some p) :
    p ∈ l ∧ (strandAddConnection (s.allocate obj) s.allocated).cached obj.pId = some p ∧
      (strandAddConnection (s.allocate obj) s.allocated).scan obj.pId =
        some (some s.allocated) := by
  have hne : ∀ q ∈ l, q ≠ s.allocated := fun q hq => (htidy.inside q hq).ne
  refine ⟨?_, ?_, ?_⟩
  · obtain ⟨⟨i, hi, hslot⟩, -⟩ := StrandConns.cached_eq_some hcached
    exact htidy.cached i hi p hslot
  · rw [← hcached]
    unfold StrandConns.cached
    refine findSome?_congr fun i hi => ?_
    cases hslot : s.ccache i with
    | none => simp [strandAddConnection, StrandConns.allocate, hslot]
    | some q =>
        have hq := hne q (htidy.cached i (List.mem_range.mp hi) q hslot)
        simp [strandAddConnection, StrandConns.allocate, hslot, Function.update_of_ne hq]
  · have hself : (s.allocate obj).objs s.allocated = obj := Function.update_self _ _ _
    rw [(htidy.addNew obj).scan, List.find?_cons_of_pos]
    simp [hasId, strandAddConnection, hself]

theorem StrandConns.Tidy.not_transparent (htidy : s.Tidy l) (obj : ProtocolObj)
    (hpos : 0 ≤ obj.pId) (hcached : s.cached obj.pId = some p) :
    ¬ (strandAddConnection (s.allocate obj) s.allocated).Transparent := by
  intro htransparent
  obtain ⟨hmem, hsame, hscan⟩ := htidy.hides obj hcached
  have hget := htransparent obj.pId hpos
  rw [strandGetConnection, if_neg (by simp [strandAddConnection]), hsame, hscan] at hget
  have heq : p = s.allocated := by simpa using hget
  exact (htidy.inside p hmem).ne heq

end

/-! ## Sequences of calls -/

/-- The calls of `strand.c`, the insertion with a new connection, and the moves
of the shared cursor by other strands. -/
inductive PoolCall
  | add (id : Int32)
  | get (id : Int32)
  | delete (id : Int32)
  | others (cursor : Fin strandConnectionCacheSize)

/-- The strand after the call. -/
def StrandConns.call (s : StrandConns) : PoolCall → Option StrandConns
  | .add id => some (strandAddConnection (s.allocate { pId := id, opened := true }) s.allocated)
  | .get id => (strandGetConnection s id).map Prod.snd
  | .delete id => (strandDeleteConnection s id).map Prod.snd
  | .others cursor => some { s with currentReplacement := cursor }

/-- No connection is inserted with a number that is in the cache. -/
def AddsUncached (s : StrandConns) (call : PoolCall) : Prop :=
  ∀ id, call = .add id → 0 ≤ id → s.cached id = none

section

variable {s s' : StrandConns}

/-- The cache is coherent with the pool. -/
def StrandConns.Orderly (s : StrandConns) : Prop := ∃ l, s.Tidy l ∧ s.Coherent (0 ≤ ·) l

theorem StrandConns.Fresh.orderly (h : s.Fresh) : s.Orderly :=
  ⟨[], h.tidy, .of_flushed h.ccacheSize⟩

theorem StrandConns.Orderly.transparent (h : s.Orderly) : s.Transparent := by
  obtain ⟨l, htidy, hcoherent⟩ := h
  intro id hid
  refine hcoherent.lookup htidy hid ?_
  rintro rfl
  exact absurd hid (by decide)

theorem StrandConns.Orderly.call (h : s.Orderly) {call : PoolCall}
    (huncached : AddsUncached s call) (hcall : s.call call = some s') : s'.Orderly := by
  obtain ⟨l, htidy, hcoherent⟩ := h
  cases call with
  | add id =>
      cases hcall
      exact ⟨_, htidy.addNew _, hcoherent.addNew htidy _ (huncached id rfl)⟩
  | get id =>
      obtain ⟨p, s₁, hget, -, htidy', -⟩ := htidy.get id
      rw [StrandConns.call, hget] at hcall
      cases hcall
      exact ⟨l, htidy', hcoherent.get htidy id hget⟩
  | delete id =>
      cases hfind : l.find? (s.hasId id) with
      | none =>
          rw [StrandConns.call, htidy.delete_none hfind] at hcall
          cases hcall
          exact ⟨l, htidy, hcoherent⟩
      | some p =>
          obtain ⟨hdelete, first, rest, -, hremoved⟩ := htidy.delete_some hfind
          rw [StrandConns.call, hdelete] at hcall
          cases hcall
          exact ⟨_, hremoved, .of_flushed rfl⟩
  | others cursor =>
      cases hcall
      exact ⟨l, htidy.congr _ _, hcoherent⟩

/-- Along every sequence of calls on a strand, lookups made at any time agree
with a walk over the pool exactly when no connection is inserted with a number
that is in the cache. -/
theorem transparent_iff (hs : s.Fresh) (calls : List PoolCall) :
    Along StrandConns.call (fun s call => ∀ s', s.call call = some s' → s'.Transparent) s calls ↔
      Along StrandConns.call AddsUncached s calls := by
  refine along_iff_of StrandConns.Orderly ?_ ?_ hs.orderly
  · intro s call _ h
    constructor
    · rintro htransparent id rfl hpos
      obtain ⟨l, htidy, -⟩ := h
      by_contra hcached
      obtain ⟨p, hp⟩ := Option.ne_none_iff_exists'.mp hcached
      exact htidy.not_transparent { pId := id, opened := true } hpos hp (htransparent _ rfl)
    · exact fun huncached s' hcall => (h.call huncached hcall).transparent
  · exact fun s call _ s' h huncached hcall => h.call huncached hcall

end

/-! ## Connections with one number -/

/-- Connections with the numbers 1 and 2, and a second one with the number 1
after the first has been deleted. -/
theorem transparent_iff_reused :
    Along StrandConns.call (fun s call => ∀ s', s.call call = some s' → s'.Transparent) {}
      [.add 1, .get 1, .add 2, .delete 1, .add 1] := by
  have hs : ({} : StrandConns).Fresh := ⟨rfl, rfl, by simp, fun _ => rfl⟩
  refine (transparent_iff hs _).mpr ⟨fun _ _ _ => rfl, fun s hs => ?_⟩
  cases hs
  refine ⟨by simp [AddsUncached], fun s hs => ?_⟩
  cases hs
  refine ⟨fun id hid _ => ?_, fun s hs => ?_⟩
  · cases hid
    rfl
  · cases hs
    refine ⟨by simp [AddsUncached], fun s hs => ?_⟩
    cases hs
    refine ⟨fun id hid _ => ?_, fun _ _ => trivial⟩
    cases hid
    rfl

/-- The second connection with the number 1 is not found after a lookup of the
first. -/
theorem not_transparent_repeated : ∃ s,
    run StrandConns.call {} [.add 1, .get 1, .add 1] = some s ∧
      (strandGetConnection s 1).map Prod.fst = some (some 0) ∧ s.scan 1 = some (some 1) ∧
      ¬ s.Transparent := by
  have hget : (run StrandConns.call {} [.add 1, .get 1, .add 1]).map (fun s =>
      ((strandGetConnection s 1).map Prod.fst, s.scan 1)) =
        some (some (some 0), some (some 1)) := by rfl
  obtain ⟨s, hs, hseen⟩ := Option.map_eq_some_iff.mp hget
  obtain ⟨hfound, hscan⟩ := Prod.mk.inj hseen
  refine ⟨s, hs, hfound, hscan, fun htransparent => ?_⟩
  have hsame := htransparent 1 (by decide)
  rw [hfound, hscan] at hsame
  cases hsame

end Uperf
