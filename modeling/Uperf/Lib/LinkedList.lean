import Mathlib.Data.List.Nodup
import Mathlib.Logic.Function.Basic

/-!
# Doubly linked lists

Nodes of a type `α` with a link to the next and one to the previous node.
`Represents links head l` says that the nodes from `head` on are those of `l`,
each once, and that the links back are right.  Inserting at the head and
unlinking a node patch the links as list code does, without resetting those of
the node that leaves, so a node that comes back needs care
(`exists_represents_push_iff`).
-/

namespace Uperf.Lib

structure Links (α : Type*) where
  next : α → Option α
  prev : α → Option α

namespace Links

variable {α : Type*}

/-- The nodes from `first` up to `after` are those of the list, and the node
before them is `before`. -/
def IsSegment (links : Links α) : Option α → Option α → List α → Option α → Prop
  | _, first, [], after => first = after
  | before, first, x :: rest, after =>
      first = some x ∧ links.prev x = before ∧
        links.IsSegment (some x) (links.next x) rest after

/-- The list at `head` is finite and has the nodes of `l`, each of them once. -/
structure Represents (links : Links α) (head : Option α) (l : List α) : Prop where
  isSegment : links.IsSegment none head l none
  nodup : l.Nodup

/-- The first node that satisfies `P`, or `none` for the end of the list, if the
walk takes at most `fuel` steps. -/
def walk (links : Links α) (P : α → Bool) : ℕ → Option α → Option (Option α)
  | _, none => some none
  | 0, some _ => none
  | fuel + 1, some x => if P x then some (some x) else links.walk P fuel (links.next x)

section

variable {links links' : Links α} {before head after : Option α} {l l' : List α} {x : α}

/-! ## Segments -/

theorem IsSegment.eq_of_isSegment (h : links.IsSegment before head l none) {before' : Option α}
    (h' : links.IsSegment before' head l' none) : l = l' := by
  induction l generalizing before head before' l' with
  | nil =>
      cases l' with
      | nil => rfl
      | cons y rest => exact absurd (h.symm.trans h'.1) (by simp)
  | cons x rest ih =>
      obtain ⟨rfl, -, hrest⟩ := h
      cases l' with
      | nil => cases h'
      | cons y rest' =>
          obtain ⟨hhead, -, hrest'⟩ := h'
          cases hhead
          rw [ih hrest hrest']

theorem Represents.unique (h : links.Represents head l) (h' : links.Represents head l') :
    l = l' :=
  h.isSegment.eq_of_isSegment h'.isSegment

/-- Segments only depend on the links of their nodes. -/
theorem IsSegment.congr (h : links.IsSegment before head l after)
    (hnext : ∀ y ∈ l, links'.next y = links.next y)
    (hprev : ∀ y ∈ l, links'.prev y = links.prev y) :
    links'.IsSegment before head l after := by
  induction l generalizing before head with
  | nil => exact h
  | cons x rest ih =>
      obtain ⟨hhead, hbefore, hrest⟩ := h
      refine ⟨hhead, (hprev x List.mem_cons_self).trans hbefore, ?_⟩
      rw [hnext x List.mem_cons_self]
      exact ih hrest (fun y hy => hnext y (List.mem_cons_of_mem x hy))
        fun y hy => hprev y (List.mem_cons_of_mem x hy)

theorem Represents.congr (h : links.Represents head l)
    (hnext : ∀ y ∈ l, links'.next y = links.next y)
    (hprev : ∀ y ∈ l, links'.prev y = links.prev y) : links'.Represents head l :=
  ⟨h.isSegment.congr hnext hprev, h.nodup⟩

theorem Represents.nil : links.Represents none [] := ⟨rfl, List.nodup_nil⟩

theorem IsSegment.head_eq (h : links.IsSegment before head l none) : head = l.head? := by
  cases l with
  | nil => exact h
  | cons x rest => exact h.1

/-- A segment in two parts. -/
theorem isSegment_append {first second : List α} :
    links.IsSegment before head (first ++ second) after ↔
      ∃ mid, links.IsSegment before head first mid ∧
        links.IsSegment (first.getLast?.or before) mid second after := by
  induction first generalizing before head with
  | nil =>
      constructor
      · exact fun h => ⟨head, rfl, h⟩
      · rintro ⟨mid, rfl, h⟩
        exact h
  | cons y first ih =>
      have hlast : (y :: first).getLast?.or before = first.getLast?.or (some y) := by
        cases first with
        | nil => rfl
        | cons z first => simp [List.getLast?_cons]
      rw [List.cons_append, hlast]
      simp only [IsSegment, ih]
      constructor
      · rintro ⟨hhead, hprev, mid, hfirst, hsecond⟩
        exact ⟨mid, ⟨hhead, hprev, hfirst⟩, hsecond⟩
      · rintro ⟨mid, ⟨hhead, hprev, hfirst⟩, hsecond⟩
        exact ⟨hhead, hprev, mid, hfirst, hsecond⟩

/-- A node after the first one has a node before it. -/
theorem IsSegment.prev_ne_none (h : links.IsSegment before head l after)
    (hbefore : before ≠ none) (hx : x ∈ l) : links.prev x ≠ none := by
  induction l generalizing before head with
  | nil => cases hx
  | cons y rest ih =>
      obtain ⟨-, hprev, hrest⟩ := h
      rcases List.mem_cons.mp hx with rfl | hx
      · rw [hprev]
        exact hbefore
      · exact ih hrest (by simp) hx

/-! ## Walking -/

/-- A walk over a list finds what the list says. -/
theorem IsSegment.walk_eq (h : links.IsSegment before head l none) (P : α → Bool) {fuel : ℕ}
    (hfuel : l.length ≤ fuel) : links.walk P fuel head = some (l.find? P) := by
  induction l generalizing before head fuel with
  | nil =>
      rw [show head = none from h]
      cases fuel <;> rfl
  | cons x rest ih =>
      obtain ⟨rfl, -, hrest⟩ := h
      cases fuel with
      | zero => simp at hfuel
      | succ fuel =>
          rw [walk, List.find?_cons]
          by_cases hx : P x = true
          · simp [hx]
          · simp only [hx, if_false, Bool.false_eq_true]
            exact ih hrest (Nat.le_of_succ_le_succ hfuel)

end

/-! ## Inserting at the head -/

section

variable [DecidableEq α]

/-- The node `x` becomes the new head. -/
def push (links : Links α) (head : Option α) (x : α) : Links α where
  next := Function.update links.next x head
  prev :=
    match head with
    | none => links.prev
    | some h => Function.update links.prev h (some x)

variable {links : Links α} {head : Option α} {l : List α} {x : α}

theorem Represents.push (h : links.Represents head l) (hx : x ∉ l)
    (hprev : links.prev x = none) : (links.push head x).Represents (some x) (x :: l) := by
  refine ⟨?_, List.nodup_cons.mpr ⟨hx, h.nodup⟩⟩
  have hnext : ∀ y ∈ l, (links.push head x).next y = links.next y := fun y hy =>
    Function.update_of_ne (fun heq => hx (by rwa [← heq])) _ _
  have hself : (links.push head x).next x = head := Function.update_self _ _ _
  cases l with
  | nil =>
      obtain rfl : head = none := h.isSegment
      exact ⟨rfl, hprev, hself⟩
  | cons y rest =>
      obtain ⟨⟨rfl, -, hrest⟩, hnodup⟩ := h
      have hyx : x ≠ y := fun heq => hx (by simp [heq])
      have hy : y ∉ rest := (List.nodup_cons.mp hnodup).1
      refine ⟨rfl, ?_, hself, Function.update_self _ _ _, ?_⟩
      · simp only [Links.push, Function.update_of_ne hyx]
        exact hprev
      · rw [hnext y List.mem_cons_self]
        refine hrest.congr (fun z hz => hnext z (List.mem_cons_of_mem y hz)) fun z hz => ?_
        exact Function.update_of_ne (fun heq => hy (by rwa [← heq])) _ _

/-- Inserting a node gives a list again exactly when it is not in the list and
has no node before it from an earlier time. -/
theorem exists_represents_push_iff (h : links.Represents head l) :
    (∃ l', (links.push head x).Represents (some x) l') ↔ x ∉ l ∧ links.prev x = none := by
  constructor
  · rintro ⟨l', hl'⟩
    have hhead : (links.push head x).prev x = none := by
      cases l' with
      | nil => cases hl'.isSegment
      | cons y rest =>
          obtain ⟨hy, hprev, -⟩ := hl'.isSegment
          cases hy
          exact hprev
    cases l with
    | nil =>
        obtain rfl : head = none := h.isSegment
        exact ⟨List.not_mem_nil, hhead⟩
    | cons y rest =>
        obtain ⟨⟨rfl, -, hrest⟩, -⟩ := h
        have hxy : x ≠ y := by
          rintro rfl
          simp [push] at hhead
        have hprev : links.prev x = none := by
          simpa only [push, Function.update_of_ne hxy] using hhead
        refine ⟨fun hx => ?_, hprev⟩
        rcases List.mem_cons.mp hx with heq | hx
        · exact hxy heq
        · exact hrest.prev_ne_none (by simp) hx hprev
  · rintro ⟨hx, hprev⟩
    exact ⟨_, h.push hx hprev⟩

/-! ## Unlinking -/

/-- The neighbours of `x` are linked to each other. -/
def unlink (links : Links α) (x : α) : Links α where
  next :=
    match links.prev x with
    | none => links.next
    | some p => Function.update links.next p (links.next x)
  prev :=
    match links.next x with
    | none => links.prev
    | some n => Function.update links.prev n (links.prev x)

/-- The head after `x` has been unlinked. -/
def unlinkHead (links : Links α) (head : Option α) (x : α) : Option α :=
  if head = some x then links.next x else head

/-- The last node of a segment is linked to another node. -/
theorem IsSegment.update_next {before after : Option α} {first : List α} {p : α}
    (h : links.IsSegment before head (first ++ [p]) after) (hp : p ∉ first)
    (after' : Option α) :
    ({ links with next := Function.update links.next p after' } : Links α).IsSegment before head
      (first ++ [p]) after' := by
  obtain ⟨mid, hfirst, rfl, hprev, -⟩ := isSegment_append.mp h
  refine isSegment_append.mpr ⟨_, ?_, rfl, hprev, Function.update_self _ _ _⟩
  refine hfirst.congr (fun y hy => ?_) fun _ _ => rfl
  exact Function.update_of_ne (fun heq => hp (by rwa [← heq])) _ _

/-- The nodes before `x` now lead to the one after it. -/
theorem isSegment_unlink_before {first rest : List α}
    (hfirst : links.IsSegment none head first (some x)) (hprev : links.prev x = first.getLast?)
    (hnext : links.next x = rest.head?) (hnodup : (first ++ x :: rest).Nodup) :
    (links.unlink x).IsSegment none (links.unlinkHead head x) first (links.next x) := by
  obtain ⟨hnodupFirst, -, hdisjoint⟩ := List.nodup_append.mp hnodup
  -- the link back that changes is one of a later node
  have hback : ∀ y ∈ first, (links.unlink x).prev y = links.prev y := by
    intro y hy
    simp only [unlink, hnext]
    cases rest with
    | nil => rfl
    | cons z rest =>
        exact Function.update_of_ne (hdisjoint y hy z (by simp)) _ _
  rcases List.eq_nil_or_concat' first with rfl | ⟨init, p, rfl⟩
  · obtain rfl : head = some x := hfirst
    exact if_pos rfl
  · rw [List.getLast?_concat] at hprev
    have hp : p ∉ init := by
      intro hp
      exact (List.nodup_append.mp hnodupFirst).2.2 p hp p List.mem_cons_self rfl
    have hhead : links.unlinkHead head x = head := by
      refine if_neg fun heq => ?_
      have hmem : x ∈ init ++ [p] := by
        cases init with
        | nil =>
            obtain ⟨hp', -⟩ := hfirst
            simp [Option.some.inj (heq.symm.trans hp')]
        | cons y init =>
            obtain ⟨hy, -⟩ := hfirst
            simp [Option.some.inj (heq.symm.trans hy)]
      exact hdisjoint x hmem x List.mem_cons_self rfl
    rw [hhead]
    refine (hfirst.update_next hp (links.next x)).congr (fun y _ => ?_) hback
    simp only [unlink, hprev]

/-- The nodes after `x` follow the one before it. -/
theorem isSegment_unlink_after {first rest : List α}
    (hprev : links.prev x = first.getLast?)
    (hrest : links.IsSegment (some x) (links.next x) rest none)
    (hnodup : (first ++ x :: rest).Nodup) :
    (links.unlink x).IsSegment first.getLast? (links.next x) rest none := by
  obtain ⟨-, hnodupRest, hdisjoint⟩ := List.nodup_append.mp hnodup
  have hforward : ∀ y ∈ rest, (links.unlink x).next y = links.next y := by
    intro y hy
    cases hlast : first.getLast? with
    | none => simp only [unlink, hprev, hlast]
    | some p =>
        simp only [unlink, hprev, hlast]
        exact Function.update_of_ne
          (hdisjoint p (List.mem_of_getLast? hlast) y (List.mem_cons_of_mem x hy)).symm _ _
  cases rest with
  | nil => exact hrest
  | cons z rest =>
      obtain ⟨hnext, -, htail⟩ := hrest
      have hz : z ∉ rest := (List.nodup_cons.mp (List.nodup_cons.mp hnodupRest).2).1
      have hback : ∀ y, (links.unlink x).prev y =
          Function.update links.prev z first.getLast? y := by
        intro y
        simp only [unlink, hnext, hprev]
      refine ⟨hnext, ?_, ?_⟩
      · rw [hback, Function.update_self]
      · rw [hforward z List.mem_cons_self]
        refine htail.congr (fun y hy => hforward y (List.mem_cons_of_mem z hy)) fun y hy => ?_
        rw [hback, Function.update_of_ne fun heq => hz (by rwa [← heq])]

/-- Unlinking takes one node out of the list. -/
theorem Represents.unlink {first rest : List α}
    (h : links.Represents head (first ++ x :: rest)) :
    (links.unlink x).Represents (links.unlinkHead head x) (first ++ rest) := by
  obtain ⟨hsegment, hnodup⟩ := h
  obtain ⟨mid, hfirst, rfl, hprev, hrest⟩ := isSegment_append.mp hsegment
  rw [Option.or_none] at hprev
  refine ⟨isSegment_append.mpr ⟨links.next x, ?_, ?_⟩, ?_⟩
  · exact isSegment_unlink_before hfirst hprev hrest.head_eq hnodup
  · rw [Option.or_none]
    exact isSegment_unlink_after hprev hrest hnodup
  · exact (List.nodup_cons.mp (List.nodup_middle.mp hnodup)).2

end

end Links

end Uperf.Lib
