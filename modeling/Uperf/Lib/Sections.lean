import Mathlib.Data.List.Forall2
import Mathlib.Data.List.TakeWhile

/-!
# Lists read in sections

A list in which some elements begin a section and others end one.  A program
that reads it keeps the objects it has finished and the one that is open; the
objects it ends up with are, one by one, what the sections make of a new object.
-/

namespace Uperf.Lib

variable {α γ : Type*}

/-- The section that is open at the front of a list: the elements up to the next
one that begins or ends a section. -/
def openSection (begins ends : α → Bool) (list : List α) : List α :=
  list.takeWhile fun a => !(begins a || ends a)

/-- The sections of a list, without the elements that begin them. -/
def sections (begins ends : α → Bool) : List α → List (List α)
  | [] => []
  | a :: rest =>
      if begins a then openSection begins ends rest :: sections begins ends rest
      else sections begins ends rest

theorem mem_of_mem_sections {begins ends : α → Bool} {list body : List α} {a : α}
    (hbody : body ∈ sections begins ends list) (ha : a ∈ body) : a ∈ list := by
  induction list with
  | nil => cases hbody
  | cons head rest ih =>
      rw [sections] at hbody
      split at hbody
      · rcases List.mem_cons.mp hbody with rfl | hbody
        · exact List.mem_cons_of_mem head ((List.takeWhile_prefix _).subset ha)
        · exact List.mem_cons_of_mem head (ih hbody)
      · exact List.mem_cons_of_mem head (ih hbody)

/-- One element changes the finished objects and the open one to others. -/
inductive Reads (begins ends : α → Bool) (update : α → γ → γ) (fresh : γ → Prop) :
    α → List γ × Option γ → List γ × Option γ → Prop
  | begin_ {a : α} {closed : List γ} {curr : Option γ} {new : γ} (ha : begins a = true)
      (hnew : fresh new) : Reads begins ends update fresh a (closed, curr)
        (closed ++ curr.toList, some new)
  | end_ {a : α} {closed : List γ} {curr : Option γ} (ha : begins a = false)
      (hend : ends a = true) : Reads begins ends update fresh a (closed, curr)
        (closed ++ curr.toList, none)
  | inside {a : α} {closed : List γ} {curr : Option γ} (ha : begins a = false)
      (hend : ends a = false) : Reads begins ends update fresh a (closed, curr)
        (closed, curr.map (update a))

/-- One element after another. -/
inductive ReadsAll (begins ends : α → Bool) (update : α → γ → γ) (fresh : γ → Prop) :
    List α → List γ × Option γ → List γ × Option γ → Prop
  | nil {st : List γ × Option γ} : ReadsAll begins ends update fresh [] st st
  | cons {a : α} {rest : List α} {st st' st'' : List γ × Option γ}
      (hread : Reads begins ends update fresh a st st')
      (hrest : ReadsAll begins ends update fresh rest st' st'') :
      ReadsAll begins ends update fresh (a :: rest) st st''

/-- The object is what the section makes of a new one. -/
def MadeFrom (update : α → γ → γ) (fresh : γ → Prop) (obj : γ) (body : List α) : Prop :=
  ∃ new, fresh new ∧ obj = body.foldl (fun obj a => update a obj) new

variable {begins ends : α → Bool} {update : α → γ → γ} {fresh : γ → Prop}

/-- The objects in the end: those that were finished, the open one with the rest
of its section, and one for each section that begins. -/
theorem ReadsAll.objects {list : List α} {st st' : List γ × Option γ}
    (h : ReadsAll begins ends update fresh list st st') :
    ∃ made, List.Forall₂ (MadeFrom update fresh) made (sections begins ends list) ∧
      st'.1 ++ st'.2.toList = st.1 ++ (st.2.map fun obj =>
        (openSection begins ends list).foldl (fun obj a => update a obj) obj).toList ++ made := by
  induction h with
  | nil => exact ⟨[], .nil, by simp [openSection]⟩
  | @cons a rest st st' st'' hread _ ih =>
      obtain ⟨made, hmade, heq⟩ := ih
      cases hread with
      | @begin_ closed curr new ha hnew =>
          refine
            ⟨(openSection begins ends rest).foldl (fun obj a => update a obj) new :: made, ?_, ?_⟩
          · rw [sections, if_pos ha]
            exact .cons ⟨new, hnew, rfl⟩ hmade
          · rw [heq]
            simp [openSection, ha]
      | @end_ closed curr ha hend =>
          refine ⟨made, by simpa [sections, ha] using hmade, ?_⟩
          rw [heq]
          simp [openSection, hend]
      | @inside closed curr ha hend =>
          refine ⟨made, by simpa [sections, ha] using hmade, ?_⟩
          rw [heq]
          simp [openSection, ha, hend, Function.comp_def]

/-- From the start there is one object for each section. -/
theorem ReadsAll.objects_of_nil {list : List α} {st' : List γ × Option γ}
    (h : ReadsAll begins ends update fresh list ([], none) st') :
    List.Forall₂ (MadeFrom update fresh) (st'.1 ++ st'.2.toList) (sections begins ends list) := by
  obtain ⟨made, hmade, heq⟩ := h.objects
  simpa [heq] using hmade

/-- Two properties, of objects and of sections, that agree on what a section
makes, hold of all objects and of all sections alike. -/
theorem forall_iff_of_forall₂ {P : γ → Prop} {Q : List α → Prop} {objs : List γ}
    {bodies : List (List α)} (hall : List.Forall₂ (MadeFrom update fresh) objs bodies)
    (hiff : ∀ body ∈ bodies, ∀ obj, MadeFrom update fresh obj body → (P obj ↔ Q body)) :
    (∀ obj ∈ objs, P obj) ↔ ∀ body ∈ bodies, Q body := by
  induction hall with
  | nil => simp
  | @cons obj body objs bodies hmade _ ih =>
      rw [List.forall_mem_cons, List.forall_mem_cons, hiff body List.mem_cons_self obj hmade,
        ih fun body hbody => hiff body (List.mem_cons_of_mem _ hbody)]

end Uperf.Lib
