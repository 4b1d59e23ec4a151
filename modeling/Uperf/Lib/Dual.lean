import Mathlib.Data.List.Basic
import Mathlib.Logic.Function.Basic

/-!
# Two parties with dual scripts

Each of two parties follows a script of acts: it puts items into queues that lead
to the other party, or takes items from the queues that lead to itself, one queue
for each key.  When one script is the dual of the other (a `put` where the other
has a `take`), and whatever the order of the steps, one of the two leads: it has
done what the other has not yet done, none of that needs an item from the other,
and the queues hold exactly what it has put there (`Exchange.Leads`).  So each item
taken is the one that the script expects, somebody can always go on, and the
queues are empty when both have got equally far.
-/

namespace Uperf.Lib

/-- A type with two elements. -/
class TwoSides (σ : Type*) where
  other : σ → σ
  other_other : ∀ s, other (other s) = s
  other_ne : ∀ s, other s ≠ s
  eq_or : ∀ s t : σ, t = s ∨ t = other s

open TwoSides

attribute [simp] TwoSides.other_other TwoSides.other_ne

/-- What a party does next.  A `take` says which item it expects. -/
inductive Act (κ α : Type*)
  | put (key : κ) (item : α)
  | take (key : κ) (item : α)
deriving DecidableEq

variable {σ κ α : Type*}

namespace Act

def dual : Act κ α → Act κ α
  | put key item => take key item
  | take key item => put key item

@[simp] theorem dual_dual (act : Act κ α) : act.dual.dual = act := by cases act <;> rfl

@[simp] theorem dual_put (key : κ) (item : α) : (put key item).dual = take key item := rfl

@[simp] theorem dual_take (key : κ) (item : α) : (take key item).dual = put key item := rfl

theorem map_dual_map_dual (acts : List (Act κ α)) : (acts.map dual).map dual = acts := by
  simp [Function.comp_def]

/-- The items that the acts put into a queue. -/
def puts [DecidableEq κ] (key : κ) (acts : List (Act κ α)) : List α :=
  acts.filterMap fun
    | put key' item => if key' = key then some item else none
    | take _ _ => none

variable [DecidableEq κ] {key : κ} {item : α} {acts : List (Act κ α)}

@[simp] theorem puts_nil : puts key ([] : List (Act κ α)) = [] := rfl

@[simp] theorem puts_append (acts' : List (Act κ α)) :
    puts key (acts ++ acts') = puts key acts ++ puts key acts' :=
  List.filterMap_append

theorem puts_cons_put (key' : κ) :
    puts key (put key' item :: acts) = if key' = key then item :: puts key acts
      else puts key acts := by
  unfold puts
  by_cases h : key' = key
  · simp [h]
  · simp [h]

end Act

/-- What the parties have still to do, and what is on its way to each of them. -/
structure Exchange (σ κ α : Type*) where
  script : σ → List (Act κ α)
  queue : σ → κ → List α

namespace Exchange

section

variable [DecidableEq σ] (st : Exchange σ κ α) (s : σ)

def setQueue [DecidableEq κ] (key : κ) (items : List α) : Exchange σ κ α :=
  { st with
    queue := Function.update st.queue s (Function.update (st.queue s) key items) }

def setScript (acts : List (Act κ α)) : Exchange σ κ α :=
  { st with script := Function.update st.script s acts }

variable (t : σ) (key : κ) (items : List α) (acts : List (Act κ α))

@[simp] theorem queue_setScript : (st.setScript s acts).queue = st.queue := rfl

@[simp] theorem script_setScript_self : (st.setScript s acts).script s = acts :=
  Function.update_self ..

@[simp] theorem setScript_setScript (acts' : List (Act κ α)) :
    (st.setScript s acts').setScript s acts = st.setScript s acts := by
  simp [setScript]

theorem setScript_script : st.setScript s (st.script s) = st := by
  simp [setScript]

@[simp] theorem script_setScript_other [TwoSides σ] :
    (st.setScript s acts).script (other s) = st.script (other s) :=
  Function.update_of_ne (other_ne s) ..

variable [DecidableEq κ]

@[simp] theorem script_setQueue : (st.setQueue s key items).script = st.script := rfl

@[simp] theorem queue_setQueue_self : (st.setQueue s key items).queue s key = items := by
  simp [setQueue]

@[simp] theorem setQueue_setQueue (items' : List α) :
    (st.setQueue s key items').setQueue s key items = st.setQueue s key items := by
  simp [setQueue]

theorem setQueue_queue : st.setQueue s key (st.queue s key) = st := by
  simp [setQueue]

theorem setScript_setQueue :
    (st.setQueue t key items).setScript s acts = (st.setScript s acts).setQueue t key items := rfl

theorem queue_setQueue_key (key' : κ) :
    (st.setQueue s key items).queue s key' = if key' = key then items else st.queue s key' := by
  simp [setQueue, Function.update_apply]

theorem queue_setQueue (key' : κ) :
    (st.setQueue s key items).queue t key' =
      if t = s ∧ key' = key then items else st.queue t key' := by
  by_cases hts : t = s
  · subst hts
    simp [queue_setQueue_key]
  · simp [setQueue, hts]

variable [TwoSides σ]

@[simp] theorem queue_setQueue_other :
    (st.setQueue s key items).queue (other s) = st.queue (other s) :=
  Function.update_of_ne (other_ne s) ..

@[simp] theorem queue_setQueue_of_other :
    (st.setQueue (other s) key items).queue s = st.queue s :=
  Function.update_of_ne (other_ne s).symm ..

end

section

variable [TwoSides σ] [DecidableEq κ] [DecidableEq σ]

/-- The party `s` does its next act. -/
def step (st : Exchange σ κ α) (s : σ) : Option (Exchange σ κ α) :=
  match st.script s with
  | [] => none
  | .put key item :: rest =>
      some ((st.setScript s rest).setQueue (other s) key (st.queue (other s) key ++ [item]))
  | .take key _ :: rest =>
      match st.queue s key with
      | [] => none
      | _ :: items => some ((st.setScript s rest).setQueue s key items)

/-- The party `s` does its next `n` acts. -/
def steps (st : Exchange σ κ α) (s : σ) : ℕ → Option (Exchange σ κ α)
  | 0 => some st
  | n + 1 => (st.step s).bind fun st' => st'.steps s n

end

section

variable [TwoSides σ] [DecidableEq κ] {st st' : Exchange σ κ α} {s : σ}

/-! ## Who leads -/

/-- The party `s` has done the acts of `gap`, which the other party has still to
do: it took nothing there, and what it put is on its way. -/
structure LeadsBy (st : Exchange σ κ α) (s : σ) (gap : List (Act κ α)) : Prop where
  script : st.script (other s) = (gap ++ st.script s).map Act.dual
  free : ∀ key item, Act.take key item ∉ gap
  queue : ∀ key, st.queue (other s) key = Act.puts key gap
  empty : ∀ key, st.queue s key = []

/-- The scripts are dual, but for what one of the parties has done before the other. -/
def Linked (st : Exchange σ κ α) : Prop := ∃ s gap, st.LeadsBy s gap

theorem LeadsBy.swap (h : st.LeadsBy s []) : st.LeadsBy (other s) [] where
  script := by
    rw [other_other, List.nil_append, h.script, List.nil_append, Act.map_dual_map_dual]
  free := by simp
  queue key := by
    rw [other_other]
    exact h.empty key
  empty := h.queue

/-- Either the party leads, or the other one does by something. -/
theorem Linked.cases (h : st.Linked) (s : σ) :
    (∃ gap, st.LeadsBy s gap) ∨ ∃ key item gap, st.LeadsBy (other s) (.put key item :: gap) := by
  obtain ⟨t, gap, hlead⟩ := h
  rcases eq_or s t with rfl | rfl
  · exact .inl ⟨gap, hlead⟩
  · cases gap with
    | nil =>
        have hswap := hlead.swap
        rw [other_other] at hswap
        exact .inl ⟨[], hswap⟩
    | cons act gap =>
        cases act with
        | put key item => exact .inr ⟨key, item, gap, hlead⟩
        | take key item => exact absurd List.mem_cons_self (hlead.free key item)

/-- A party that is about to put something leads. -/
theorem Linked.leads_of_put (h : st.Linked) {key : κ} {item : α} {rest : List (Act κ α)}
    (hscript : st.script s = .put key item :: rest) : ∃ gap, st.LeadsBy s gap := by
  refine (h.cases s).resolve_right ?_
  rintro ⟨key', item', gap, hlead⟩
  have hdual := hlead.script
  rw [other_other, hscript] at hdual
  cases (List.cons.inj hdual).1

/-- What a party is about to put, the other has still to take. -/
theorem Linked.mem_other_of_put (h : st.Linked) {key : κ} {item : α} {rest : List (Act κ α)}
    (hscript : st.script s = .put key item :: rest) :
    Act.take key item ∈ st.script (other s) := by
  obtain ⟨gap, hlead⟩ := h.leads_of_put hscript
  rw [hlead.script, hscript]
  exact List.mem_map.mpr ⟨.put key item, by simp, rfl⟩

/-- A party that has something on its way to it finds what it expects, if it is
about to take something there. -/
theorem Linked.head_eq_of_take (h : st.Linked) {key : κ} {item item' : α}
    {rest : List (Act κ α)} {items : List α} (hscript : st.script s = .take key item :: rest)
    (hqueue : st.queue s key = item' :: items) : item' = item := by
  rcases h.cases s with ⟨gap, hlead⟩ | ⟨key', item'', gap, hlead⟩
  · rw [hlead.empty] at hqueue
    cases hqueue
  · have hdual := hlead.script
    rw [other_other, hscript] at hdual
    obtain ⟨rfl, rfl⟩ := Act.take.inj (List.cons.inj hdual).1
    have hputs := hlead.queue key
    rw [other_other, hqueue, Act.puts_cons_put, if_pos rfl] at hputs
    exact (List.cons.inj hputs).1

end

/-! ## Steps -/

section

variable [TwoSides σ] [DecidableEq κ] [DecidableEq σ] {st st' : Exchange σ κ α} {s : σ}

theorem steps_one (h : st.step s = some st') : st.steps s 1 = some st' := by
  rw [steps, h]
  rfl

theorem step_put {key : κ} {item : α} {rest : List (Act κ α)}
    (hscript : st.script s = .put key item :: rest) :
    st.step s = some ((st.setScript s rest).setQueue (other s) key
      (st.queue (other s) key ++ [item])) := by
  simp only [step, hscript]

theorem step_take {key : κ} {item item' : α} {rest : List (Act κ α)} {items : List α}
    (hscript : st.script s = .take key item :: rest) (hqueue : st.queue s key = item' :: items) :
    st.step s = some ((st.setScript s rest).setQueue s key items) := by
  simp only [step, hscript, hqueue]

/-- What a step does. -/
theorem step_cases (h : st.step s = some st') :
    (∃ key item rest, st.script s = .put key item :: rest ∧
      st' = (st.setScript s rest).setQueue (other s) key (st.queue (other s) key ++ [item])) ∨
    ∃ key item rest item' items, st.script s = .take key item :: rest ∧
      st.queue s key = item' :: items ∧ st' = (st.setScript s rest).setQueue s key items := by
  unfold step at h
  split at h
  · cases h
  · rename_i key item rest hscript
    cases h
    exact .inl ⟨key, item, rest, hscript, rfl⟩
  · rename_i key item rest hscript
    split at h
    · cases h
    · rename_i item' items hqueue
      cases h
      exact .inr ⟨key, item, rest, item', items, hscript, hqueue, rfl⟩

theorem LeadsBy.put {gap : List (Act κ α)} (h : st.LeadsBy s gap) {key : κ} {item : α}
    {rest : List (Act κ α)} (hscript : st.script s = .put key item :: rest) :
    ((st.setScript s rest).setQueue (other s) key (st.queue (other s) key ++ [item])).LeadsBy s
      (gap ++ [.put key item]) where
  script := by
    simp [h.script, hscript]
  free key' item' hmem := by
    rcases List.mem_append.mp hmem with hmem | hmem
    · exact h.free key' item' hmem
    · cases List.mem_singleton.mp hmem
  queue key' := by
    rw [queue_setQueue_key, Act.puts_append, Act.puts_cons_put, queue_setScript, Act.puts_nil]
    by_cases hkey : key' = key
    · subst hkey
      rw [if_pos rfl, if_pos rfl, h.queue]
    · rw [if_neg hkey, if_neg (Ne.symm hkey), List.append_nil, h.queue]
  empty key' := by
    rw [queue_setQueue_of_other]
    exact h.empty key'

/-- The other party takes the first of the items on its way. -/
theorem LeadsBy.follow {gap : List (Act κ α)} {key : κ} {item : α}
    (h : st.LeadsBy (other s) (.put key item :: gap)) :
    ∃ rest, st.script s = .take key item :: rest ∧
      st.queue s key = item :: Act.puts key gap ∧
      ((st.setScript s rest).setQueue s key (Act.puts key gap)).LeadsBy (other s) gap := by
  have hscript := h.script
  have hqueue := h.queue key
  rw [other_other] at hscript hqueue
  rw [Act.puts_cons_put, if_pos rfl] at hqueue
  refine ⟨(gap ++ st.script (other s)).map Act.dual, hscript, hqueue, ?_, ?_, ?_, ?_⟩
  · rw [script_setQueue, other_other, script_setScript_self, script_setScript_other]
  · exact fun key' item' hmem => h.free key' item' (List.mem_cons_of_mem _ hmem)
  · intro key'
    rw [other_other, queue_setQueue_key]
    by_cases hkey : key' = key
    · rw [if_pos hkey, hkey]
    · have hother := h.queue key'
      rw [other_other, Act.puts_cons_put, if_neg (Ne.symm hkey)] at hother
      rw [if_neg hkey]
      exact hother
  · intro key'
    rw [queue_setQueue_other]
    exact h.empty key'

/-- Every step keeps the parties linked. -/
theorem Linked.step (h : st.Linked) (hstep : st.step s = some st') : st'.Linked := by
  rcases step_cases hstep with ⟨key, item, rest, hscript, rfl⟩ |
    ⟨key, item, rest, item', items, hscript, hqueue, rfl⟩
  · obtain ⟨gap, hlead⟩ := h.leads_of_put hscript
    exact ⟨s, _, hlead.put hscript⟩
  · rcases h.cases s with ⟨gap, hlead⟩ | ⟨key', item'', gap, hlead⟩
    · rw [hlead.empty] at hqueue
      cases hqueue
    · obtain ⟨rest', hscript', hqueue', hlead'⟩ := hlead.follow
      rw [hscript'] at hscript
      obtain ⟨hact, rfl⟩ := List.cons.inj hscript
      obtain ⟨rfl, rfl⟩ := Act.take.inj hact
      rw [hqueue'] at hqueue
      obtain ⟨-, rfl⟩ := List.cons.inj hqueue
      exact ⟨other s, gap, hlead'⟩

theorem Linked.steps (h : st.Linked) {n : ℕ} (hsteps : st.steps s n = some st') : st'.Linked := by
  induction n generalizing st with
  | zero =>
      cases hsteps
      exact h
  | succ n ih =>
      obtain ⟨mid, hmid, hrest⟩ := Option.bind_eq_some_iff.mp hsteps
      exact ih (h.step hmid) hrest

/-- A party that puts several items. -/
theorem steps_puts {key : κ} {items : List α} {rest : List (Act κ α)}
    (hscript : st.script s = items.map (.put key) ++ rest) :
    st.steps s items.length = some ((st.setScript s rest).setQueue (other s) key
      (st.queue (other s) key ++ items)) := by
  induction items generalizing st with
  | nil =>
      have hsame : st.setScript s rest = st := by
        rw [← show st.script s = rest from hscript, setScript_script]
      rw [hsame, List.append_nil, setQueue_queue]
      rfl
  | cons item items ih =>
      rw [List.length_cons, steps, step_put hscript, Option.bind_some, ih (by simp)]
      simp [setScript_setQueue]

/-- A party that takes several items. -/
theorem steps_takes {key : κ} {items taken left : List α} {rest : List (Act κ α)}
    (hscript : st.script s = items.map (.take key) ++ rest)
    (hqueue : st.queue s key = taken ++ left) (hlength : taken.length = items.length) :
    st.steps s items.length = some ((st.setScript s rest).setQueue s key left) := by
  induction items generalizing st taken with
  | nil =>
      have hnil : taken = [] := List.length_eq_zero_iff.mp hlength
      have hsame : st.setScript s rest = st := by
        rw [← show st.script s = rest from hscript, setScript_script]
      rw [hnil, List.nil_append] at hqueue
      rw [hsame, ← hqueue, setQueue_queue]
      rfl
  | cons item items ih =>
      cases taken with
      | nil => cases hlength
      | cons item' taken =>
          rw [List.length_cons, steps, step_take hscript hqueue, Option.bind_some,
            @ih _ taken (by simp) (by simp) (by simpa using hlength)]
          simp [setScript_setQueue]

theorem length_step (h : st.step s = some st') :
    (st.script s).length = (st'.script s).length + 1 ∧
      st'.script (other s) = st.script (other s) := by
  rcases step_cases h with ⟨key, item, rest, hscript, rfl⟩ |
    ⟨key, item, rest, item', items, hscript, -, rfl⟩
  · simp [hscript]
  · simp [hscript]

/-- Each step takes one act off a script. -/
theorem length_steps {n : ℕ} (h : st.steps s n = some st') :
    (st.script s).length = (st'.script s).length + n ∧
      st'.script (other s) = st.script (other s) := by
  induction n generalizing st with
  | zero =>
      cases h
      exact ⟨rfl, rfl⟩
  | succ n ih =>
      obtain ⟨mid, hmid, hrest⟩ := Option.bind_eq_some_iff.mp h
      obtain ⟨hlength, hother⟩ := ih hrest
      obtain ⟨hlength', hother'⟩ := length_step hmid
      exact ⟨by omega, hother.trans hother'⟩

/-- The items taken are those expected. -/
theorem Linked.taken_eq (h : st.Linked) {key : κ} {items taken left : List α}
    {rest : List (Act κ α)} (hscript : st.script s = items.map (.take key) ++ rest)
    (hqueue : st.queue s key = taken ++ left) (hlength : taken.length = items.length) :
    taken = items := by
  induction items generalizing st taken with
  | nil => exact List.length_eq_zero_iff.mp hlength
  | cons item items ih =>
      cases taken with
      | nil => cases hlength
      | cons item' taken =>
          have hhead : item' = item := h.head_eq_of_take hscript hqueue
          have hnext := h.step (step_take hscript hqueue)
          rw [hhead, @ih _ hnext taken (by simp) (by simp) (by simpa using hlength)]

end

section

variable [TwoSides σ] {st : Exchange σ κ α}

/-- The party can go on, even if the other's queue has room for nothing more than
a first item. -/
def Ready (st : Exchange σ κ α) (s : σ) : Prop :=
  match st.script s with
  | [] => False
  | .put key _ :: _ => st.queue (other s) key = []
  | .take key _ :: _ => st.queue s key ≠ []

theorem ready_of_put {s : σ} {key : κ} {item : α} {rest : List (Act κ α)}
    (hscript : st.script s = .put key item :: rest) (hqueue : st.queue (other s) key = []) :
    st.Ready s := by
  simp only [Ready, hscript, hqueue]

theorem ready_of_take {s : σ} {key : κ} {item : α} {rest : List (Act κ α)}
    (hscript : st.script s = .take key item :: rest) (hqueue : st.queue s key ≠ []) :
    st.Ready s := by
  simpa only [Ready, hscript] using hqueue

end

section

variable [TwoSides σ] [DecidableEq κ] {st : Exchange σ κ α}

/-! ## The start -/

/-- Two dual scripts and nothing on its way. -/
theorem linked_of_dual {s : σ} (hscript : st.script (other s) = (st.script s).map Act.dual)
    (hempty : ∀ t key, st.queue t key = []) : st.Linked :=
  ⟨s, [], hscript, by simp, fun key => hempty _ key, fun key => hempty s key⟩

/-! ## Progress and the end -/

/-- Somebody can go on, until both are done. -/
theorem Linked.progress (h : st.Linked) : (∃ s, st.Ready s) ∨ ∀ s, st.script s = [] := by
  obtain ⟨s, gap, hlead⟩ := h
  cases gap with
  | cons act gap =>
      cases act with
      | take key item => exact absurd List.mem_cons_self (hlead.free key item)
      | put key item =>
          have hqueue := hlead.queue key
          rw [Act.puts_cons_put, if_pos rfl] at hqueue
          refine .inl ⟨other s, ?_⟩
          simp [Ready, hlead.script, hqueue]
  | nil =>
      have hscript := hlead.script
      rw [List.nil_append] at hscript
      cases hs : st.script s with
      | nil =>
          refine .inr fun t => ?_
          rcases eq_or s t with rfl | rfl
          · exact hs
          · rw [hscript, hs, List.map_nil]
      | cons act rest =>
          rw [hs] at hscript
          cases act with
          | put key item => exact .inl ⟨s, by simp [Ready, hs, hlead.queue key]⟩
          | take key item =>
              exact .inl ⟨other s, by simp [Ready, hscript, hlead.empty key]⟩

/-- Either something that a party expects is there, or nothing is on its way and the
parties have got equally far. -/
theorem Linked.available_or_even (h : st.Linked) :
    (∃ s key item rest, st.script s = .take key item :: rest ∧ st.queue s key ≠ []) ∨
      (∀ s, st.script (other s) = (st.script s).map Act.dual) ∧ ∀ s key, st.queue s key = [] := by
  obtain ⟨s, gap, hlead⟩ := h
  cases gap with
  | cons act gap =>
      cases act with
      | take key item => exact absurd List.mem_cons_self (hlead.free key item)
      | put key item =>
          have hqueue := hlead.queue key
          rw [Act.puts_cons_put, if_pos rfl] at hqueue
          exact .inl ⟨other s, key, item, _, hlead.script, by simp [hqueue]⟩
  | nil =>
      have hswap := hlead.swap
      refine .inr ⟨fun t => ?_, fun t key => ?_⟩
      · rcases eq_or s t with rfl | rfl
        · exact hlead.script
        · exact hswap.script
      · rcases eq_or s t with rfl | rfl
        · exact hlead.empty key
        · exact hlead.queue key

/-- Nothing is on its way when both parties have got equally far. -/
theorem Linked.queue_eq_nil (h : st.Linked)
    (hlength : ∀ s t : σ, (st.script s).length = (st.script t).length) (s : σ) (key : κ) :
    st.queue s key = [] := by
  obtain ⟨t, gap, hlead⟩ := h
  have hcount := hlength (other t) t
  rw [hlead.script, List.length_map, List.length_append] at hcount
  have hgap : gap = [] := List.length_eq_zero_iff.mp (by omega)
  rcases eq_or t s with rfl | rfl
  · exact hlead.empty key
  · rw [hlead.queue, hgap, Act.puts_nil]

/-- Nothing is on its way when both parties are about to do an act of some kind, and
have equally many of that kind to do. -/
theorem Linked.queue_eq_nil_of_count (h : st.Linked) {kind : Act κ α → Bool}
    (hdual : ∀ act, kind act.dual = kind act)
    (hhead : ∀ s, ∃ act rest, st.script s = act :: rest ∧ kind act = true)
    (hcount : ∀ s t : σ, (st.script s).countP kind = (st.script t).countP kind) (s : σ)
    (key : κ) : st.queue s key = [] := by
  refine h.queue_eq_nil (fun s t => ?_) s key
  obtain ⟨u, gap, hlead⟩ := h
  have hgap : gap = [] := by
    have hsame := hcount (other u) u
    rw [hlead.script, List.countP_map, List.countP_append] at hsame
    have hkind : kind ∘ Act.dual = kind := funext hdual
    rw [hkind] at hsame
    obtain ⟨act, rest, hscript, hact⟩ := hhead (other u)
    cases gap with
    | nil => rfl
    | cons first gap =>
        rw [hlead.script, List.cons_append, List.map_cons] at hscript
        obtain ⟨rfl, -⟩ := List.cons.inj hscript
        rw [hdual] at hact
        rw [List.countP_cons_of_pos hact] at hsame
        omega
  have hlength : (st.script (other u)).length = (st.script u).length := by
    rw [hlead.script, hgap, List.nil_append, List.length_map]
  have hall : ∀ v, (st.script v).length = (st.script u).length := by
    intro v
    rcases eq_or u v with rfl | rfl
    · rfl
    · exact hlength
  exact (hall s).trans (hall t).symm

end

end Exchange

end Uperf.Lib
