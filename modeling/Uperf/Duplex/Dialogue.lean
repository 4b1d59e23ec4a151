import Uperf.Duplex.Script
import Uperf.Strand.Disconnect
import Uperf.Strand.Library

/-!
# A strand as the other side sees it

What a strand does depends on the other side only through what the kernel answers
to its calls.  `Thread.asks` says in which call it waits after some answers: the
program of the strand, run on these answers, makes one call after another until
there is no answer left.  For a regular group that is the next call of the script
(`Thread.Ready.asks`), and after the last one `group_execute` returns with success.
-/

namespace Uperf

open Lib

/-! ## The kernel -/

/-- What the kernel has still to answer, and the first call that it has not answered. -/
structure Dialogue where
  answers : List ℕ := []
  asked : Option Call := none

/-- A call.  Nothing more is answered after one that is not. -/
def Dialogue.ask (call : Call) (d : Dialogue) : ℕ × Dialogue :=
  match d.asked, d.answers with
  | some _, _ => (0, d)
  | none, [] => (0, { d with asked := some call })
  | none, n :: rest => (n, { d with answers := rest })

/-- A number of bytes that a transfer of `size` bytes can return. -/
def fit (size n : ℕ) : ℕ := min (max n 1) size

/-- The call that a transfer is. -/
def transferCall (type : FlowopType) (conn off size : ℕ) : Call :=
  if type = .write ∨ type = .send then .send conn off size else .recv conn off size

/-- A kernel whose calls succeed, some of them after the strand has waited, and a
strand that is not signalled.  The connections of the strand are the objects from
`base` on, and `cursor` is what the other strands of the process leave in
`current_replacement`. -/
def kernelEnv (base : ℕ) (cursor : ℕ → Fin strandConnectionCacheSize) : StrandEnv Dialogue where
  signalled := pure false
  errno := pure 0
  setErrno _ := pure ()
  rand := pure 0
  cursor := fun d => (cursor d.answers.length, d)
  connect f := fun d => (.connected, (d.ask (.connect f.options.protocol)).2)
  accept f := fun d => (true, (d.ask (.accept f.options.protocol)).2)
  disconnect _ := pure true
  supports _ _ := true
  transfer f c off size := fun d =>
    let (n, d) := d.ask (transferCall f.type (c - base) off size)
    (if d.asked = none then Int32.ofNat (fit size n) else -1, d)
  sendfile _ _ := pure (-1)
  think _ := pure 0

/-! ## The program of a strand -/

/-- `wait_barrier`. -/
def waitBarrier : Exec (StrandWorld Dialogue) Unit := do
  outside (fun d => ((), (d.ask .barrier).2))
  passBarrier

/-- A strand of the master or of a slave: its clone of the group, the connections
it has at the start, which are those that listen, and the other strands of its
process. -/
structure Thread where
  group : Group
  conns : StrandConns
  cursor : ℕ → Fin strandConnectionCacheSize
  timing : Timing (StrandWorld Dialogue)
  rounds : ℕ

/-- The strand after the answers. -/
def Thread.run (t : Thread) (answers : List ℕ) :
    Option (Option Int32) × StrandWorld Dialogue :=
  (groupTxns (fun _ _ => strandMachine (kernelEnv t.conns.allocated t.cursor)) t.timing waitBarrier
    t.rounds 0 0 t.group.tlist 0).runFrom { env := { answers }, conns := t.conns }

/-- The call in which the strand waits after the answers, if it has not ended. -/
def Thread.asks (t : Thread) (answers : List ℕ) : Option Call := (t.run answers).2.env.asked

/-! ## Making calls -/

/-- A transfer up to the place `total` of the buffer, in several calls. -/
def Dialogue.move (call : ℕ → ℕ → Call) (total : ℕ) : ℕ → ℕ → Dialogue → Dialogue
  | 0, _, d => d
  | rounds + 1, off, d =>
      if off < total then
        match d.asked, d.answers with
        | some _, _ => d
        | none, [] => { d with asked := some (call off (total - off)) }
        | none, n :: rest =>
            move call total rounds (off + fit (total - off) n) { d with answers := rest }
      else d

/-- A call, made again until everything is transferred. -/
def Dialogue.make (d : Dialogue) : Call → Dialogue
  | .send conn off size => d.move (.send conn) (off + size) size off
  | .recv conn off size => d.move (.recv conn) (off + size) size off
  | call => (d.ask call).2

/-- The calls one after another. -/
def Dialogue.makeAll (d : Dialogue) (calls : List Call) : Dialogue := calls.foldl Dialogue.make d

/-- What is left of some calls after an answer to the first. -/
def advance : List Call → ℕ → List Call
  | [], _ => []
  | .send conn off size :: rest, n =>
      if fit size n < size then .send conn (off + fit size n) (size - fit size n) :: rest else rest
  | .recv conn off size :: rest, n =>
      if fit size n < size then .recv conn (off + fit size n) (size - fit size n) :: rest else rest
  | .connect _ :: rest, _ | .accept _ :: rest, _ | .barrier :: rest, _ => rest

/-- What is left of the calls after the answers. -/
def residual (calls : List Call) (answers : List ℕ) : List Call := answers.foldl advance calls

/-- Something is to be transferred. -/
def Call.Positive : Call → Prop
  | .send _ _ size | .recv _ _ size => 0 < size
  | .connect _ | .accept _ | .barrier => True

section

variable {d : Dialogue} {call : ℕ → ℕ → Call} {total rounds off size n : ℕ}

theorem fit_pos (hsize : 0 < size) : 0 < fit size n := by
  unfold fit
  omega

theorem fit_le : fit size n ≤ size := min_le_right ..

theorem fit_eq (hpos : 0 < n) (hle : n ≤ size) : fit size n = n := by
  unfold fit
  omega

/-- A call that is not answered ends the dialogue. -/
theorem ask_of_asked (h : d.asked ≠ none) (c : Call) : d.ask c = (0, d) := by
  obtain ⟨c', hc'⟩ := Option.ne_none_iff_exists'.mp h
  simp [Dialogue.ask, hc']

theorem ask_nil (hasked : d.asked = none) (hanswers : d.answers = []) (c : Call) :
    d.ask c = (0, { d with asked := some c }) := by
  simp [Dialogue.ask, hasked, hanswers]

theorem ask_cons {rest : List ℕ} (hasked : d.asked = none) (hanswers : d.answers = n :: rest)
    (c : Call) : d.ask c = (n, { d with answers := rest }) := by
  simp [Dialogue.ask, hasked, hanswers]

theorem move_of_asked (h : d.asked ≠ none) : d.move call total rounds off = d := by
  cases rounds with
  | zero => rfl
  | succ rounds =>
      obtain ⟨c', hc'⟩ := Option.ne_none_iff_exists'.mp h
      simp [Dialogue.move, hc']

theorem make_of_asked (h : d.asked ≠ none) (c : Call) : d.make c = d := by
  cases c with
  | send conn off size => exact move_of_asked h
  | recv conn off size => exact move_of_asked h
  | connect protocol => exact congrArg Prod.snd (ask_of_asked h _)
  | accept protocol => exact congrArg Prod.snd (ask_of_asked h _)
  | barrier => exact congrArg Prod.snd (ask_of_asked h _)

theorem makeAll_of_asked (h : d.asked ≠ none) (calls : List Call) : d.makeAll calls = d := by
  induction calls with
  | nil => rfl
  | cons c calls ih =>
      rw [Dialogue.makeAll, List.foldl_cons, make_of_asked h]
      exact ih

theorem makeAll_append (calls calls' : List Call) :
    d.makeAll (calls ++ calls') = (d.makeAll calls).makeAll calls' :=
  List.foldl_append

theorem move_of_le (hle : total ≤ off) : d.move call total rounds off = d := by
  cases rounds with
  | zero => rfl
  | succ rounds => rw [Dialogue.move, if_neg (Nat.not_lt.mpr hle)]

/-- More rounds than there are bytes make no difference. -/
theorem move_eq_of_le {more : ℕ} (hrounds : total ≤ off + rounds) (hmore : rounds ≤ more) :
    d.move call total more off = d.move call total rounds off := by
  induction rounds generalizing d off more with
  | zero => rw [move_of_le (by omega), move_of_le (by omega)]
  | succ rounds ih =>
      obtain ⟨more, rfl⟩ : ∃ n, more = n + 1 := ⟨more - 1, by omega⟩
      by_cases hlt : off < total
      · simp only [Dialogue.move, if_pos hlt]
        cases d.asked with
        | some c => rfl
        | none =>
            cases d.answers with
            | nil => rfl
            | cons n rest =>
                have hpos : 0 < fit (total - off) n := fit_pos (by omega)
                exact ih (by omega) (by omega)
      · rw [move_of_le (by omega), move_of_le (by omega)]

theorem move_nil (hasked : d.asked = none) (hanswers : d.answers = []) (hsize : 0 < size) :
    d.move call (off + size) size off = { d with asked := some (call off size) } := by
  obtain ⟨size, rfl⟩ : ∃ n, size = n + 1 := ⟨size - 1, by omega⟩
  simp [Dialogue.move, hasked, hanswers]

theorem move_cons {rest : List ℕ} (hasked : d.asked = none) (hanswers : d.answers = n :: rest)
    (hsize : 0 < size) :
    d.move call (off + size) size off =
      ({ d with answers := rest } : Dialogue).move call (off + fit size n + (size - fit size n))
        (size - fit size n) (off + fit size n) := by
  have hpos : 0 < fit size n := fit_pos hsize
  have hle : fit size n ≤ size := fit_le
  have htotal : off + fit size n + (size - fit size n) = off + size := by omega
  obtain ⟨rounds, hrounds⟩ : ∃ k, size = k + 1 := ⟨size - 1, by omega⟩
  rw [htotal]
  calc d.move call (off + size) size off
      = ({ d with answers := rest } : Dialogue).move call (off + size) rounds
          (off + fit size n) := by
        rw [hrounds, Dialogue.move, if_pos (by omega), hasked, hanswers, ← hrounds,
          Nat.add_sub_cancel_left]
    _ = _ := move_eq_of_le (by omega) (by omega)

/-- An answer to the first of some calls. -/
theorem makeAll_cons {rest : List ℕ} (hasked : d.asked = none) (hanswers : d.answers = n :: rest)
    {c : Call} (hpos : c.Positive) (calls : List Call) :
    d.makeAll (c :: calls) =
      ({ d with answers := rest } : Dialogue).makeAll (advance (c :: calls) n) := by
  have hmove : ∀ (mk : ℕ → ℕ → Call) (off size : ℕ), 0 < size →
      (d.move mk (off + size) size off).makeAll calls =
        if fit size n < size then
          (({ d with answers := rest } : Dialogue).move mk
            (off + fit size n + (size - fit size n)) (size - fit size n)
            (off + fit size n)).makeAll calls
        else ({ d with answers := rest } : Dialogue).makeAll calls := by
    intro mk off size hsize
    rw [move_cons hasked hanswers hsize]
    split_ifs with hlt
    · rfl
    · rw [move_of_le (by omega)]
  rw [Dialogue.makeAll, List.foldl_cons]
  cases c with
  | send conn off size =>
      refine (hmove _ off size hpos).trans ?_
      simp only [advance]
      split_ifs <;> rfl
  | recv conn off size =>
      refine (hmove _ off size hpos).trans ?_
      simp only [advance]
      split_ifs <;> rfl
  | connect protocol | accept protocol | barrier =>
      simp only [Dialogue.make, ask_cons hasked hanswers]
      rfl

theorem advance_positive {calls : List Call} (h : ∀ c ∈ calls, c.Positive) (n : ℕ) :
    ∀ c ∈ advance calls n, c.Positive := by
  cases calls with
  | nil => exact h
  | cons c rest =>
      have hrest : ∀ c ∈ rest, c.Positive := fun c hc => h c (List.mem_cons_of_mem _ hc)
      cases c with
      | send conn off size | recv conn off size =>
          simp only [advance]
          split_ifs with hlt
          · intro c hc
            rcases List.mem_cons.mp hc with rfl | hc
            · exact Nat.sub_pos_of_lt hlt
            · exact hrest c hc
          · exact hrest
      | connect protocol | accept protocol | barrier => exact hrest

/-- The first call that is not answered is the first that is left. -/
theorem asked_makeAll {calls : List Call} (h : ∀ c ∈ calls, c.Positive) (answers : List ℕ) :
    (({ answers } : Dialogue).makeAll calls).asked = (residual calls answers).head? := by
  induction answers generalizing calls with
  | nil =>
      cases calls with
      | nil => rfl
      | cons c rest =>
          have hpos := h c List.mem_cons_self
          have hmake : ({} : Dialogue).make c = { asked := some c } := by
            cases c with
            | send conn off size | recv conn off size => exact move_nil rfl rfl hpos
            | connect protocol | accept protocol | barrier => rfl
          rw [Dialogue.makeAll, List.foldl_cons, hmake]
          exact congrArg Dialogue.asked (makeAll_of_asked (by simp) rest)
  | cons n answers ih =>
      cases calls with
      | nil =>
          have hnil : ∀ as : List ℕ, residual [] as = [] := by
            intro as
            induction as with
            | nil => rfl
            | cons a as ih => exact ih
          rw [hnil]
          rfl
      | cons c rest =>
          rw [makeAll_cons rfl rfl (h c List.mem_cons_self)]
          exact ih (advance_positive h n)

end

end Uperf
