import Uperf.Duplex.Loops

/-!
# The calls of a strand are its script

The functions of `flowops_library.c` make the calls of the book, whatever the kernel
answers and whichever connection the strands of the process evict from their caches.
So a strand waits in the calls of its script, one after another (`Thread.Ready.asks`).
-/

namespace Uperf

open Lib

/-! ## The functions of the strand -/

/-- The strand has the connections of the book. -/
def HasBook (base : ℕ) (listen : UInt32 → Option ℕ) (flist : List Flowop) (b : Book)
    (w : StrandWorld Dialogue) : Prop :=
  ∃ l, Holds base listen flist b l w.conns

section

variable {base : ℕ} {cursor : ℕ → Fin strandConnectionCacheSize} {listen : UInt32 → Option ℕ}
  {flist : List Flowop} {b b' : Book} {f : Flowop} {j : ℕ} {call : Option Call}

theorem runFrom_perform (act : ConnAct) (w : StrandWorld Dialogue) :
    (perform j act).runFrom w =
      match connStep w.conns act with
      | none => (none, w.record j (some act))
      | some (ret, conns) => (some ret, { w.record j (some act) with conns }) := by
  simp only [perform, Exec.runFrom_bind, Exec.runFrom_change, Exec.runFrom_state]
  have hconns : (w.record j (some act)).conns = w.conns := rfl
  rw [hconns]
  cases connStep w.conns act with
  | none => rfl
  | some result => rfl

/-- A flowop that succeeds with its connections. -/
theorem plays_perform {act : ConnAct} {ret : Int32}
    (hstep : ∀ l s, Holds base listen flist b l s →
      ∃ l' s', connStep s act = some (ret, s') ∧ Holds base listen flist b' l' s') :
    Plays StrandWorld.env (perform j act) (HasBook base listen flist b) []
      fun ret' w => ret' = ret ∧ HasBook base listen flist b' w := by
  intro w _ hw
  obtain ⟨l, hl⟩ := hw
  obtain ⟨l', s', hact, hholds⟩ := hstep l w.conns hl
  rw [runFrom_perform, hact]
  exact ⟨rfl, fun _ => ⟨ret, rfl, rfl, l', hholds⟩⟩

/-- A call that the other side answers at once or later. -/
theorem plays_ask {α : Type} {P : StrandWorld Dialogue → Prop} {c : Call} {a : α}
    (hmake : ∀ d : Dialogue, d.make c = (d.ask c).2) (hP : ∀ w d, P w → P { w with env := d }) :
    Plays StrandWorld.env (outside fun d => (a, (d.ask c).2)) P [c] fun a' w => a' = a ∧ P w := by
  intro w _ hw
  exact ⟨(hmake w.env).symm, fun _ => ⟨a, rfl, rfl, hP w _ hw⟩⟩

/-- One round of the loop of `flowop_rw`. -/
theorem runFrom_rwLoop_succ (hrandom : f.options.foRandomSize = false) {c size rounds sz : ℕ}
    (hlt : sz < size) (w : StrandWorld Dialogue) :
    (rwLoop (kernelEnv base cursor) f c size (rounds + 1) sz).runFrom w =
      let r := w.env.ask (transferCall f.type (c - base) sz (size - sz))
      let n := if r.2.asked = none then Int32.ofNat (fit (size - sz) r.1) else -1
      if n ≤ 0 then (some (-1), { w with env := r.2 })
      else (rwLoop (kernelEnv base cursor) f c size rounds (sz + n.toInt.toNat)).runFrom
        { w with env := r.2 } := by
  have hsignalled : (outside (kernelEnv base cursor).signalled).runFrom w = (some false, w) := rfl
  have htransfer : (outside ((kernelEnv base cursor).transfer f c sz (size - sz))).runFrom w =
      let r := w.env.ask (transferCall f.type (c - base) sz (size - sz))
      (some (if r.2.asked = none then Int32.ofNat (fit (size - sz) r.1) else -1),
        { w with env := r.2 }) := rfl
  rw [rwLoop, if_pos hlt, Exec.runFrom_bind, hsignalled]
  simp only [Bool.false_eq_true, if_false, Exec.runFrom_bind, htransfer, hrandom]
  generalize w.env.ask (transferCall f.type (c - base) sz (size - sz)) = r
  generalize (if r.2.asked = none then Int32.ofNat (fit (size - sz) r.1) else -1) = n
  by_cases hzero : n = 0
  · subst hzero
    rfl
  · have hneg : n < 0 ↔ n ≤ 0 :=
      ⟨Int32.le_of_lt, fun hle => Int32.lt_of_le_of_ne hle hzero⟩
    simp only [hzero, if_false, hneg]
    split_ifs <;> rfl

theorem toNat_fit {size n : ℕ} (hpos : 0 < size) (hsize : size < 2 ^ 31) :
    ¬ Int32.ofNat (fit size n) ≤ 0 ∧ (Int32.ofNat (fit size n)).toInt.toNat = fit size n := by
  have hlow : 0 < fit size n := fit_pos hpos
  have hhigh : fit size n < 2 ^ 31 := fit_le.trans_lt hsize
  have hint : (Int32.ofNat (fit size n)).toInt = fit size n := Int32.toInt_ofNat_of_lt hhigh
  refine ⟨?_, by rw [hint, Int.toNat_natCast]⟩
  rw [Int32.le_iff_toInt_le, hint]
  simpa using Nat.ne_of_gt hlow

/-- The loop of `flowop_rw` makes the calls of one transfer. -/
theorem runFrom_rwLoop (base : ℕ) (cursor : ℕ → Fin strandConnectionCacheSize)
    (hrandom : f.options.foRandomSize = false) (c : ℕ) {size : ℕ} (hsize : size < 2 ^ 31)
    (rounds : ℕ) {sz : ℕ} (hle : sz ≤ size) (henough : size ≤ sz + rounds)
    {w : StrandWorld Dialogue} (hasked : w.env.asked = none) :
    ((rwLoop (kernelEnv base cursor) f c size rounds sz).runFrom w).2 =
        { w with env := w.env.move (transferCall f.type (c - base)) size rounds sz } ∧
      (((rwLoop (kernelEnv base cursor) f c size rounds sz).runFrom w).2.env.asked = none →
        ((rwLoop (kernelEnv base cursor) f c size rounds sz).runFrom w).1 =
          some (Int32.ofNat size)) := by
  induction rounds generalizing sz w with
  | zero =>
      have hsz : sz = size := by omega
      subst hsz
      exact ⟨rfl, fun _ => rfl⟩
  | succ rounds ih =>
      by_cases hlt : sz < size
      · rw [runFrom_rwLoop_succ hrandom hlt, Dialogue.move, if_pos hlt]
        cases hanswers : w.env.answers with
        | nil =>
            have hlow : (-1 : Int32) ≤ 0 := by decide
            rw [ask_nil hasked hanswers]
            simp [hlow, hasked, hanswers]
        | cons n rest =>
            obtain ⟨hpos, hnat⟩ := toNat_fit (n := n) (Nat.sub_pos_of_lt hlt)
              ((Nat.sub_le size sz).trans_lt hsize)
            have hfit : fit (size - sz) n ≤ size - sz := fit_le
            have hfit' : 0 < fit (size - sz) n := fit_pos (Nat.sub_pos_of_lt hlt)
            rw [ask_cons hasked hanswers, hasked]
            simp only [if_true, if_neg hpos, hnat]
            exact ih (w := { w with env := { w.env with answers := rest, asked := none } })
              (by omega) (by omega) rfl
      · have hsz : sz = size := by omega
        subst hsz
        have hdone : rwLoop (kernelEnv base cursor) f c sz (rounds + 1) sz =
            pure (Int32.ofNat sz) := by
          rw [rwLoop, if_neg hlt]
        rw [hdone, move_of_le (le_refl sz)]
        exact ⟨rfl, fun _ => rfl⟩

/-- `flowop_rw` makes one transfer over the connection that its id stands for. -/
theorem plays_flowopRw {conn : ℕ} (hf : flist[j]? = some f) (hmoves : f.type.moves = true)
    (hsize : f.options.fixedSize = true) (hnamed : b.named f.connId = some conn) {c : Call}
    (hmake : ∀ d : Dialogue, d.make c =
      d.move (transferCall f.type conn) f.options.size.toNat f.options.size.toNat 0) :
    Plays StrandWorld.env (flowopRw (kernelEnv base cursor) j f) (HasBook base listen flist b) [c]
      fun ret w => ret = f.returned ∧ HasBook base listen flist b w := by
  intro w hasked ⟨l, hl⟩
  obtain ⟨s', hlookup, hconnection, hholds⟩ := hl.lookup hf hmoves hnamed
  simp only [FlowopOptions.fixedSize, Bool.and_eq_true, Bool.not_eq_true', decide_eq_true_eq]
    at hsize
  obtain ⟨hrandom, hpos, hint⟩ := hsize
  have hstep : connStep w.conns (.rw j f) = some (0, s') := by
    rw [connStep, hlookup]
    rfl
  have hne : f.options.size ≠ 0 := fun h => by simp [h] at hpos
  -- the strand with the connection
  let w' : StrandWorld Dialogue := { w.record j (some (.rw j f)) with conns := s' }
  have hrun : (flowopRw (kernelEnv base cursor) j f).runFrom w =
      (rwLoop (kernelEnv base cursor) f (base + conn) f.options.size.toNat f.options.size.toNat
        0).runFrom w' := by
    have hsizeRun : flowopSize (kernelEnv base cursor) f = pure f.options.size := by
      rw [flowopSize, hrandom, if_neg Bool.false_ne_true]
    have hsupports : (kernelEnv base cursor).supports f (base + conn) = true := rfl
    simp only [flowopRw, Exec.runFrom_bind, runFrom_perform, hstep, Exec.runFrom_state]
    simp only [show ({ w.record j (some (.rw j f)) with conns := s' } : StrandWorld Dialogue) = w'
      from rfl, hconnection, hsizeRun, Exec.runFrom_bind, Exec.runFrom_pure, hsupports, hne,
      Bool.true_eq_false, if_false]
  obtain ⟨hstate, hdone⟩ := runFrom_rwLoop base cursor hrandom (base + conn) hint
    f.options.size.toNat (Nat.zero_le _) (by omega) (show w'.env.asked = none from hasked)
  rw [Nat.add_sub_cancel_left] at hstate
  rw [hrun]
  refine ⟨?_, fun hnone => ⟨_, hdone hnone, ?_, l, ?_⟩⟩
  · rw [hstate]
    exact (hmake w.env).symm
  · rw [Flowop.returned, if_pos hmoves]
  · rw [hstate]
    exact hholds

/-- The beginning of a flowop, which is not a call. -/
theorem Plays.begin {x : Exec (StrandWorld Dialogue) Int32} {calls : List Call}
    {Q : Int32 → StrandWorld Dialogue → Prop}
    (h : Plays StrandWorld.env x (HasBook base listen flist b) calls Q) :
    Plays StrandWorld.env (do
      let cursor ← outside (kernelEnv base cursor).cursor
      Exec.change fun w => { w with conns := { w.conns with currentReplacement := cursor } }
      x) (HasBook base listen flist b) calls Q :=
  fun w hasked hw => h { w with conns :=
    { w.conns with currentReplacement := cursor w.env.answers.length } } hasked
      (hw.imp fun _ hl => hl.cursor _)

/-- One execution of a flowop makes the call of the book. -/
theorem plays_executeFlowop (hf : flist[j]? = some f)
    (hfunc : f.execute = some (flowopGetExecuteFunc f.type))
    (horder : flist.Pairwise fun f f' => f.type.moves = true → f'.type.opens = false)
    (hlisten : f.type = .accept → listen f.options.protocol ≠ none)
    (hexecute : b.execute f = some (call, b')) :
    Plays StrandWorld.env (executeFlowop (kernelEnv base cursor) j f)
      (HasBook base listen flist b) call.toList
      fun ret w => ret = f.returned ∧ HasBook base listen flist b' w := by
  have hrecord : Plays StrandWorld.env
      (Exec.change fun w : StrandWorld Dialogue => w.record j none)
      (HasBook base listen flist b) [] fun _ => HasBook base listen flist b :=
    Plays.change (fun _ => rfl) fun w hw => hw
  have hzero : f.type.moves = false → f.returned = 0 := by
    intro hmoves
    rw [Flowop.returned, if_neg (by simp [hmoves])]
  unfold executeFlowop
  rw [hfunc]
  unfold Book.execute at hexecute
  cases htype : f.type with
  | connect =>
      simp only [htype] at hexecute
      obtain ⟨hfree, hsome⟩ := Option.ite_none_right_eq_some.mp hexecute
      cases hsome
      have hstep : ∀ l s, Holds base listen flist b l s → ∃ l' s',
          connStep s (.connect j f .connected) = some (0, s') ∧
            Holds base listen flist (b.open f.connId) l' s' := fun l s hl =>
        ⟨_, _, rfl, hl.addNew hf (by rw [htype]; rfl) horder hfree rfl⟩
      have hperform := plays_perform (j := j) hstep
      rw [hzero (by rw [htype]; rfl)]
      exact Plays.begin (Plays.bind_pure (plays_ask (fun d => rfl) fun w d hw => hw)
        (Plays.known hperform) fun outcome => silent_perform _)
  | accept =>
      simp only [htype] at hexecute
      obtain ⟨hfree, hsome⟩ := Option.ite_none_right_eq_some.mp hexecute
      cases hsome
      obtain ⟨cntrp, hcntrp⟩ := Option.ne_none_iff_exists'.mp (hlisten htype)
      have hnew : acceptsItself f.options.protocol = false := by
        simpa using (Bool.and_eq_true_iff.mp hfree).2
      have hstep : ∀ l s, Holds base listen flist b l s → ∃ l' s',
          connStep s (.accept j f true) = some (0, s') ∧
            Holds base listen flist (b.open f.connId) l' s' := fun l s hl => by
        refine ⟨_, _, ?_, hl.addNew hf (by rw [htype]; rfl) horder hfree
          (show ({ type := f.options.protocol, pId := f.connId, opened := true } :
            ProtocolObj).pId = f.connId from rfl)⟩
        simp only [connStep, flowopAccept, hl.listenConn, hcntrp, hnew, Bool.false_eq_true,
          if_true, if_false]
      have hperform := plays_perform (j := j) hstep
      rw [hzero (by rw [htype]; rfl)]
      exact Plays.begin (Plays.bind_pure (plays_ask (fun d => rfl) fun w d hw => hw)
        (Plays.known hperform) fun accepted => silent_perform _)
  | disconnect =>
      simp only [htype] at hexecute
      obtain ⟨conn, hnamed, hsome⟩ := Option.map_eq_some_iff.mp hexecute
      cases hsome
      have hstep : ∀ l s, Holds base listen flist b l s → ∃ l' s',
          connStep s (.disconnect j f true) = some (0, s') ∧
            Holds base listen flist (b.close f.connId) l' s' := fun l s hl => by
        obtain ⟨s', l', hdisconnect, hholds⟩ := hl.disconnect hnamed j
        exact ⟨l', s', hdisconnect, hholds⟩
      rw [hzero (by rw [htype]; rfl)]
      exact Plays.begin (plays_perform (j := j) hstep)
  | read | recv =>
      simp only [htype] at hexecute
      obtain ⟨hsize, hmap⟩ := Option.ite_none_right_eq_some.mp hexecute
      obtain ⟨conn, hnamed, hsome⟩ := Option.map_eq_some_iff.mp hmap
      cases hsome
      refine Plays.begin (plays_flowopRw hf (by rw [htype]; rfl) hsize hnamed fun d => ?_)
      rw [htype, Dialogue.make, Nat.zero_add]
      rfl
  | write | send =>
      simp only [htype] at hexecute
      obtain ⟨hsize, hmap⟩ := Option.ite_none_right_eq_some.mp hexecute
      obtain ⟨conn, hnamed, hsome⟩ := Option.map_eq_some_iff.mp hmap
      cases hsome
      refine Plays.begin (plays_flowopRw hf (by rw [htype]; rfl) hsize hnamed fun d => ?_)
      rw [htype, Dialogue.make, Nat.zero_add]
      rfl
  | nop =>
      simp only [htype] at hexecute
      cases hexecute
      rw [hzero (by rw [htype]; rfl)]
      exact Plays.begin (hrecord.bind_nil (fun _ => Plays.pure fun w hw => ⟨rfl, hw⟩)
        fun _ => Silent.pure _)
  | think =>
      simp only [htype] at hexecute
      cases hexecute
      rw [hzero (by rw [htype]; rfl)]
      refine Plays.begin (hrecord.bind_nil (fun _ w hasked hw => ?_) fun _ => ?_)
      · exact ⟨rfl, fun _ => ⟨0, rfl, rfl, hw⟩⟩
      · exact Silent.outside fun d _ => rfl
  | error | sendfile | sendfilev | other =>
      simp only [htype] at hexecute
      cases hexecute

end

/-! ## The machine of the strand -/

section

variable {base : ℕ} {cursor : ℕ → Fin strandConnectionCacheSize} {listen : UInt32 → Option ℕ}
  {txn : Txn} {b b' : Book} {f : Flowop} {j : ℕ} {calls : List Call}

/-- What the strand needs of a transaction, besides its script. -/
structure Txn.Playable (listen : UInt32 → Option ℕ) (txn : Txn) : Prop where
  execute : ∀ f ∈ txn.flist, f.execute = some (flowopGetExecuteFunc f.type)
  opensFirst : txn.OpensFirst
  listens : ∀ f ∈ txn.flist, f.type = .accept → listen f.options.protocol ≠ none

theorem performs_strandMachine (hplay : txn.Playable listen) :
    (strandMachine (kernelEnv base cursor)).Performs StrandWorld.env txn
      fun b _ => HasBook base listen txn.flist b where
  signalled _ _ _ _ hw := ⟨rfl, fun _ => ⟨false, rfl, rfl, hw⟩⟩
  errno _ _ _ _ hw := ⟨rfl, fun _ => ⟨0, rfl, rfl, hw⟩⟩
  execute _ hf hexecute :=
    have hmem := List.mem_of_getElem? hf
    plays_executeFlowop hf (hplay.execute _ hmem) hplay.opensFirst (hplay.listens _ hmem) hexecute
  flowopBegin _ _ _ := Plays.pure fun _ hw => hw
  flowopEnd _ _ _ _ _ := Plays.pure fun _ hw => hw
  txnBegin _ _ := Plays.change (fun _ => rfl) fun _ hw => hw
  txnEnd _ _ := Plays.pure fun _ hw => hw
  silent _ hd := kernelEnv_keeps hd txn.flist

theorem silent_waitBarrier : Silent StrandWorld.env waitBarrier :=
  (Silent.outside fun _ hd => congrArg Prod.snd (ask_of_asked hd .barrier)).bind fun _ =>
    Silent.change fun _ => rfl

/-- `wait_barrier`. -/
theorem plays_waitBarrier (flist flist' : List Flowop) :
    Plays StrandWorld.env waitBarrier (HasBook base listen flist b) [.barrier]
      fun _ => HasBook base listen flist' b := by
  refine (plays_ask (a := ()) (fun _ => rfl) fun w d hw => hw).bind_pure (Plays.known ?_)
    fun _ => Silent.change fun _ => rfl
  refine Plays.change (fun _ => rfl) ?_
  rintro w ⟨l, hl⟩
  exact ⟨l, hl.begin flist'⟩

/-! ## The strand -/

/-- A thread that can follow a script: its group is regular, it has opened no
connection yet, and it listens for the protocols over which it accepts. -/
structure Thread.Ready (t : Thread) (calls : List Call) : Prop where
  regular : t.group.Regular calls
  fresh : t.conns.Fresh
  connection : t.conns.connection = fun _ => none
  listens : ∀ f ∈ t.group.flowops, f.type = .accept →
    t.conns.listenConn f.options.protocol ≠ none

variable {t : Thread}

theorem Thread.Ready.playable (h : t.Ready calls) :
    ∀ txn ∈ t.group.tlist, txn.Playable t.conns.listenConn := fun txn htxn =>
  have hmem : ∀ f ∈ txn.flist, f ∈ t.group.flowops :=
    fun _ hf => List.mem_flatMap.mpr ⟨txn, htxn, hf⟩
  ⟨fun f hf => h.regular.execute f (hmem f hf), h.regular.opensFirst txn htxn,
    fun f hf => h.listens f (hmem f hf)⟩

/-- The strand has no connections at the start. -/
theorem Thread.Ready.hasBook (h : t.Ready calls) (answers : List ℕ) :
    HasBook t.conns.allocated t.conns.listenConn [] {}
      { env := { answers }, conns := t.conns } := by
  have hholds := h.fresh.holds []
  rw [← h.connection] at hholds
  exact ⟨[], hholds⟩

/-- The program of the thread makes the calls of its script, and in the end the strand
has the connections of the book. -/
theorem Thread.Ready.ends (h : t.Ready calls)
    (hscript : Book.script {} t.group.jobs = some (calls, b')) (answers : List ℕ) :
    (t.run answers).2.env = ({ answers } : Dialogue).makeAll calls ∧
      ((t.run answers).2.env.asked = none → (t.run answers).1 = some (some 0) ∧
        ∃ flist, HasBook t.conns.allocated t.conns.listenConn flist b' (t.run answers).2) := by
  have hperforms : PerformAll
      (fun _ _ => strandMachine (kernelEnv t.conns.allocated t.cursor)) StrandWorld.env
      (fun flist b _ => HasBook t.conns.allocated t.conns.listenConn flist b) t.group.tlist := by
    intro before txn behind hsplit
    refine performs_strandMachine (h.playable txn ?_)
    rw [hsplit]
    exact List.mem_append_right _ List.mem_cons_self
  obtain ⟨henv, hdone⟩ := hperforms.plays silent_waitBarrier
    (fun flist flist' _ _ => plays_waitBarrier flist flist') h.regular.duration t.timing t.rounds
    (List.nil_append _).symm [] 0 hscript _ rfl (h.hasBook answers)
  refine ⟨henv, fun hnone => ?_⟩
  obtain ⟨ret, hret, rfl, hbook⟩ := hdone hnone
  exact ⟨hret, hbook⟩

theorem Thread.Ready.run (h : t.Ready calls) (answers : List ℕ) :
    (t.run answers).2.env = ({ answers } : Dialogue).makeAll calls ∧
      ((t.run answers).2.env.asked = none → (t.run answers).1 = some (some 0)) := by
  obtain ⟨b', hscript⟩ := h.regular.script
  obtain ⟨henv, hdone⟩ := h.ends hscript answers
  exact ⟨henv, fun hnone => (hdone hnone).1⟩

theorem Book.execute_positive {call : Call} (h : b.execute f = some (some call, b')) :
    call.Positive := by
  unfold Book.execute at h
  cases htype : f.type with
  | connect | accept =>
      simp only [htype] at h
      obtain ⟨-, hsome⟩ := Option.ite_none_right_eq_some.mp h
      cases hsome
      exact True.intro
  | read | recv | write | send =>
      simp only [htype] at h
      obtain ⟨hsize, hmap⟩ := Option.ite_none_right_eq_some.mp h
      obtain ⟨conn, -, hsome⟩ := Option.map_eq_some_iff.mp hmap
      cases hsome
      simp only [FlowopOptions.fixedSize, Bool.and_eq_true, decide_eq_true_eq] at hsize
      exact hsize.2.1
  | disconnect =>
      simp only [htype] at h
      obtain ⟨conn, -, hsome⟩ := Option.map_eq_some_iff.mp h
      cases hsome
  | nop | think | error | sendfile | sendfilev | other =>
      simp only [htype] at h
      cases h

/-- No transfer of a script is empty. -/
theorem script_positive {jobs : List Job} (h : b.script jobs = some (calls, b')) :
    ∀ c ∈ calls, c.Positive := by
  induction jobs generalizing b calls with
  | nil =>
      cases h
      exact fun c hc => absurd hc List.not_mem_nil
  | cons job jobs ih =>
      cases job with
      | barrier =>
          obtain ⟨⟨rest, b₁⟩, hrest, heq⟩ := Option.map_eq_some_iff.mp h
          cases heq
          exact List.forall_mem_cons.mpr ⟨True.intro, ih hrest⟩
      | flowop f =>
          obtain ⟨call, b₁, rest, hexecute, hrest, rfl⟩ := script_flowop_eq_some h
          cases call with
          | none => exact ih hrest
          | some call => exact List.forall_mem_cons.mpr ⟨Book.execute_positive hexecute, ih hrest⟩

/-- A thread waits in the first call of its script that is not answered. -/
theorem Thread.Ready.asks (h : t.Ready calls) (answers : List ℕ) :
    t.asks answers = (residual calls answers).head? := by
  obtain ⟨b', hscript⟩ := h.regular.script
  unfold Thread.asks
  rw [(h.run answers).1]
  exact asked_makeAll (script_positive hscript) answers

/-- When all calls are answered `group_execute` has succeeded. -/
theorem Thread.Ready.success (h : t.Ready calls) {answers : List ℕ}
    (hdone : t.asks answers = none) : (t.run answers).1 = some (some 0) :=
  (h.run answers).2 hdone

end

end Uperf
