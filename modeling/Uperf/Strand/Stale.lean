import Uperf.Strand.Disconnect
import Uperf.Strand.Library

/-!
# Connections that flowops remember

A flowop remembers the connection it has looked up, and a connect, an accept or a
disconnect makes the flowops after it look theirs up again, but not those before
it, which come next in the following iteration.  `Traced` says what a run of
`txn_iterations` executes, and `fields_inPool` when no flowop is executed with a
connection that has left the pool.
-/

namespace Uperf

open Lib

/-! ## Traces -/

/-- The connections after a flowop.  One that does not come back changes nothing. -/
def Execution.after (e : Execution) : StrandConns :=
  match e.act with
  | none => e.before
  | some act => (e.before.step act).getD e.before

/-- The flowop was executed in an earlier iteration, or at an earlier position of
this one or here. -/
def Execution.Upto (e : Execution) (iter pos : ℕ) : Prop :=
  e.iter < iter ∨ (e.iter = iter ∧ e.pos ≤ pos)

/-- The flowop at the position does this with connections. -/
def Execution.Fits (flist : List Flowop) (e : Execution) : Prop :=
  ∃ f, flist[e.pos]? = some f ∧
    match e.act with
    | none => True
    | some (.connect j f' _) => j = e.pos ∧ f' = f ∧ f.execute = some .flowopConnect
    | some (.accept j f' _) => j = e.pos ∧ f' = f ∧ f.execute = some .flowopAccept
    | some (.disconnect j f' _) => j = e.pos ∧ f' = f ∧ f.execute = some .flowopDisconnect
    | some (.rw j f') =>
        j = e.pos ∧ f' = f ∧ (f.execute = some .flowopRw ∨ f.execute = some .flowopSendfilev)
    | some .begin | some (.others _) => False

/-- The flowops of the list have been executed in the order of the record, and the
connections are now `s`. -/
inductive Traced (flist : List Flowop) (start : StrandConns) : List Execution → StrandConns → Prop
  | start : Traced flist start [] start
  | cursor {log : List Execution} {s : StrandConns} (h : Traced flist start log s) (cursor : ℕ) :
      Traced flist start log { s with currentReplacement := cursor }
  | execute {log : List Execution} {s : StrandConns} (h : Traced flist start log s)
      (e : Execution) (hbefore : e.before = s) (hfits : e.Fits flist)
      (hupto : ∀ e' ∈ log, e'.Upto e.iter e.pos) : Traced flist start (log ++ [e]) e.after

section

variable {ε : Type} {E : StrandEnv ε} {flist : List Flowop} {start : StrandConns} {j : ℕ}

/-- The record of the strand is a trace that goes up to the position `j`. -/
structure Recorded (flist : List Flowop) (start : StrandConns) (j : ℕ) (w : StrandWorld ε) :
    Prop where
  traced : Traced flist start w.log w.conns
  upto : ∀ e ∈ w.log, e.Upto w.iter j

/-- A trace, wherever it ends. -/
def Stopped (flist : List Flowop) (start : StrandConns) (w : StrandWorld ε) : Prop :=
  Traced flist start w.log w.conns

theorem Recorded.outside {α : Type} (x : StateM ε α) :
    Exec.Triple (Recorded flist start j) (outside x) (fun _ => Recorded flist start j)
      (Stopped flist start) :=
  (Exec.Triple.onPart x fun _ _ h => ⟨h.traced, h.upto⟩).imp (fun _ h => h) (fun _ _ h => h)
    fun _ h => h.traced

theorem Recorded.snoc {w : StrandWorld ε} (h : Recorded flist start j w) (act : Option ConnAct)
    (hfits : Execution.Fits flist ⟨w.iter, j, act, w.conns⟩) :
    Recorded flist start j
      { w.record j act with conns := (⟨w.iter, j, act, w.conns⟩ : Execution).after } where
  traced := h.traced.execute _ rfl hfits h.upto
  upto e he := by
    rcases List.mem_append.mp he with he | he
    · exact h.upto e he
    · rw [List.mem_singleton.mp he]
      exact .inr ⟨rfl, le_refl j⟩

theorem Recorded.perform (act : ConnAct)
    (hfits : ∀ iter before, Execution.Fits flist ⟨iter, j, some act, before⟩) :
    Exec.Triple (Recorded (ε := ε) flist start j) (perform j act)
      (fun _ => Recorded flist start j) (Stopped flist start) := by
  intro w h
  have hsnoc := h.snoc (some act) (hfits w.iter w.conns)
  simp only [Uperf.perform, Exec.runFrom_bind, Exec.runFrom_change, Exec.runFrom_state]
  cases hstep : connStep (w.record j (some act)).conns act with
  | none =>
      have hstuck : (⟨w.iter, j, some act, w.conns⟩ : Execution).after = w.conns := by
        have hnone : w.conns.step act = none := by
          rw [StrandConns.step, Option.map_eq_none_iff]
          exact hstep
        simp [Execution.after, hnone]
      have htraced := hsnoc.traced
      rw [hstuck] at htraced
      exact htraced
  | some result =>
      obtain ⟨ret, conns⟩ := result
      have hafter : (⟨w.iter, j, some act, w.conns⟩ : Execution).after = conns := by
        have hsome : w.conns.step act = some conns := by
          rw [StrandConns.step, Option.map_eq_some_iff]
          exact ⟨_, hstep, rfl⟩
        simp [Execution.after, hsome]
      rw [hafter] at hsnoc
      exact hsnoc

theorem Recorded.flowopSize (f : Flowop) :
    Exec.Triple (Recorded flist start j) (flowopSize E f) (fun _ => Recorded flist start j)
      (Stopped flist start) := by
  unfold Uperf.flowopSize
  split_ifs
  · refine (Recorded.outside E.rand).bind fun rand => ?_
    cases myRandom rand f.options.randSzMin f.options.randSzMax with
    | none => exact Exec.Triple.failure fun _ h => h.traced
    | some size => exact Exec.Triple.pure fun _ h => h
  · exact Exec.Triple.pure fun _ h => h
  · exact Exec.Triple.pure fun _ h => h

theorem Recorded.rwLoop (f : Flowop) (c size rounds sz : ℕ) :
    Exec.Triple (Recorded flist start j) (rwLoop E f c size rounds sz)
      (fun _ => Recorded flist start j) (Stopped flist start) := by
  induction rounds generalizing sz with
  | zero => exact Exec.Triple.pure fun _ h => h
  | succ rounds ih =>
      unfold Uperf.rwLoop
      split
      · refine (Recorded.outside E.signalled).bind fun signalled => ?_
        split
        · exact Exec.Triple.pure fun _ h => h
        · refine (Recorded.outside (E.transfer f c sz (size - sz))).bind fun n => ?_
          split_ifs
          · refine (Recorded.outside (E.setErrno eintr)).bind fun _ => ?_
            exact Exec.Triple.pure fun _ h => h
          · exact Exec.Triple.pure fun _ h => h
          · exact Exec.Triple.pure fun _ h => h
          · exact ih _
      · exact Exec.Triple.pure fun _ h => h

/-- The state read back. -/
theorem Recorded.state : Exec.Triple (Recorded (ε := ε) flist start j) Exec.state
    (fun _ => Recorded flist start j) (Stopped flist start) :=
  Exec.Triple.state fun _ h => h

theorem Recorded.change {g : StrandWorld ε → StrandWorld ε}
    (hg : ∀ w, Recorded flist start j w → Recorded flist start j (g w)) :
    Exec.Triple (Recorded flist start j) (Exec.change g) (fun _ => Recorded flist start j)
      (Stopped flist start) :=
  Exec.Triple.change hg

theorem Recorded.flowopRw {f : Flowop} (hf : flist[j]? = some f)
    (hexecute : f.execute = some .flowopRw) :
    Exec.Triple (Recorded flist start j) (flowopRw E j f) (fun _ => Recorded flist start j)
      (Stopped flist start) := by
  refine (Recorded.perform (.rw j f) fun _ _ => ⟨f, hf, rfl, rfl, .inl hexecute⟩).bind fun ret => ?_
  refine Recorded.state.bind fun w => ?_
  cases w.conns.connection j with
  | none => exact Exec.Triple.pure fun _ h => h
  | some c =>
      refine (Recorded.flowopSize f).bind fun size => ?_
      split_ifs
      · exact Exec.Triple.pure fun _ h => h
      · exact Exec.Triple.failure fun _ h => h.traced
      · exact Recorded.rwLoop f c _ _ _

theorem Recorded.flowopSendfilev {f : Flowop} (hf : flist[j]? = some f)
    (hexecute : f.execute = some .flowopSendfilev) :
    Exec.Triple (Recorded flist start j) (flowopSendfilev E j f) (fun _ => Recorded flist start j)
      (Stopped flist start) := by
  refine (Recorded.perform (.rw j f) fun _ _ => ⟨f, hf, rfl, rfl, .inr hexecute⟩).bind fun ret => ?_
  refine Recorded.state.bind fun w => ?_
  cases w.conns.connection j with
  | none => exact Exec.Triple.pure fun _ h => h
  | some c => exact Recorded.outside (E.sendfile f c)

theorem Recorded.executeFlowop {f : Flowop} (hf : flist[j]? = some f) :
    Exec.Triple (Recorded flist start j) (executeFlowop E j f) (fun _ => Recorded flist start j)
      (Stopped flist start) := by
  -- a flowop that has nothing to do with connections
  have hrecord : Exec.Triple (Recorded (ε := ε) flist start j)
      (Exec.change fun w => w.record j none) (fun _ => Recorded flist start j)
      (Stopped flist start) :=
    Recorded.change fun w h => by
      have hsnoc := h.snoc none ⟨f, hf, trivial⟩
      exact ⟨hsnoc.traced, hsnoc.upto⟩
  refine (Recorded.outside E.cursor).bind fun cursor => ?_
  have hcursor : Exec.Triple (Recorded (ε := ε) flist start j)
      (Exec.change fun w =>
        { w with conns := { w.conns with currentReplacement := (cursor : ℕ) } })
      (fun _ => Recorded flist start j) (Stopped flist start) :=
    Recorded.change fun w h => ⟨h.traced.cursor cursor, h.upto⟩
  refine hcursor.bind fun _ => ?_
  cases hexecute : f.execute with
  | none => exact Exec.Triple.failure fun _ h => h.traced
  | some func =>
      cases func with
      | flowopRw => exact Recorded.flowopRw hf hexecute
      | flowopSendfilev => exact Recorded.flowopSendfilev hf hexecute
      | flowopConnect =>
          refine (Recorded.outside (E.connect f)).bind fun outcome => ?_
          exact Recorded.perform (.connect j f outcome) fun _ _ => ⟨f, hf, rfl, rfl, hexecute⟩
      | flowopAccept =>
          refine (Recorded.outside (E.accept f)).bind fun accepted => ?_
          exact Recorded.perform (.accept j f accepted) fun _ _ => ⟨f, hf, rfl, rfl, hexecute⟩
      | flowopDisconnect =>
          refine (Recorded.outside (E.disconnect f)).bind fun closed => ?_
          exact Recorded.perform (.disconnect j f closed) fun _ _ => ⟨f, hf, rfl, rfl, hexecute⟩
      | flowopNop => exact hrecord.bind fun _ => Exec.Triple.pure fun _ h => h
      | flowopThink => exact hrecord.bind fun _ => Recorded.outside (E.think f)
      | flowopUnknown => exact hrecord.bind fun _ => Exec.Triple.pure fun _ h => h

theorem strandMachine_keeps :
    (strandMachine E).Keeps flist (Recorded flist start) (Stopped flist start) where
  next j w h := ⟨h.traced, fun e he => (h.upto e he).imp_right fun hpos => ⟨hpos.1, by omega⟩⟩
  signalled _ := Recorded.outside E.signalled
  errno _ := Recorded.outside E.errno
  execute _ _ hf := Recorded.executeFlowop hf
  flowopBegin _ := Exec.Triple.pure fun _ h => h
  flowopEnd _ _ _ := Exec.Triple.pure fun _ h => h
  txnBegin _ := Exec.Triple.change fun w h => ⟨h.traced, fun e he => .inl (by
    rcases h.upto e he with hiter | ⟨hiter, -⟩
    · exact Nat.lt_succ_of_lt hiter
    · exact Nat.lt_succ_of_le hiter.le)⟩
  txnEnd _ := Exec.Triple.pure fun _ h => h

/-- What `txn_iterations` executes. -/
theorem traced_txnIterations (E : StrandEnv ε) (txn : Txn) (w : StrandWorld ε) (hlog : w.log = []) :
    Traced txn.flist w.conns ((txnIterations (strandMachine E) txn).runFrom w).2.log
      ((txnIterations (strandMachine E) txn).runFrom w).2.conns := by
  have hstart : Recorded txn.flist w.conns 0 w := by
    constructor
    · rw [hlog]
      exact .start
    · simp [hlog]
  have hkeeps : (strandMachine E).Keeps txn.flist (Recorded txn.flist w.conns)
      (Stopped txn.flist w.conns) := strandMachine_keeps
  have hrun := hkeeps.txnIterations w hstart
  generalize (txnIterations (strandMachine E) txn).runFrom w = result at hrun ⊢
  rcases result with ⟨_ | ret, w'⟩
  · exact hrun
  · obtain ⟨j, hrun⟩ := hrun
    exact hrun.traced

end

/-! ## What becomes of a field -/

/-- The flowop reset the fields from its position on. -/
def Execution.Succeeds (e : Execution) : Prop :=
  match e.act with
  | some (.connect _ _ outcome) => outcome = .connected
  | some (.accept _ f accepted) =>
      accepted = true ∧ e.before.listenConn f.options.protocol ≠ none
  | some (.disconnect _ f _) =>
      ∃ p s, strandGetConnection e.before f.connId = some (some p, s)
  | _ => False

/-- A disconnect that takes the connection `c` out of the pool. -/
def Execution.Removes (e : Execution) (c : ℕ) : Prop :=
  ∃ j f closed, e.act = some (.disconnect j f closed) ∧ e.before.scan f.connId = some (some c)

/-- An accept does not hand out an object that is in the pool, nor one that was not
at its head when it left. -/
def Execution.AcceptsClean (e : Execution) : Prop :=
  ∀ j f accepted, e.act = some (.accept j f accepted) →
    ReturnsClean e.before (.accept j f accepted)

section

variable {flist : List Flowop} {e : Execution} {l : List ℕ} {i c : ℕ}

theorem Execution.Fits.at_pos {act : ConnAct} (hfits : e.Fits flist) (hact : e.act = some act) :
    (∃ f outcome, act = .connect e.pos f outcome) ∨ (∃ f accepted, act = .accept e.pos f accepted) ∨
      (∃ f closed, act = .disconnect e.pos f closed) ∨ ∃ f, act = .rw e.pos f := by
  obtain ⟨f, -, hkind⟩ := hfits
  rw [hact] at hkind
  cases act with
  | connect j f' outcome => exact .inl ⟨f', outcome, by rw [hkind.1]⟩
  | accept j f' accepted => exact .inr (.inl ⟨f', accepted, by rw [hkind.1]⟩)
  | disconnect j f' closed => exact .inr (.inr (.inl ⟨f', closed, by rw [hkind.1]⟩))
  | rw j f' => exact .inr (.inr (.inr ⟨f', by rw [hkind.1]⟩))
  | begin => exact hkind.elim
  | others cursor => exact hkind.elim

/-- What a flowop does to the pool: a disconnect takes out at most one connection,
and nothing else takes out any. -/
theorem Execution.tidy_after (h : e.before.Tidy l) (hclean : e.AcceptsClean) :
    ∃ l', e.after.Tidy l' ∧ ∀ c ∈ l, c ∈ l' ∨ e.Removes c := by
  have hsame : ∀ {s : StrandConns}, s.Tidy l → ∃ l', s.Tidy l' ∧ ∀ c ∈ l, c ∈ l' ∨ e.Removes c :=
    fun hs => ⟨l, hs, fun c hc => .inl hc⟩
  have hmore : ∀ {s : StrandConns} {p : ℕ}, s.Tidy (p :: l) →
      ∃ l', s.Tidy l' ∧ ∀ c ∈ l, c ∈ l' ∨ e.Removes c :=
    fun hs => ⟨_, hs, fun c hc => .inl (List.mem_cons_of_mem _ hc)⟩
  unfold Execution.after
  cases hact : e.act with
  | none => exact hsame h
  | some act =>
      show ∃ l', ((e.before.step act).getD e.before).Tidy l' ∧ _
      rw [StrandConns.step]
      cases act with
      | connect j f outcome =>
          obtain ⟨ret, s', hconnect, hcases⟩ := h.connect j f outcome
          rw [connStep, hconnect]
          rcases hcases with ⟨-, htidy⟩ | ⟨-, htidy⟩
          · exact hsame htidy
          · exact hmore htidy
      | accept j f accepted =>
          cases haccept : flowopAccept e.before j f accepted with
          | none =>
              rw [connStep, haccept]
              exact hsame h
          | some result =>
              obtain ⟨ret, s'⟩ := result
              rw [connStep, haccept]
              rcases h.accept (hclean j f accepted hact) haccept with
                ⟨-, -, rfl⟩ | ⟨-, -, -, p, htidy⟩
              · exact hsame h
              · exact hmore htidy
      | disconnect j f closed =>
          obtain ⟨ret, s', hdisconnect, hcases⟩ := h.disconnect_cases j f closed
          rw [connStep, hdisconnect]
          rcases hcases with ⟨-, htidy⟩ | ⟨p, first, rest, hfind, hl, htidy, -⟩
          · exact hsame htidy
          · refine ⟨_, htidy, fun c hc => ?_⟩
            by_cases hcp : c = p
            · subst hcp
              exact .inr ⟨j, f, closed, hact, by rw [h.scan, hfind]⟩
            · rw [hl] at hc
              simp only [List.mem_append, List.mem_cons] at hc ⊢
              tauto
      | rw j f =>
          obtain ⟨p, s', hlookup, htidy⟩ := h.lookup j f
          rw [connStep, hlookup]
          exact hsame htidy
      | begin | others => exact hsame (h.congr _ _)

/-- A disconnect that finds a connection resets the fields, any other one leaves
them alone. -/
theorem StrandConns.Tidy.disconnect_connection {s s' : StrandConns} (h : s.Tidy l) {j : ℕ}
    {f : Flowop} {closed : Bool} {ret : Int32}
    (hdisconnect : flowopDisconnect s j f closed = some (ret, s')) :
    ((∃ p s₁, strandGetConnection s f.connId = some (some p, s₁)) ∧
      s'.connection = (s.resetFrom j).connection) ∨
    ((∀ p s₁, strandGetConnection s f.connId ≠ some (some p, s₁)) ∧
      l.find? (s.hasId f.connId) = none ∧ s'.connection = s.connection) := by
  obtain ⟨found, s₁, hget, hsame, htidy, hconnection, -⟩ := h.get f.connId
  rw [flowopDisconnect, hget] at hdisconnect
  cases found with
  | none =>
      cases hdisconnect
      refine .inr ⟨by simp [hget], ?_, hconnection⟩
      rcases h.get_cases f.connId with ⟨hget', hcached⟩ | ⟨-, hfind⟩ | ⟨p, hget', -⟩
      · rw [hget] at hget'
        exact absurd (Prod.mk.inj (Option.some.inj hget')).1.symm hcached
      · exact hfind
      · rw [hget] at hget'
        cases hget'
  | some datap =>
      refine .inl ⟨⟨datap, s₁, hget⟩, ?_⟩
      have hreset : ∀ s₂ : StrandConns, s₂.connection = s.connection →
          (s₂.resetFrom j).connection = (s.resetFrom j).connection := by
        intro s₂ hs₂
        simp only [StrandConns.resetFrom, hs₂]
      have hclosed := htidy.close datap
      cases hfind : l.find? ((s₁.close datap).hasId f.connId) with
      | none =>
          simp only [hclosed.delete_none hfind] at hdisconnect
          cases hdisconnect
          exact hreset _ hconnection
      | some p =>
          simp only [(hclosed.delete_some hfind).1] at hdisconnect
          cases hdisconnect
          exact hreset _ hconnection

/-- A lookup enters connections of the pool. -/
theorem StrandConns.Tidy.lookup_connection {s s' : StrandConns} (h : s.Tidy l) {j : ℕ}
    {f : Flowop} {p : Option ℕ} (hlookup : flowopLookup s j f = some (p, s')) {i c : ℕ}
    (hc : s'.connection i = some c) : s.connection i = some c ∨ (i = j ∧ c ∈ l) := by
  unfold flowopLookup at hlookup
  cases hj : s.connection j with
  | some p' =>
      rw [hj] at hlookup
      cases hlookup
      exact .inl hc
  | none =>
      obtain ⟨found, s₁, hget, -, -, hconnection, hfound⟩ := h.get f.connId
      simp only [hj, hget] at hlookup
      cases hlookup
      dsimp only at hc
      by_cases hij : i = j
      · subst hij
        rw [Function.update_self] at hc
        exact .inr ⟨rfl, hfound c hc⟩
      · rw [Function.update_of_ne hij, hconnection] at hc
        exact .inl hc

theorem flowopAccept_eq_none {s : StrandConns} {j : ℕ} {f : Flowop} {accepted : Bool} :
    flowopAccept s j f accepted = none ↔ s.listenConn f.options.protocol = none := by
  unfold flowopAccept
  cases s.listenConn f.options.protocol with
  | none => simp
  | some cntrp =>
      simp only [reduceCtorEq, iff_false]
      split_ifs <;> simp

theorem Execution.succeeds_connect {j : ℕ} {f : Flowop} {outcome : ConnectOutcome}
    (hact : e.act = some (.connect j f outcome)) : e.Succeeds ↔ outcome = .connected := by
  rw [Execution.Succeeds, hact]

theorem Execution.succeeds_accept {j : ℕ} {f : Flowop} {accepted : Bool}
    (hact : e.act = some (.accept j f accepted)) :
    e.Succeeds ↔ accepted = true ∧ e.before.listenConn f.options.protocol ≠ none := by
  rw [Execution.Succeeds, hact]

theorem Execution.succeeds_disconnect {j : ℕ} {f : Flowop} {closed : Bool}
    (hact : e.act = some (.disconnect j f closed)) :
    e.Succeeds ↔ ∃ p s, strandGetConnection e.before f.connId = some (some p, s) := by
  rw [Execution.Succeeds, hact]

theorem Execution.not_removes {act : Option ConnAct} (hact : e.act = act)
    (hother : ∀ j f closed, act ≠ some (.disconnect j f closed)) (c : ℕ) : ¬ e.Removes c := by
  rintro ⟨j, f, closed, hdisconnect, -⟩
  exact hother j f closed (hact.symm.trans hdisconnect)

/-- What a flowop does to the fields: those from its position on are reset, or it
looks up its own and leaves the others alone. -/
theorem Execution.connection_after (h : e.before.Tidy l) (hfits : e.Fits flist)
    (hclean : e.AcceptsClean) :
    (e.Succeeds ∧ e.after.connection = (e.before.resetFrom e.pos).connection) ∨
      (¬ e.Succeeds ∧ (∀ c, ¬ e.Removes c) ∧
        ∀ i c, e.after.connection i = some c → e.before.connection i = some c ∨
          (i = e.pos ∧ c ∈ l ∧ ∃ f, e.act = some (.rw e.pos f))) := by
  cases hact : e.act with
  | none =>
      refine .inr ⟨by simp [Execution.Succeeds, hact], e.not_removes hact (by simp), ?_⟩
      intro i c hc
      rw [Execution.after, hact] at hc
      exact .inl hc
  | some act =>
      have hafter : e.after = (e.before.step act).getD e.before := by rw [Execution.after, hact]
      rw [hafter, StrandConns.step]
      rcases hfits.at_pos hact with
        ⟨f, outcome, rfl⟩ | ⟨f, accepted, rfl⟩ | ⟨f, closed, rfl⟩ | ⟨f, rfl⟩
      · cases outcome with
        | connected => exact .inl ⟨(e.succeeds_connect hact).mpr rfl, rfl⟩
        | failed | refused =>
            refine .inr ⟨by simp [e.succeeds_connect hact], e.not_removes hact (by simp), ?_⟩
            exact fun i c hc => .inl hc
      · cases haccept : flowopAccept e.before e.pos f accepted with
        | none =>
            rw [connStep, haccept]
            refine .inr ⟨?_, e.not_removes hact (by simp), fun i c hc => .inl hc⟩
            rw [e.succeeds_accept hact]
            exact fun hsucceeds => hsucceeds.2 (flowopAccept_eq_none.mp haccept)
        | some result =>
            obtain ⟨ret, s'⟩ := result
            rw [connStep, haccept]
            rcases h.accept (hclean _ _ _ hact) haccept with
              ⟨-, rfl, rfl⟩ | ⟨-, rfl, hreset, -⟩
            · refine .inr ⟨?_, e.not_removes hact (by simp), fun i c hc => .inl hc⟩
              simp [e.succeeds_accept hact]
            · refine .inl ⟨(e.succeeds_accept hact).mpr ⟨rfl, fun hnone => ?_⟩, hreset⟩
              rw [flowopAccept_eq_none.mpr hnone] at haccept
              cases haccept
      · obtain ⟨ret, s', hdisconnect, -⟩ := h.disconnect_cases e.pos f closed
        rw [connStep, hdisconnect]
        rcases h.disconnect_connection hdisconnect with
          ⟨hfound, hreset⟩ | ⟨hfound, hfind, hsame⟩
        · exact .inl ⟨(e.succeeds_disconnect hact).mpr hfound, hreset⟩
        · refine .inr ⟨?_, ?_, ?_⟩
          · rw [e.succeeds_disconnect hact]
            rintro ⟨p, s₁, hget⟩
            exact hfound p s₁ hget
          · rintro c ⟨j, f', closed', hact', hscan⟩
            rw [hact] at hact'
            cases hact'
            rw [h.scan, hfind] at hscan
            cases hscan
          · intro i c hc
            refine .inl ?_
            rw [← hsame]
            exact hc
      · refine .inr ⟨by simp [Execution.Succeeds, hact], e.not_removes hact (by simp), ?_⟩
        intro i c hc
        obtain ⟨p, s', hlookup, -⟩ := h.lookup e.pos f
        rw [connStep, hlookup] at hc
        rcases h.lookup_connection hlookup hc with hold | ⟨hi, hmem⟩
        · exact .inl hold
        · exact .inr ⟨hi, hmem, f, rfl⟩

/-! ## Fields along a trace -/

/-- A disconnect took out the connection that the flowop at `i` has, and nothing has
reset its field since. -/
def LeftBehind (log : List Execution) (i c : ℕ) : Prop :=
  ∃ first e rest, log = first ++ e :: rest ∧ e.Removes c ∧ i < e.pos ∧
    e.before.connection i = some c ∧ ∀ e' ∈ rest, ¬ (e'.Succeeds ∧ e'.pos ≤ i)

/-- The flowop at the position looks up a connection. -/
def LooksUp (flist : List Flowop) (i : ℕ) : Prop :=
  ∃ f, flist[i]? = some f ∧
    (f.execute = some .flowopRw ∨ f.execute = some .flowopSendfilev)

/-- The fields hold connections of the pool, or ones left behind by a disconnect. -/
structure Fields (flist : List Flowop) (log : List Execution) (s : StrandConns) (l : List ℕ) :
    Prop where
  tidy : s.Tidy l
  looksUp : ∀ {i c}, s.connection i = some c → LooksUp flist i
  held : ∀ {i c}, s.connection i = some c → c ∈ l ∨ LeftBehind log i c

theorem LeftBehind.snoc {log : List Execution} (h : LeftBehind log i c)
    (hkeeps : ¬ (e.Succeeds ∧ e.pos ≤ i)) : LeftBehind (log ++ [e]) i c := by
  obtain ⟨first, e₀, rest, rfl, hremoves, hpos, hfield, hrest⟩ := h
  refine ⟨first, e₀, rest ++ [e], by simp, hremoves, hpos, hfield, fun e' he' => ?_⟩
  rcases List.mem_append.mp he' with he' | he'
  · exact hrest e' he'
  · rw [List.mem_singleton.mp he']
    exact hkeeps

theorem Fields.execute {log : List Execution} (h : Fields flist log e.before l)
    (hfits : e.Fits flist) (hclean : e.AcceptsClean) :
    ∃ l', Fields flist (log ++ [e]) e.after l' := by
  obtain ⟨l', htidy, hstays⟩ := e.tidy_after h.tidy hclean
  refine ⟨l', htidy, fun {i c} hc => ?_, fun {i c} hc => ?_⟩ <;>
    rcases e.connection_after h.tidy hfits hclean with ⟨-, hreset⟩ | ⟨hfails, hremoves, hfields⟩
  · rw [hreset] at hc
    exact h.looksUp (Option.ite_none_left_eq_some.mp hc).2
  · rcases hfields i c hc with hold | ⟨rfl, -, f, hact⟩
    · exact h.looksUp hold
    · obtain ⟨f', hf', hkind⟩ := hfits
      rw [hact] at hkind
      exact ⟨f', hf', hkind.2.2⟩
  · -- the flowops before the one that succeeds keep their fields
    rw [hreset] at hc
    obtain ⟨hpos, hold⟩ := Option.ite_none_left_eq_some.mp hc
    rcases h.held hold with hmem | hleft
    · rcases hstays c hmem with hmem | hremoves
      · exact .inl hmem
      · exact .inr ⟨log, e, [], rfl, hremoves, by omega, hold, by simp⟩
    · exact .inr (hleft.snoc fun hresets => hpos hresets.2)
  · have hmember : c ∈ l → c ∈ l' := fun hmem => (hstays c hmem).resolve_right (hremoves c)
    rcases hfields i c hc with hold | ⟨-, hmem, -⟩
    · exact (h.held hold).imp hmember fun hleft => hleft.snoc fun hresets => hfails hresets.1
    · exact .inl (hmember hmem)

variable {start s : StrandConns} {log : List Execution}

/-- The fields of a strand that starts a transaction with a tidy pool. -/
theorem Traced.fields (htrace : Traced flist start log s) (hstart : start.Tidy l)
    (hempty : ∀ i, start.connection i = none) (hclean : ∀ e ∈ log, e.AcceptsClean) :
    ∃ l', Fields flist log s l' := by
  induction htrace with
  | start =>
      refine ⟨l, hstart, fun {i c} hc => ?_, fun {i c} hc => ?_⟩ <;>
        rw [hempty i] at hc <;> cases hc
  | cursor htrace cursor ih =>
      obtain ⟨l', h⟩ := ih hclean
      exact ⟨l', h.tidy.congr _ _, h.looksUp, h.held⟩
  | execute htrace e hbefore hfits hupto ih =>
      obtain ⟨l', h⟩ := ih fun e' he' => hclean e' (List.mem_append_left _ he')
      subst hbefore
      exact h.execute hfits (hclean e (List.mem_append_right _ (List.mem_singleton_self e)))

/-- The trace before one of its flowops. -/
theorem Traced.split (htrace : Traced flist start log s) {first rest : List Execution}
    {e : Execution} (hlog : log = first ++ e :: rest) :
    Traced flist start first e.before ∧ e.Fits flist ∧
      (∀ e' ∈ first, e'.Upto e.iter e.pos) ∧ ∀ e' ∈ rest, e.Upto e'.iter e'.pos := by
  induction htrace generalizing rest with
  | start => simp at hlog
  | cursor htrace cursor ih => exact ih hlog
  | execute htrace e₁ hbefore hfits hupto ih =>
      rcases List.eq_nil_or_concat rest with rfl | ⟨rest, e₂, rfl⟩
      · obtain ⟨rfl, rfl⟩ := List.append_singleton_inj.mp hlog
        exact ⟨hbefore ▸ htrace, hfits, hupto, by simp⟩
      · rw [List.concat_eq_append, ← List.cons_append, ← List.append_assoc] at hlog
        obtain ⟨rfl, rfl⟩ := List.append_singleton_inj.mp hlog
        obtain ⟨htrace', hfits', hupto', hrest⟩ := ih rfl
        refine ⟨htrace', hfits', hupto', fun e' he' => ?_⟩
        rw [List.concat_eq_append] at he'
        rcases List.mem_append.mp he' with he' | he'
        · exact hrest e' he'
        · rw [List.mem_singleton.mp he']
          exact hupto e (List.mem_append_right _ List.mem_cons_self)

/-- When a disconnect takes out a connection that an earlier flowop of the
transaction has, and this flowop is executed again, then a flowop at or before its
position has succeeded to connect, accept or disconnect in between. -/
def Renewed (log : List Execution) : Prop :=
  ∀ e ∈ log, ∀ c, e.Removes c → ∀ i < e.pos, e.before.connection i = some c →
    ∀ e' ∈ log, e'.pos = i → e.iter < e'.iter →
      ∃ e'' ∈ log, e.iter < e''.iter ∧ e''.Upto e'.iter i ∧ e''.pos ≤ i ∧ e''.Succeeds

/-- The connection that the flowop has, if it has one, is in the pool. -/
def Execution.FieldInPool (e : Execution) : Prop :=
  ∃ l, e.before.Pool l ∧ ∀ c, e.before.connection e.pos = some c → c ∈ l

/-- A flowop that looks up a connection does not reset fields. -/
theorem Execution.Fits.not_succeeds (hfits : e.Fits flist) (hlooks : LooksUp flist e.pos) :
    ¬ e.Succeeds := by
  intro hsucceeds
  obtain ⟨f, hf, hkind⟩ := hfits
  obtain ⟨f', hf', hexecute⟩ := hlooks
  obtain rfl := Option.some_inj.mp (hf.symm.trans hf')
  unfold Execution.Succeeds at hsucceeds
  split at hsucceeds
  · rename_i hact
    rw [hact] at hkind
    simp [hkind.2.2] at hexecute
  · rename_i hact
    rw [hact] at hkind
    simp [hkind.2.2] at hexecute
  · rename_i hact
    rw [hact] at hkind
    simp [hkind.2.2] at hexecute
  · exact hsucceeds

theorem Traced.fieldInPool (htrace : Traced flist start log s) (hstart : start.Tidy l)
    (hempty : ∀ i, start.connection i = none) (hclean : ∀ e ∈ log, e.AcceptsClean)
    (hrenewed : Renewed log) : ∀ e ∈ log, e.FieldInPool := by
  intro e' he'
  obtain ⟨before, after, hlog⟩ := List.append_of_mem he'
  obtain ⟨htrace', hfits, hupto, hlater⟩ := htrace.split hlog
  have hbefore : ∀ e ∈ before, e ∈ log := fun e he => hlog ▸ List.mem_append_left _ he
  obtain ⟨l', hfields⟩ := htrace'.fields hstart hempty fun e he => hclean e (hbefore e he)
  refine ⟨l', hfields.tidy.pool, fun c hc => ?_⟩
  rcases hfields.held hc with hmem | ⟨first, e, rest, rfl, hremoves, hpos, hfield, hrest⟩
  · exact hmem
  · exfalso
    have hiter : e.iter < e'.iter := by
      rcases hupto e (List.mem_append_right _ List.mem_cons_self) with hlt | ⟨-, hle⟩
      · exact hlt
      · omega
    obtain ⟨e'', he'', hiter'', hupto'', hpos'', hsucceeds⟩ :=
      hrenewed e (hbefore e (List.mem_append_right _ List.mem_cons_self)) c hremoves e'.pos hpos
        hfield e' he' rfl hiter
    obtain ⟨before'', after'', hlog''⟩ := List.append_of_mem he''
    obtain ⟨-, hfits'', -, -⟩ := htrace.split hlog''
    have hnotLater : e'.Upto e''.iter e''.pos → False := by
      intro hupto'
      -- both are executed at the position that looks up the connection
      have hsame : e''.pos = e'.pos := by
        rcases hupto' with hlt | ⟨heq, hle⟩ <;> rcases hupto'' with hlt' | ⟨heq', hle'⟩ <;> omega
      exact hfits''.not_succeeds (hsame ▸ hfields.looksUp hc) hsucceeds
    rw [hlog] at he''
    simp only [List.mem_append, List.mem_cons, or_assoc] at he''
    rcases he'' with hmem | rfl | hmem | rfl | hmem
    · rw [List.append_assoc, List.cons_append] at hlog
      rcases (htrace.split hlog).2.2.1 e'' hmem with hlt | ⟨heq, -⟩ <;> omega
    · exact absurd hiter'' (lt_irrefl _)
    · exact hrest e'' hmem ⟨hsucceeds, hpos''⟩
    · exact hnotLater (.inr ⟨rfl, le_refl _⟩)
    · exact hnotLater (hlater e'' hmem)

end

theorem Traced.acceptsClean {flist : List Flowop} {start s : StrandConns} {log : List Execution}
    (htrace : Traced flist start log s) (hnone : ∀ f ∈ flist, f.execute ≠ some .flowopAccept) :
    ∀ e ∈ log, e.AcceptsClean := by
  intro e he j f accepted hact
  obtain ⟨first, rest, hlog⟩ := List.append_of_mem he
  obtain ⟨-, ⟨f', hf', hkind⟩, -, -⟩ := htrace.split hlog
  rw [hact] at hkind
  exact absurd hkind.2.2 (hnone f' (List.mem_of_getElem? hf'))

/-- In every run of `txn_iterations` whose disconnects are followed by a new
connection in time, every flowop is executed with no connection or one of the
pool. -/
theorem fields_inPool {ε : Type} (E : StrandEnv ε) (txn : Txn) (w : StrandWorld ε)
    (hlog : w.log = []) {l : List ℕ} (hpool : w.conns.Tidy l)
    (hempty : ∀ i, w.conns.connection i = none) :
    let log := ((txnIterations (strandMachine E) txn).runFrom w).2.log
    (∀ e ∈ log, e.AcceptsClean) → Renewed log → ∀ e ∈ log, e.FieldInPool :=
  fun hclean hrenewed =>
    (traced_txnIterations E txn w hlog).fieldInPool hpool hempty hclean hrenewed

/-! ## A connection that is opened again each time -/

/-- Nothing fails outside, and every transfer is complete. -/
def calm : StrandEnv Unit where
  signalled := pure false
  errno := pure 0
  setErrno _ := pure ()
  rand := pure 0
  cursor := pure ⟨0, Nat.zero_lt_succ 7⟩
  connect _ := pure .connected
  accept _ := pure true
  disconnect _ := pure true
  supports _ _ := true
  transfer _ _ _ length := pure (Int32.ofNat length)
  sendfile _ _ := pure 0
  think _ := pure 0

/-- A transaction over TCP that executes flowops for connection 1 twice. -/
def twice (types : List FlowopType) : Txn where
  iter := 2
  flist := types.map fun type =>
    { tcpFlowop type 1 with execute := some (flowopGetExecuteFunc type) }

/-- The record of a run with nothing outside failing. -/
def calmLog (txn : Txn) (conns : StrandConns) : List Execution :=
  ((txnIterations (strandMachine calm) txn).runFrom { env := (), conns }).2.log

/-- Where a flowop was executed, and what came of its connect. -/
def Execution.outcome (e : Execution) : ℕ × ℕ × Option ConnectOutcome :=
  (e.iter, e.pos, match e.act with
    | some (.connect _ _ outcome) => some outcome
    | _ => none)

/-- Every flowop of a log was executed with a valid field. -/
def FieldsInPool (log : List Execution) : Prop := ∀ e ∈ log, e.FieldInPool

theorem fields_inPool_reconnect :
    FieldsInPool (calmLog (twice [.connect, .write, .disconnect]) {}) := by
  have hlog : (calmLog (twice [.connect, .write, .disconnect]) {}).map Execution.outcome =
      [(1, 0, some .connected), (1, 1, none), (1, 2, none),
        (2, 0, some .connected), (2, 1, none), (2, 2, none)] := by decide +kernel
  refine fields_inPool calm (twice [.connect, .write, .disconnect]) { env := () } rfl
    strand_fresh.tidy (fun _ => rfl) ?_ ?_
  · intro e he
    have htrace := traced_txnIterations calm (twice [.connect, .write, .disconnect])
      { env := () } rfl
    exact htrace.acceptsClean (by decide) e he
  · intro e he c hremoves i hi hfield e' he' hpos hiter
    -- the connect of the second iteration
    have hiters : ∀ e ∈ calmLog (twice [.connect, .write, .disconnect]) {},
        1 ≤ e.iter ∧ e.iter ≤ 2 := by
      intro e he
      have hmem := List.mem_map_of_mem (f := fun outcome => outcome.1) (hlog ▸
        List.mem_map_of_mem (f := Execution.outcome) he)
      have hiter : e.iter ∈ [1, 1, 1, 2, 2, 2] := hmem
      simp only [List.mem_cons, List.not_mem_nil, or_false] at hiter
      omega
    have hbounds := hiters e he
    have hbounds' := hiters e' he'
    have hconnect : (2, 0, some ConnectOutcome.connected) ∈
        (calmLog (twice [.connect, .write, .disconnect]) {}).map Execution.outcome := by
      rw [hlog]
      decide
    obtain ⟨e'', he'', hsecond⟩ := List.mem_map.mp hconnect
    simp only [Execution.outcome, Prod.mk.injEq] at hsecond
    refine ⟨e'', he'', by omega, .inr ⟨by omega, by omega⟩, by omega, ?_⟩
    have hconnected := hsecond.2.2
    unfold Execution.Succeeds
    split at hconnected
    · rename_i hact
      rw [hact]
      exact Option.some_inj.mp hconnected
    · cases hconnected

/-- A connection is open when the transaction begins, and each iteration reads from
it, closes it and opens it again.  The read of the second iteration still has the
first connection. -/
theorem not_fieldInPool_reopened :
    (flowopConnect {} 0 (tcpFlowop .connect 1) .connected).2.Tidy [0] ∧
      ∃ e ∈ calmLog (twice [.read, .disconnect, .connect])
          (flowopConnect {} 0 (tcpFlowop .connect 1) .connected).2,
        e.iter = 2 ∧ e.pos = 0 ∧ ¬ e.FieldInPool := by
  refine ⟨(strand_fresh.tidy.addNew _).resetFrom 0, ?_⟩
  have hread : (calmLog (twice [.read, .disconnect, .connect])
      (flowopConnect {} 0 (tcpFlowop .connect 1) .connected).2)[3]?.map (fun e =>
        ((e.iter, e.pos), [e.before.connection 0, e.before.cpool, e.before.links.prev 1,
          e.before.links.next 1])) = some ((2, 0), [some 0, some 1, none, none]) := by
    decide +kernel
  obtain ⟨e, he, hread⟩ := Option.map_eq_some_iff.mp hread
  simp only [Prod.mk.injEq, List.cons.injEq] at hread
  obtain ⟨⟨hiter, hpos⟩, hfield, hcpool, hprev, hnext, -⟩ := hread
  refine ⟨e, List.mem_of_getElem? he, hiter, hpos, ?_⟩
  rintro ⟨l, hl, hmem⟩
  have hpool : e.before.Pool [1] := by
    rw [StrandConns.Pool, hcpool]
    exact ⟨⟨rfl, hprev, hnext⟩, List.nodup_singleton 1⟩
  rw [hl.unique hpool] at hmem
  have habsurd := hmem 0 (by rw [hpos, hfield])
  simp at habsurd

end Uperf
