import Uperf.Accepts
import Uperf.Strand.Connections
import Uperf.Lib.Transition

/-!
# Who destroys the listening connections

The object that listens on a fixed port is entered in the `listen_conn` slot of
every thread of the group, one that listens on a port of its own in the slot of
its thread.  A strand passes what it finds in its slots to `destroy_protocol`
when it exits.  `destroyedOnce_iff` says for which groups this happens once to
each object, and never while another strand still has it.
-/

namespace Uperf

open Lib

/-! ## Which object a slot holds

An object is known by the number of the `listen` call made on it. -/

/-- For every strand and protocol the object in the `listen_conn` slot. -/
abbrev ListenObjs := ℕ → UInt32 → Option ℕ

def ListenObjs.set (objs : ListenObjs) (i : ℕ) (protocol : UInt32) (n : ℕ) : ListenObjs :=
  fun i' q => if i' = i ∧ q = protocol then some n else objs i' q

/-- `listenThread`, with the objects. -/
def listenThreadObjs (listen : Listen) (f : Flowop) (ssid : ℕ) (st : ListenState × ListenObjs)
    (i : ℕ) : Option (ListenState × ListenObjs) :=
  (listenThread listen f ssid st.1 i).map fun st' =>
    (st', st.2.set (i + ssid) f.options.protocol st.1.1.listens)

/-- `create_protocols`, with the objects. -/
def createProtocolsObjs (listen : Listen) (nthr : ℕ) (f : Flowop) (ssid : ℕ)
    (st : ListenState × ListenObjs) : Option (ListenState × ListenObjs) :=
  let protocol := f.options.protocol
  if (st.1.2 0).portAt protocol > 0 then some st
  else if f.options.port ≠ 0 then
    (createProtocols listen nthr f ssid st.1).map fun st' =>
      (st', fun i q =>
        if (ssid ≤ i ∧ i < ssid + nthr) ∧ q = protocol then some st.1.1.listens else st.2 i q)
  else (List.range nthr).foldlM (listenThreadObjs listen f ssid) st

/-- The loop body of `preprocess_accepts`, with the objects. -/
def preprocessAcceptObjs (listen : Listen) (g : Group) (ssid : ℕ)
    (st : (Shm × Option SlaveInfos) × ListenObjs) (f : Flowop) :
    Option ((Shm × Option SlaveInfos) × ListenObjs) :=
  let ((shm, sl), objs) := st
  if f.type = .accept then do
    let ((shm, sl), objs) ←
      createProtocolsObjs listen g.nthreads.toNat f ssid ((shm, sl.getD fun _ => {}), objs)
    some (({ shm with txNoSlaveInfo := g.nthreads }, some sl), objs)
  else some ((shm, sl), objs)

/-- `preprocess_accepts`, with the objects. -/
def preprocessAcceptsObjs (listen : Listen) (shm : Shm) (g : Group) (ssid : ℕ) :
    Option ((Shm × Option SlaveInfos) × ListenObjs) :=
  g.flowops.foldlM (preprocessAcceptObjs listen g ssid) ((shm, none), fun _ _ => none)

section

variable {listen : Listen} {f : Flowop} {g : Group} {ssid nthr : ℕ}

@[simp] theorem listenThreadObjs_fst (st : ListenState × ListenObjs) (i : ℕ) :
    (listenThreadObjs listen f ssid st i).map Prod.fst = listenThread listen f ssid st.1 i := by
  simp [listenThreadObjs, Function.comp_def]

theorem createProtocolsObjs_fst (st : ListenState × ListenObjs) :
    (createProtocolsObjs listen nthr f ssid st).map Prod.fst =
      createProtocols listen nthr f ssid st.1 := by
  obtain ⟨⟨shm, sl⟩, objs⟩ := st
  by_cases hentered : (sl 0).portAt f.options.protocol > 0
  · simp [createProtocolsObjs, createProtocols, hentered]
  · by_cases hport : f.options.port ≠ 0
    · simp only [createProtocolsObjs, if_neg hentered, if_pos hport, Option.map_map]
      simp [Function.comp_def]
    · simp only [createProtocolsObjs, createProtocols, if_neg hentered, if_neg hport]
      exact run_map listenThreadObjs_fst _ _

theorem preprocessAcceptObjs_fst (st : (Shm × Option SlaveInfos) × ListenObjs) (f : Flowop) :
    (preprocessAcceptObjs listen g ssid st f).map Prod.fst =
      preprocessAccept listen g ssid st.1 f := by
  obtain ⟨⟨shm, sl⟩, objs⟩ := st
  by_cases haccept : f.type = .accept
  · simp only [preprocessAcceptObjs, preprocessAccept, if_pos haccept]
    rw [← createProtocolsObjs_fst ((shm, sl.getD fun _ => {}), objs)]
    cases createProtocolsObjs listen g.nthreads.toNat f ssid ((shm, sl.getD fun _ => {}), objs) with
    | none => rfl
    | some st' => rfl
  · simp [preprocessAcceptObjs, preprocessAccept, haccept]

/-- The objects are a record beside what `preprocess_accepts` does. -/
theorem preprocessAcceptsObjs_fst (shm : Shm) :
    (preprocessAcceptsObjs listen shm g ssid).map Prod.fst = preprocessAccepts listen shm g ssid :=
  run_map preprocessAcceptObjs_fst _ _

/-- The slots hold what the record says. -/
structure SlotsAgree (listen : Listen) (st : ListenState × ListenObjs) : Prop where
  empty : ∀ {i q}, q.toNat < numProtocols → st.2 i q = none →
    (st.1.1.strands i).listenConnAt q = none
  filled : ∀ {i q n}, q.toNat < numProtocols → st.2 i q = some n →
    ∃ f : Flowop, (st.1.1.strands i).listenConnAt q = some (f.listener listen n)

/-- Slot and record are changed together. -/
theorem SlotsAgree.of_slots {st st' : ListenState × ListenObjs} (h : SlotsAgree listen st)
    (hslots : ∀ i q, q.toNat < numProtocols →
      (st'.2 i q = st.2 i q ∧
        (st'.1.1.strands i).listenConnAt q = (st.1.1.strands i).listenConnAt q) ∨
      ∃ n, st'.2 i q = some n ∧ ∃ f : Flowop,
        (st'.1.1.strands i).listenConnAt q = some (f.listener listen n)) :
    SlotsAgree listen st' := by
  constructor
  · intro i q hq hnone
    rcases hslots i q hq with ⟨hobj, hconn⟩ | ⟨n, hobj, -⟩
    · rw [hconn]
      exact h.empty hq (hobj ▸ hnone)
    · rw [hobj] at hnone
      cases hnone
  · intro i q n hq hsome
    rcases hslots i q hq with ⟨hobj, hconn⟩ | ⟨n', hobj, hconn⟩
    · rw [hconn]
      exact h.filled hq (hobj ▸ hsome)
    · rw [hobj, Option.some_inj] at hsome
      exact hsome ▸ hconn

theorem SlotsAgree.thread {st st' : ListenState × ListenObjs} {i : ℕ} (h : SlotsAgree listen st)
    (hport : f.options.port = 0) (hstep : listenThreadObjs listen f ssid st i = some st') :
    SlotsAgree listen st' := by
  obtain ⟨mid, hmid, rfl⟩ := Option.map_eq_some_iff.mp hstep
  simp only [listenThread, Option.ite_none_left_eq_some, Option.some.injEq] at hmid
  obtain ⟨-, rfl⟩ := hmid
  refine h.of_slots fun i' q hq => ?_
  by_cases hthread : i' = i + ssid
  · subst hthread
    by_cases hprotocol : q = f.options.protocol
    · subst hprotocol
      refine .inr ⟨st.1.1.listens, by simp [ListenObjs.set], f, ?_⟩
      simp [Flowop.listener, Flowop.requestedPort, hport, hq]
    · refine .inl ⟨by simp [ListenObjs.set, hprotocol], ?_⟩
      simp [Strand.listenConnAt_setListenConn_of_ne _ (Ne.symm hprotocol)]
  · exact .inl ⟨by simp [ListenObjs.set, hthread], by simp [hthread]⟩

theorem SlotsAgree.create {st st' : ListenState × ListenObjs} (h : SlotsAgree listen st)
    (hrun : createProtocolsObjs listen nthr f ssid st = some st') : SlotsAgree listen st' := by
  simp only [createProtocolsObjs] at hrun
  split at hrun
  · cases hrun
    exact h
  · rename_i hentered
    split at hrun
    · rename_i hport
      obtain ⟨mid, hmid, rfl⟩ := Option.map_eq_some_iff.mp hrun
      simp only [createProtocols, if_neg hentered, if_pos hport] at hmid
      split at hmid
      · cases hmid
      · cases hmid
        refine h.of_slots fun i q hq => ?_
        by_cases hin : ssid ≤ i ∧ i < ssid + nthr
        · by_cases hprotocol : q = f.options.protocol
          · subst hprotocol
            refine .inr ⟨st.1.1.listens, by simp [hin], f, ?_⟩
            simp [Shm.forThreads, hin, Flowop.listener, Flowop.requestedPort, hport, hq]
          · refine .inl ⟨by simp [hprotocol], ?_⟩
            simp [Shm.forThreads, hin,
              Strand.listenConnAt_setListenConn_of_ne _ (Ne.symm hprotocol)]
        · exact .inl ⟨by simp [hin], by simp [Shm.forThreads, hin]⟩
    · rename_i hport
      exact run_invariant (fun _ _ _ hmid => hmid.thread (by simpa using hport)) h hrun

/-- The record is about what `preprocess_accepts` puts into empty slots. -/
theorem preprocessAcceptsObjs_slots {start : Shm}
    (hempty : ∀ i q, (start.strands i).listenConnAt q = none)
    {st : (Shm × Option SlaveInfos) × ListenObjs}
    (hrun : preprocessAcceptsObjs listen start g ssid = some st) :
    SlotsAgree listen ((st.1.1, st.1.2.getD fun _ => {}), st.2) := by
  have hstart : SlotsAgree listen ((start, fun _ => {}), fun _ _ => none) :=
    ⟨fun _ _ => hempty _ _, fun _ h => nomatch h⟩
  refine run_invariant (P := fun st : (Shm × Option SlaveInfos) × ListenObjs =>
    SlotsAgree listen ((st.1.1, st.1.2.getD fun _ => {}), st.2)) ?_ hstart hrun
  intro mid f mid' hmid hstep
  by_cases haccept : f.type = .accept
  · simp only [preprocessAcceptObjs, if_pos haccept] at hstep
    obtain ⟨⟨⟨shm', sl'⟩, objs'⟩, hcreate, hst'⟩ := Option.bind_eq_some_iff.mp hstep
    have hagree := hmid.create hcreate
    cases hst'
    exact ⟨hagree.empty, hagree.filled⟩
  · simp only [preprocessAcceptObjs, if_neg haccept, Option.some_inj] at hstep
    exact hstep ▸ hmid

/-- What is known of the objects while the slots are filled: those for a protocol
that is not `Shared` are in one slot only. -/
structure Owned (ssid nthr : ℕ) (Shared : UInt32 → Prop) (st : ListenState × ListenObjs) :
    Prop where
  made : ∀ {i q n}, st.2 i q = some n → n < st.1.1.listens
  inside : ∀ {i q n}, st.2 i q = some n → ssid ≤ i ∧ i < ssid + nthr
  apart : ∀ {i q j q' n}, st.2 i q = some n → st.2 j q' = some n →
    q = q' ∧ (i = j ∨ Shared q)

theorem ListenObjs.set_eq_some {objs : ListenObjs} {i i' : ℕ} {q q' : UInt32} {n n' : ℕ}
    (h : objs.set i q n i' q' = some n') : (i' = i ∧ q' = q ∧ n' = n) ∨ objs i' q' = some n' := by
  unfold ListenObjs.set at h
  split at h
  · rename_i hslot
    exact .inl ⟨hslot.1, hslot.2, (Option.some_inj.mp h).symm⟩
  · exact .inr h

theorem listenThreadObjs_cases {st st' : ListenState × ListenObjs} {i : ℕ}
    (hstep : listenThreadObjs listen f ssid st i = some st') :
    st'.2 = st.2.set (i + ssid) f.options.protocol st.1.1.listens ∧
      st'.1.1.listens = st.1.1.listens + 1 := by
  obtain ⟨mid, hmid, rfl⟩ := Option.map_eq_some_iff.mp hstep
  simp only [listenThread, Option.ite_none_left_eq_some, Option.some.injEq] at hmid
  obtain ⟨-, rfl⟩ := hmid
  exact ⟨rfl, rfl⟩

/-- A thread of its own listens on an object of its own. -/
theorem Owned.thread {Shared : UInt32 → Prop} {st st' : ListenState × ListenObjs} {i : ℕ}
    (h : Owned ssid nthr Shared st) (hi : i < nthr)
    (hstep : listenThreadObjs listen f ssid st i = some st') : Owned ssid nthr Shared st' := by
  obtain ⟨hobjs, hlistens⟩ := listenThreadObjs_cases hstep
  constructor
  · intro i' q n hslot
    rw [hobjs] at hslot
    rcases ListenObjs.set_eq_some hslot with ⟨-, -, rfl⟩ | hold
    · omega
    · have hlt := h.made hold
      omega
  · intro i' q n hslot
    rw [hobjs] at hslot
    rcases ListenObjs.set_eq_some hslot with ⟨rfl, -, -⟩ | hold
    · omega
    · exact h.inside hold
  · intro i' q j q' n hslot hslot'
    rw [hobjs] at hslot hslot'
    rcases ListenObjs.set_eq_some hslot with ⟨rfl, rfl, rfl⟩ | hold <;>
      rcases ListenObjs.set_eq_some hslot' with ⟨rfl, rfl, hn⟩ | hold'
    · exact ⟨rfl, .inl rfl⟩
    · exact absurd (h.made hold') (Nat.lt_irrefl _)
    · exact absurd (hn ▸ h.made hold) (Nat.lt_irrefl _)
    · exact h.apart hold hold'

theorem Owned.mono {Shared Shared' : UInt32 → Prop} {st : ListenState × ListenObjs}
    (h : Owned ssid nthr Shared st) (himp : ∀ q, Shared q → Shared' q) :
    Owned ssid nthr Shared' st where
  made := h.made
  inside := h.inside
  apart hslot hslot' := ⟨(h.apart hslot hslot').1, (h.apart hslot hslot').2.imp_right (himp _)⟩

theorem Owned.threads {Shared : UInt32 → Prop} {st st' : ListenState × ListenObjs} {n : ℕ}
    (hn : n ≤ nthr) (h : Owned ssid nthr Shared st)
    (hrun : (List.range n).foldlM (listenThreadObjs listen f ssid) st = some st') :
    Owned ssid nthr Shared st' := by
  induction n generalizing st' with
  | zero =>
      cases hrun
      exact h
  | succ n ih =>
      rw [List.range_succ, List.foldlM_append] at hrun
      obtain ⟨mid, hmid, hlast⟩ := Option.bind_eq_some_iff.mp hrun
      obtain ⟨st'', hstep, hst⟩ := Option.bind_eq_some_iff.mp hlast
      cases hst
      exact (ih (by omega) hmid).thread (by omega) hstep

/-- What one call of `create_protocols` does with the objects: nothing, one
object for all threads, or one for each. -/
theorem createProtocolsObjs_cases {st st' : ListenState × ListenObjs}
    (hrun : createProtocolsObjs listen nthr f ssid st = some st') :
    ((st.1.2 0).portAt f.options.protocol > 0 ∧ st' = st) ∨
    (¬ (st.1.2 0).portAt f.options.protocol > 0 ∧ f.options.port ≠ 0 ∧
      st'.1.1.listens = st.1.1.listens + 1 ∧
      st'.2 = fun i q =>
        if (ssid ≤ i ∧ i < ssid + nthr) ∧ q = f.options.protocol then some st.1.1.listens
        else st.2 i q) ∨
    (¬ (st.1.2 0).portAt f.options.protocol > 0 ∧ f.options.port = 0 ∧
      (List.range nthr).foldlM (listenThreadObjs listen f ssid) st = some st') := by
  simp only [createProtocolsObjs] at hrun
  split at hrun
  · rename_i hentered
    exact .inl ⟨hentered, (Option.some_inj.mp hrun).symm⟩
  · rename_i hentered
    split at hrun
    · rename_i hport
      obtain ⟨mid, hmid, rfl⟩ := Option.map_eq_some_iff.mp hrun
      refine .inr (.inl ⟨hentered, hport, ?_, rfl⟩)
      simp only [createProtocols, if_neg hentered, if_pos hport] at hmid
      split at hmid
      · cases hmid
      · cases hmid
        rfl
    · rename_i hport
      exact .inr (.inr ⟨hentered, by simpa using hport, hrun⟩)

/-- One object for all threads: the protocol becomes a shared one. -/
theorem Owned.fixed {Shared : UInt32 → Prop} {st st' : ListenState × ListenObjs}
    (h : Owned ssid nthr Shared st) (hlistens : st'.1.1.listens = st.1.1.listens + 1)
    (hobjs : st'.2 = fun i q =>
      if (ssid ≤ i ∧ i < ssid + nthr) ∧ q = f.options.protocol then some st.1.1.listens
      else st.2 i q) (hshared : Shared f.options.protocol) :
    Owned ssid nthr Shared st' := by
  -- a slot has the new object or what it had
  have hcases : ∀ {i q n}, st'.2 i q = some n →
      ((ssid ≤ i ∧ i < ssid + nthr) ∧ q = f.options.protocol ∧ n = st.1.1.listens) ∨
        st.2 i q = some n := by
    intro i q n hslot
    simp only [hobjs] at hslot
    split at hslot
    · rename_i hin
      exact .inl ⟨hin.1, hin.2, (Option.some_inj.mp hslot).symm⟩
    · exact .inr hslot
  constructor
  · intro i q n hslot
    rcases hcases hslot with ⟨-, -, rfl⟩ | hold
    · omega
    · have hlt := h.made hold
      omega
  · intro i q n hslot
    rcases hcases hslot with ⟨hin, -, -⟩ | hold
    · exact hin
    · exact h.inside hold
  · intro i q j q' n hslot hslot'
    rcases hcases hslot with ⟨-, rfl, rfl⟩ | hold <;>
      rcases hcases hslot' with ⟨-, rfl, hn⟩ | hold'
    · exact ⟨rfl, .inr hshared⟩
    · exact absurd (h.made hold') (Nat.lt_irrefl _)
    · exact absurd (hn ▸ h.made hold) (Nat.lt_irrefl _)
    · exact h.apart hold hold'

/-- The first accept flowop for the protocol asks for a fixed port. -/
def SharedPort (flowops : List Flowop) (q : UInt32) : Prop :=
  ∃ f, firstAccept flowops q = some f ∧ f.options.port ≠ 0

/-- The loop of `preprocess_accepts` after the flowops `done`. -/
structure ObjsDone (listen : Listen) (g : Group) (ssid : ℕ) (start : Shm) (done : List Flowop)
    (st : (Shm × Option SlaveInfos) × ListenObjs) : Prop where
  accepts : AcceptsDone listen g ssid start done st.1
  owned : Owned ssid g.nthreads.toNat (SharedPort done) ((st.1.1, st.1.2.getD fun _ => {}), st.2)
  shared : ∀ q, SharedPort done q → q.toNat < numProtocols →
    ∃ n, ∀ i, ssid ≤ i → i < ssid + g.nthreads.toNat → st.2 i q = some n

theorem SharedPort.append {done : List Flowop} {q : UInt32} (h : SharedPort done q) (f : Flowop) :
    SharedPort (done ++ [f]) q := by
  obtain ⟨f', hfirst, hport⟩ := h
  exact ⟨f', by rw [firstAccept_append, hfirst, Option.some_or], hport⟩

theorem firstAccept_append_cases {done : List Flowop} {q : UInt32} {f' : Flowop}
    (h : firstAccept (done ++ [f]) q = some f') :
    firstAccept done q = some f' ∨
      (firstAccept done q = none ∧ f' = f ∧ f.options.protocol = q) := by
  rw [firstAccept_append] at h
  cases hdone : firstAccept done q with
  | some f₀ =>
      rw [hdone, Option.some_or] at h
      exact .inl h
  | none =>
      rw [hdone, Option.none_or, Option.ite_none_right_eq_some, Option.some_inj] at h
      exact .inr ⟨rfl, h.2.symm, h.1.2⟩

theorem listenThreadsObjs_other {st st' : ListenState × ListenObjs} {n : ℕ}
    (hrun : (List.range n).foldlM (listenThreadObjs listen f ssid) st = some st') {q : UInt32}
    (hq : q ≠ f.options.protocol) (i : ℕ) : st'.2 i q = st.2 i q := by
  refine run_invariant (P := fun mid => mid.2 i q = st.2 i q) ?_ rfl hrun
  intro mid j mid' hmid hstep
  rw [(listenThreadObjs_cases hstep).1, ListenObjs.set, if_neg (by tauto), hmid]

section

variable {start : Shm} {done : List Flowop} {st st' : (Shm × Option SlaveInfos) × ListenObjs}

/-- A protocol whose port is not entered yet was not accepted on yet. -/
theorem AcceptsDone.firstAccept_of_free {st : Shm × Option SlaveInfos}
    (hdone : AcceptsDone listen g ssid start done st) (hnthr : 0 < g.nthreads.toNat)
    {q : UInt32} (hq : q.toNat < numProtocols)
    (hfree : ¬ ((st.2.getD fun _ => {}) 0).portAt q > 0) : firstAccept done q = none := by
  by_contra hsome
  obtain ⟨f₀, hfirst⟩ := Option.ne_none_iff_exists'.mp hsome
  obtain ⟨p, -, hinfo, hpos, -⟩ := hdone.listening q f₀ hfirst hq 0 hnthr
  rw [(firstAccept_protocol hfirst).2.2] at hinfo
  rw [hinfo] at hfree
  exact hfree hpos

/-- The accept flowop `f`, with the state that `create_protocols` leaves. -/
theorem ObjsDone.accept (haccept : f.type = .accept) (hnthr : 0 < g.nthreads.toNat)
    (hq : f.options.protocol.toNat < numProtocols)
    (hdone : ObjsDone listen g ssid start done st) {mid : ListenState × ListenObjs}
    (hcreate : createProtocolsObjs listen g.nthreads.toNat f ssid
      ((st.1.1, st.1.2.getD fun _ => {}), st.2) = some mid) :
    Owned ssid g.nthreads.toNat (SharedPort (done ++ [f])) mid ∧
      ∀ q, SharedPort (done ++ [f]) q → q.toNat < numProtocols →
        ∃ n, ∀ i, ssid ≤ i → i < ssid + g.nthreads.toNat → mid.2 i q = some n := by
  have howned := hdone.owned.mono fun q h => h.append f
  -- what is shared before the flowop stays so where the slots are not changed
  have hother : (∀ q, q ≠ f.options.protocol → ∀ i, mid.2 i q = st.2 i q) →
      ∀ q, q ≠ f.options.protocol → SharedPort (done ++ [f]) q → q.toNat < numProtocols →
        ∃ n, ∀ i, ssid ≤ i → i < ssid + g.nthreads.toNat → mid.2 i q = some n := by
    intro hsame q hne ⟨f', hfirst, hport⟩ hlt
    rcases firstAccept_append_cases hfirst with hbefore | ⟨-, -, heq⟩
    · obtain ⟨n, hn⟩ := hdone.shared q ⟨f', hbefore, hport⟩ hlt
      exact ⟨n, fun i hi hi' => by rw [hsame q hne, hn i hi hi']⟩
    · exact absurd heq.symm hne
  rcases createProtocolsObjs_cases hcreate with
    ⟨hentered, rfl⟩ | ⟨hentered, hport, hlistens, hobjs⟩ | ⟨hentered, hport, hrun⟩
  · -- an earlier accept flowop listens for the protocol
    refine ⟨howned, fun q ⟨f', hfirst, hport⟩ hlt => ?_⟩
    rcases firstAccept_append_cases hfirst with hbefore | ⟨hbefore, -, rfl⟩
    · exact hdone.shared q ⟨f', hbefore, hport⟩ hlt
    · rw [hdone.accepts.free _ hbefore hq 0] at hentered
      exact absurd hentered Int32.lt_irrefl
  · -- one object for all threads
    have hfirst := hdone.accepts.firstAccept_of_free hnthr hq hentered
    have hshared : SharedPort (done ++ [f]) f.options.protocol :=
      ⟨f, by simp [firstAccept_append, hfirst, haccept], hport⟩
    refine ⟨howned.fixed hlistens hobjs hshared, fun q hq' hlt => ?_⟩
    by_cases hne : q = f.options.protocol
    · subst hne
      refine ⟨st.1.1.listens, fun i hi hi' => ?_⟩
      simp [hobjs, hi, hi']
    · exact hother (fun q hne i => by simp [hobjs, hne]) q hne hq' hlt
  · -- one object for each thread
    have hfirst := hdone.accepts.firstAccept_of_free hnthr hq hentered
    refine ⟨howned.threads (le_refl _) hrun, fun q hq' hlt => ?_⟩
    by_cases hne : q = f.options.protocol
    · subst hne
      obtain ⟨f', hfirst', hport'⟩ := hq'
      rw [firstAccept_append, hfirst, Option.none_or, Option.ite_none_right_eq_some,
        Option.some_inj] at hfirst'
      rw [← hfirst'.2] at hport'
      exact absurd hport hport'
    · exact hother (fun q hne i => listenThreadsObjs_other hrun hne i) q hne hq' hlt

theorem ObjsDone.step (hany : listen.AnyPositive) (hnthr : 0 < g.nthreads.toNat)
    (hq : f.type = .accept → f.options.protocol.toNat < numProtocols)
    (hdone : ObjsDone listen g ssid start done st)
    (hstep : preprocessAcceptObjs listen g ssid st f = some st') :
    ObjsDone listen g ssid start (done ++ [f]) st' := by
  have haccepts : preprocessAccept listen g ssid st.1 f = some st'.1 := by
    rw [← preprocessAcceptObjs_fst, hstep]
    rfl
  by_cases haccept : f.type = .accept
  · simp only [preprocessAcceptObjs, if_pos haccept] at hstep
    obtain ⟨⟨⟨shm', sl'⟩, objs'⟩, hcreate, hst'⟩ := Option.bind_eq_some_iff.mp hstep
    obtain ⟨howned, hshared⟩ := hdone.accept haccept hnthr (hq haccept) hcreate
    cases hst'
    exact ⟨hdone.accepts.step hany haccepts, ⟨howned.made, howned.inside, howned.apart⟩, hshared⟩
  · have hfirst : ∀ q, SharedPort (done ++ [f]) q ↔ SharedPort done q := by
      intro q
      unfold SharedPort
      rw [firstAccept_append]
      simp [haccept]
    simp only [preprocessAcceptObjs, if_neg haccept, Option.some_inj] at hstep
    subst hstep
    exact ⟨hdone.accepts.step hany haccepts, hdone.owned.mono fun q => (hfirst q).mpr,
      fun q hq => hdone.shared q ((hfirst q).mp hq)⟩

end

/-- Which objects the slots hold after `preprocess_accepts`. -/
theorem preprocessAcceptsObjs_spec {start : Shm} (hany : listen.AnyPositive)
    (hnthr : 0 < g.nthreads.toNat)
    (hq : ∀ f ∈ g.flowops, f.type = .accept → f.options.protocol.toNat < numProtocols)
    {st : (Shm × Option SlaveInfos) × ListenObjs}
    (hrun : preprocessAcceptsObjs listen start g ssid = some st) :
    ObjsDone listen g ssid start g.flowops st := by
  refine run_history (fun done f hf mid mid' hmid => hmid.step hany hnthr (hq f hf)) ?_ hrun
  refine ⟨AcceptsDone.nil, ⟨?_, ?_, ?_⟩, ?_⟩
  · exact fun h => nomatch h
  · exact fun h => nomatch h
  · exact fun h => nomatch h
  · rintro q ⟨f, hfirst, -⟩
    simp [firstAccept] at hfirst

end

/-! ## Exit of the strands -/

/-- `PROTOCOL_SCTP`. -/
abbrev protocolSctp : UInt32 := 6

/-- `PROTOCOL_VSOCK`. -/
abbrev protocolVsock : UInt32 := 7

/-- The protocols whose objects `destroy_protocol` hands to `generic_fini`, which
frees them whoever else has them. -/
def GenericFini (q : UInt32) : Prop := q = protocolTcp ∨ q = protocolSctp ∨ q = protocolVsock

/-- An object: the process whose memory it is in, if the strand was forked, and
the number of its `listen` call. -/
abbrev ObjId := Option ℕ × ℕ

/-- The slots while the strands exit, and the calls of `destroy_protocol`. -/
structure Exits where
  listenConn : ℕ → UInt32 → Option ObjId
  destroyed : List ObjId := []

/-- The start of the exits.  The strands of a process group have been forked after
the slots were filled, so that each has a copy of the objects. -/
def Exits.start (forked : Bool) (objs : ListenObjs) : Exits where
  listenConn i q := (objs i q).map fun n => (if forked then some i else none, n)

/-- The loop body of `strand_fini` for the slot of protocol `q` of strand `i`. -/
def Exits.finiSlot (st : Exits) (i : ℕ) (q : UInt32) : Exits :=
  match st.listenConn i q with
  | none => st
  | some p =>
      { listenConn := fun i' q' => if i' = i ∧ q' = q then none else st.listenConn i' q'
        destroyed := st.destroyed ++ [p] }

/-- The protocols in the order of the loop in `strand_fini`. -/
def slotOrder : List UInt32 := (List.range numProtocols).map UInt32.ofNat

def Exits.step (st : Exits) (act : ℕ × UInt32) : Option Exits := some (st.finiSlot act.1 act.2)

/-- The exits of the strands of a group: each goes through its slots in order, and
they may come between each other. -/
structure Exiting (ssid nthr : ℕ) (acts : List (ℕ × UInt32)) : Prop where
  inside : ∀ act ∈ acts, ssid ≤ act.1 ∧ act.1 < ssid + nthr
  ordered : ∀ i, ((acts.filter fun act => act.1 = i).map Prod.snd) <+: slotOrder

/-- What `strand_fini` finds in a slot has not been destroyed, and no other strand
has it. -/
def Exits.DestroysSole (st : Exits) (act : ℕ × UInt32) : Prop :=
  ∀ p, st.listenConn act.1 act.2 = some p →
    p ∉ st.destroyed ∧ ∀ i q, st.listenConn i q = some p → i = act.1

/-- Every object is destroyed at most once, and by the last strand that has it. -/
def DestroyedOnce (ssid nthr : ℕ) (st : Exits) : Prop :=
  ∀ acts, Exiting ssid nthr acts → Along Exits.step Exits.DestroysSole st acts

/-! ## Runs of exits -/

theorem Exits.finiSlot_eq_some {st : Exits} {i j : ℕ} {q q' : UInt32} {p : ObjId}
    (h : (st.finiSlot i q).listenConn j q' = some p) :
    st.listenConn j q' = some p ∧ (st.listenConn i q = none ∨ ¬ (j = i ∧ q' = q)) := by
  unfold finiSlot at h
  split at h
  · rename_i hnone
    exact ⟨h, .inl hnone⟩
  · simp only [Option.ite_none_left_eq_some] at h
    exact ⟨h.2, .inr h.1⟩

/-- No object is in two slots, and none that was destroyed is in one. -/
structure Exits.Sole (st : Exits) : Prop where
  sole : ∀ {i q j q' p}, st.listenConn i q = some p → st.listenConn j q' = some p →
    i = j ∧ q = q'
  live : ∀ {i q p}, st.listenConn i q = some p → p ∉ st.destroyed

theorem Exits.Sole.finiSlot {st : Exits} (h : st.Sole) (i : ℕ) (q : UInt32) :
    (st.finiSlot i q).Sole := by
  constructor
  · intro i' q' j q'' p hslot hslot'
    exact h.sole (finiSlot_eq_some hslot).1 (finiSlot_eq_some hslot').1
  · intro i' q' p hslot hmem
    obtain ⟨hold, hother⟩ := finiSlot_eq_some hslot
    unfold Exits.finiSlot at hmem
    split at hmem
    · exact h.live hold hmem
    · rename_i p' hp'
      rcases List.mem_append.mp hmem with hmem | hmem
      · exact h.live hold hmem
      · rw [List.mem_singleton.mp hmem] at hold
        rcases hother with hnone | hne
        · rw [hnone] at hp'
          cases hp'
        · exact hne (h.sole hold hp')

theorem Exits.Sole.along {st : Exits} (h : st.Sole) (acts : List (ℕ × UInt32)) :
    Along Exits.step Exits.DestroysSole st acts := by
  induction acts generalizing st with
  | nil => trivial
  | cons act rest ih =>
      refine ⟨fun p hp => ⟨h.live hp, fun i q hslot => (h.sole hslot hp).1⟩, ?_⟩
      intro st' hst'
      cases hst'
      exact ih (h.finiSlot act.1 act.2)

/-- The exit of one strand, from the first of its slots on. -/
theorem exiting_single {ssid nthr i : ℕ} (hi : ssid ≤ i ∧ i < ssid + nthr) :
    Exiting ssid nthr (slotOrder.map fun q => (i, q)) := by
  constructor
  · intro act hact
    obtain ⟨q, -, rfl⟩ := List.mem_map.mp hact
    exact hi
  · intro j
    by_cases hj : i = j
    · simp [List.filter_map, Function.comp_def, hj]
    · simp [List.filter_map, Function.comp_def, hj]

theorem Exits.finiSlot_other (st : Exits) {i j : ℕ} {q q' : UInt32} (hne : q' ≠ q) :
    (st.finiSlot i q).listenConn j q' = st.listenConn j q' := by
  unfold finiSlot
  split
  · rfl
  · simp [hne]

theorem Exits.run_other (st : Exits) (i j : ℕ) {q : UInt32} {first : List UInt32}
    (hq : q ∉ first) : ∃ mid, run Exits.step st (first.map fun q => (i, q)) = some mid ∧
      mid.listenConn j q = st.listenConn j q := by
  induction first generalizing st with
  | nil => exact ⟨st, rfl, rfl⟩
  | cons q' rest ih =>
      obtain ⟨hne, hrest⟩ := not_or.mp (List.mem_cons.not.mp hq)
      obtain ⟨mid, hmid, hconn⟩ := ih (st.finiSlot i q') hrest
      exact ⟨mid, hmid, hconn.trans (st.finiSlot_other hne)⟩

theorem mem_slotOrder {q : UInt32} (hq : q.toNat < numProtocols) : q ∈ slotOrder :=
  List.mem_map.mpr ⟨q.toNat, List.mem_range.mpr hq, UInt32.ofNat_toNat⟩

theorem GenericFini.lt {q : UInt32} (h : GenericFini q) : q.toNat < numProtocols := by
  rcases h with rfl | rfl | rfl <;> decide

section

variable {listen : Listen} {g : Group} {ssid : ℕ} {start : Shm}
  {st : (Shm × Option SlaveInfos) × ListenObjs}

theorem ObjsDone.sole {flowops : List Flowop} (h : ObjsDone listen g ssid start flowops st)
    {forked : Bool}
    (hcond : forked = true ∨ g.nthreads.toNat ≤ 1 ∨ ∀ q, ¬ SharedPort flowops q) :
    (Exits.start forked st.2).Sole := by
  refine ⟨?_, fun _ => List.not_mem_nil⟩
  intro i q j q' p hslot hslot'
  obtain ⟨n, hn, rfl⟩ := Option.map_eq_some_iff.mp hslot
  obtain ⟨n', hn', hp⟩ := Option.map_eq_some_iff.mp hslot'
  obtain ⟨hprocess, rfl⟩ := Prod.mk.injEq _ _ _ _ ▸ hp
  obtain ⟨rfl, hthread⟩ := h.owned.apart hn hn'
  refine ⟨?_, rfl⟩
  rcases hthread with rfl | hshared
  · rfl
  · rcases hcond with rfl | hone | hnone
    · exact (Option.some_inj.mp hprocess).symm
    · have hi := h.owned.inside hn
      have hj := h.owned.inside hn'
      omega
    · exact absurd hshared (hnone q)

/-- Two threads that share an object: the first to exit takes it from the other. -/
theorem not_destroyedOnce {q : UInt32} (hq : q.toNat < numProtocols) {objs : ListenObjs}
    {nthr n : ℕ} (hnthr : 1 < nthr) (hfirst : objs ssid q = some n)
    (hsecond : objs (ssid + 1) q = some n) :
    ¬ DestroyedOnce ssid nthr (Exits.start false objs) := by
  intro honce
  have halong := honce _ (exiting_single (i := ssid) (by omega))
  -- the slots before the one for `q` leave it alone
  obtain ⟨first, rest, horder, hnotin⟩ := List.eq_append_cons_of_mem (mem_slotOrder hq)
  rw [horder, List.map_append] at halong
  obtain ⟨mid, hmid, -⟩ := Exits.run_other (Exits.start false objs) ssid ssid hnotin
  have hslots : ∀ j, mid.listenConn j q = (objs j q).map fun n => (none, n) := by
    intro j
    obtain ⟨mid', hmid', hconn⟩ := Exits.run_other (Exits.start false objs) ssid j hnotin
    rw [hmid] at hmid'
    cases hmid'
    exact hconn
  have hsole := (halong.of_append hmid).1 (none, n) (by simp [hslots, hfirst])
  have hsame : ssid + 1 = ssid := hsole.2 (ssid + 1) q (by simp [hslots, hsecond])
  omega

/-- Listening connections of a group are destroyed once exactly when no two threads
of one process share one: a fixed port makes them share. -/
theorem destroyedOnce_iff (hany : listen.AnyPositive)
    (hfini : ∀ f ∈ g.flowops, f.type = .accept → GenericFini f.options.protocol)
    (hrun : preprocessAcceptsObjs listen start g ssid = some st) (forked : Bool) :
    DestroyedOnce ssid g.nthreads.toNat (Exits.start forked st.2) ↔
      forked = true ∨ g.nthreads.toNat ≤ 1 ∨ ∀ q, ¬ SharedPort g.flowops q := by
  have hspec : 0 < g.nthreads.toNat → ObjsDone listen g ssid start g.flowops st := fun hnthr =>
    preprocessAcceptsObjs_spec hany hnthr (fun f hf haccept => (hfini f hf haccept).lt) hrun
  constructor
  · intro honce
    by_contra hcond
    push Not at hcond
    obtain ⟨hforked, hnthr, q, f, hfirst, hport⟩ := hcond
    obtain ⟨hmem, haccept, rfl⟩ := firstAccept_protocol hfirst
    have hq := (hfini f hmem haccept).lt
    obtain ⟨n, hn⟩ := (hspec (by omega)).shared _ ⟨f, hfirst, hport⟩ hq
    rw [Bool.eq_false_iff.mpr hforked] at honce
    exact not_destroyedOnce hq hnthr (hn ssid (le_refl _) (by omega))
      (hn (ssid + 1) (by omega) (by omega)) honce
  · intro hcond acts hacts
    rcases Nat.eq_zero_or_pos g.nthreads.toNat with hzero | hnthr
    · -- no strand exits
      have hnil : acts = [] := List.eq_nil_iff_forall_not_mem.mpr fun act hact => by
        have hin := hacts.inside act hact
        omega
      subst hnil
      trivial
    · exact ((hspec hnthr).sole hcond).along acts

end

/-! ## Two threads that accept -/

/-- A `listen` that gives the ports from 49152 on to those who ask for none. -/
def ephemeral : Listen := fun n p _ =>
  if p.port = anyPort then Int32.ofNat (49152 + n % 16384) else p.port

theorem ephemeral_anyPositive : ephemeral.AnyPositive := by
  intro n p options hport
  rw [ephemeral, if_pos hport, Int32.lt_iff_toInt_lt,
    Int32.toInt_ofNat_of_lt (by omega), Int32.toInt_zero]
  omega

/-- A group of two threads that accept on `port`. -/
def acceptGroup (port : UInt32) : Group where
  nthreads := 2
  ntxn := 1
  tlist :=
    [{ nflowop := 1, iter := 1,
       flist := [{ type := .accept, options := { protocol := protocolTcp, port } }] }]

theorem destroyedOnce_threads :
    ∃ st, preprocessAcceptsObjs ephemeral {} (acceptGroup 0) 0 = some st ∧
      DestroyedOnce 0 2 (Exits.start false st.2) := by
  have hsome : (preprocessAcceptsObjs ephemeral {} (acceptGroup 0) 0).isSome := rfl
  obtain ⟨st, hst⟩ := Option.isSome_iff_exists.mp hsome
  refine ⟨st, hst, (destroyedOnce_iff ephemeral_anyPositive ?_ hst false).mpr (.inr (.inr ?_))⟩
  · intro f hf _
    rw [List.mem_singleton.mp hf]
    exact .inl rfl
  · rintro q ⟨f, hfirst, hport⟩
    have hf := (firstAccept_protocol hfirst).1
    rw [List.mem_singleton.mp hf] at hport
    exact hport rfl

/-- With `port=5000` both threads have the same object, and the first to exit frees
what the other has. -/
theorem not_destroyedOnce_fixedPort :
    ∃ st, preprocessAcceptsObjs ephemeral {} (acceptGroup 5000) 0 = some st ∧
      ¬ DestroyedOnce 0 2 (Exits.start false st.2) :=
  ⟨_, rfl, not_destroyedOnce (q := protocolTcp) (by decide) (by decide) rfl rfl⟩

end Uperf
