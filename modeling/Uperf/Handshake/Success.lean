import Uperf.Handshake.Outcome

/-!
# Phase 2 succeeds

With ports from every `listen`, kernels that make progress and no more
transactions than a slave has barriers, `handshake_phase2` reaches its end and
every slave is ready (`handshakePhase2_isSome`).  The number of calls of
`listen` on the way is bounded by the size of the work order.
-/

namespace Uperf

open Lib

/-! ## Calls of `listen` -/

section

variable {listen : Listen} {ssid : ℕ}

theorem listenThreads_listens {f : Flowop} {items : List ℕ} {st st' : ListenState}
    (hrun : items.foldlM (listenThread listen f ssid) st = some st') :
    st'.1.listens = st.1.listens + items.length := by
  induction items generalizing st with
  | nil =>
      cases hrun
      rfl
  | cons i rest ih =>
      rw [List.foldlM_cons] at hrun
      obtain ⟨mid, hstep, hrest⟩ := Option.bind_eq_some_iff.mp hrun
      simp only [listenThread, Option.ite_none_left_eq_some, Option.some.injEq] at hstep
      obtain ⟨-, rfl⟩ := hstep
      rw [ih hrest, List.length_cons, Nat.add_comm rest.length, ← Nat.add_assoc]

theorem createProtocols_listens {f : Flowop} {nthr : ℕ} {st st' : ListenState}
    (hrun : createProtocols listen nthr f ssid st = some st') :
    st'.1.listens ≤ st.1.listens + (nthr + 1) := by
  obtain ⟨shm, sl⟩ := st
  simp only [createProtocols] at hrun
  split at hrun
  · cases hrun
    exact Nat.le_add_right _ _
  · split at hrun
    · split at hrun
      · cases hrun
      · cases hrun
        show shm.listens + 1 ≤ shm.listens + (nthr + 1)
        omega
    · have hlistens := listenThreads_listens hrun
      rw [List.length_range] at hlistens
      omega

/-- One run of `preprocess_accepts` calls `listen` at most once more than there
are threads, for each flowop. -/
theorem preprocessAccepts_listens {shm : Shm} {g : Group} {st : Shm × Option SlaveInfos}
    (hrun : preprocessAccepts listen shm g ssid = some st) :
    st.1.listens ≤ shm.listens + g.flowops.length * (g.nthreads.toNat + 1) := by
  have hfold : ∀ (flowops : List Flowop) (start : Shm × Option SlaveInfos),
      flowops.foldlM (preprocessAccept listen g ssid) start = some st →
      st.1.listens ≤ start.1.listens + flowops.length * (g.nthreads.toNat + 1) := by
    intro flowops
    induction flowops with
    | nil =>
        intro start hrun
        cases hrun
        exact Nat.le_add_right _ _
    | cons f rest ih =>
        intro start hrun
        rw [List.foldlM_cons] at hrun
        obtain ⟨mid, hstep, hrest⟩ := Option.bind_eq_some_iff.mp hrun
        have hmid : mid.1.listens ≤ start.1.listens + (g.nthreads.toNat + 1) := by
          simp only [preprocessAccept] at hstep
          split at hstep
          · obtain ⟨⟨shm', sl'⟩, hcreate, hst'⟩ := Option.bind_eq_some_iff.mp hstep
            cases hst'
            exact createProtocols_listens hcreate
          · cases hstep
            exact Nat.le_add_right _ _
        calc st.1.listens
            ≤ mid.1.listens + rest.length * (g.nthreads.toNat + 1) := ih mid hrest
          _ ≤ start.1.listens + (g.nthreads.toNat + 1) +
                rest.length * (g.nthreads.toNat + 1) := Nat.add_le_add_right hmid _
          _ = start.1.listens + (f :: rest).length * (g.nthreads.toNat + 1) := by
              rw [List.length_cons]
              ring
  exact hfold g.flowops (shm, none) hrun

end

/-! ## One slave -/

/-- A slave whose ports are all good and whose kernels make progress. -/
structure SlaveEnv.Serves (s : SlaveEnv) : Prop where
  progress : s.Positive
  peer : s.control.host.Terminated
  listen : s.listen.Succeeds

/-- A group that a slave can run: the counts are right, there is a thread and
there are no more transactions than barriers. -/
structure Group.Runnable (g : Group) : Prop extends g.Counted where
  endian : g.endian = uperfEndianValue
  ntxn_le : g.ntxn.toNat ≤ numBarrier
  nthreads_pos : 0 < g.nthreads.toNat

section

variable {m : MasterEnv} (hm : m.listen.Succeeds) {g : Group}
  (hg : g.Runnable)
include hg

theorem txPhase2_isSome {k : Kernel} (hk : k.Positive) (e : Endian) (si : Option SlaveInfos)
    (host : HostName) : ∃ w, txPhase2 k e si g host {} = some w := by
  obtain ⟨w₁, hheader, -⟩ :=
    tryWrite_put hk e HsPhase1.codec (by decide) (hsPhase2Header si g) {}
  obtain ⟨w₂, hgroup, -⟩ := txGroupT_positive hk e g host w₁
  simp only [txPhase2, hheader, hgroup, Option.bind_eq_bind, Option.bind_some]
  cases si with
  | none => exact ⟨w₂, rfl⟩
  | some sent =>
      have hne : slaveInfoImage e sent g.nthreads.toNat ≠ [] := by
        refine List.ne_nil_of_length_pos ?_
        rw [length_slaveInfoImage]
        exact Nat.mul_pos hg.nthreads_pos (by decide)
      obtain ⟨w₃, hports, -⟩ := tryWrite_positive hk hne w₂
      exact ⟨w₃, hports⟩

include hm

/-- The handshake with one slave succeeds, and the slave is ready. -/
theorem handshakeP2WithSlave_isSome {s : SlaveEnv} (hs : s.Serves) (shm : Shm) (host : HostName)
    (ssid : ℕ) :
    ∃ shm' sshm, handshakeP2WithSlave m s shm host g ssid = some (shm', some sshm) ∧
      shm'.listens ≤ shm.listens + g.flowops.length * (g.nthreads.toNat + 1) := by
  have hany := hs.listen.anyPositive
  obtain ⟨⟨shm₁, si⟩, haccepts⟩ := preprocessAccepts_isSome hm shm g ssid
  have hlistens := preprocessAccepts_listens haccepts
  obtain ⟨w, htx⟩ := txPhase2_isSome hg hs.progress.masterTx m.endian si host
  obtain ⟨-, hsent⟩ := txPhase2_positive hs.progress.masterTx htx
  obtain ⟨shmr, r₁, shm₀, r₀, hhandshake, hcomplete, hready⟩ := slaveReady_of_stream
    hs.progress.rx hs.peer hg.toCounted hg.endian (fun _ => hg.nthreads_pos) hsent
  rcases slaveMaster_of_ready hs.progress.tx hany hhandshake hcomplete hready with
    ⟨hfail, -⟩ | ⟨sshm, sl, -, hmaster⟩
  · obtain ⟨st, hst⟩ := preprocessAccepts_isSome hs.listen shm₀ shm₀.worklist 0
    rw [hst] at hfail
    cases hfail
  · have hntxn : ¬ g.ntxn.toNat > numBarrier := not_lt.mpr hg.ntxn_le
    rw [if_neg hntxn] at hmaster
    rcases rxPhase2_positive (m := m) (s := s) hs.progress.masterRx (sl.getD fun _ => {})
      sshm.txNoSlaveInfo shm₁ host g ssid ⟨0, _⟩ rfl with ⟨-, hrx⟩ | ⟨info, hrx, -⟩
    · refine ⟨shm₁, sshm, ?_, hlistens⟩
      simp only [handshakeP2WithSlave, haccepts, htx, hmaster, hrx, Option.bind_eq_bind,
        Option.bind_some]
    · refine ⟨updateStrandWithSlaveInfo shm₁ info host g.nthreads.toNat ssid, sshm, ?_, hlistens⟩
      simp only [handshakeP2WithSlave, haccepts, htx, hmaster, hrx, Option.bind_eq_bind,
        Option.bind_some]

theorem handshakePhase2Group_isSome {slave : ℕ → SlaveEnv} (hslave : ∀ c, (slave c).Serves)
    (id : ℕ) (control : List Protocol) (c : ℕ) (shm : Shm) :
    ∃ shm' slaves, handshakePhase2Group m slave g id c control shm = some (shm', slaves) ∧
      slaves.length = control.length ∧ (∀ s ∈ slaves, s.isSome = true) ∧
      shm'.listens ≤
        shm.listens + control.length * (g.flowops.length * (g.nthreads.toNat + 1)) := by
  induction control generalizing c shm with
  | nil => exact ⟨shm, [], rfl, rfl, by simp, Nat.le_add_right _ _⟩
  | cons p rest ih =>
      obtain ⟨mid, sshm, hstep, hmid⟩ :=
        handshakeP2WithSlave_isSome hm hg (hslave c) shm p.host id
      obtain ⟨shm', slaves, hrest, hlen, hready, hlistens⟩ := ih (c + 1) mid
      refine ⟨shm', some sshm :: slaves, ?_, by simp [hlen], by simpa using hready, ?_⟩
      · simp only [handshakePhase2Group, hstep, hrest, Option.bind_eq_bind, Option.bind_some]
      · rw [List.length_cons, Nat.add_mul]
        omega

end

/-- The calls of `listen` that phase 2 may make for the groups. -/
def listenBound (groups : List Group) : ℕ :=
  (groups.map fun g =>
    g.control.length * (g.flowops.length * (g.nthreads.toNat + 1))).sum

theorem handshakePhase2Groups_isSome {m : MasterEnv}
    (hm : m.listen.Succeeds) {slave : ℕ → ℕ → SlaveEnv}
    (hslave : ∀ i c, (slave i c).Serves) {groups : List Group}
    (hgroups : ∀ g ∈ groups, g.Runnable) (i id : ℕ) (shm : Shm) :
    ∃ shm' slaves, handshakePhase2Groups m slave i id groups shm = some (shm', slaves) ∧
      List.Forall₂ (fun g ss => ss.length = g.control.length ∧ ∀ s ∈ ss, s.isSome = true)
        groups slaves ∧
      shm'.listens ≤ shm.listens + listenBound groups := by
  induction groups generalizing i id shm with
  | nil => exact ⟨shm, [], rfl, .nil, Nat.le_add_right _ _⟩
  | cons g rest ih =>
      obtain ⟨mid, ss, hgroup, hlen, hready, hmid⟩ :=
        handshakePhase2Group_isSome hm (hgroups g (by simp)) (hslave i) id g.control 0 shm
      obtain ⟨shm', slaves, hrest, hall, hlistens⟩ :=
        ih (fun g hg => hgroups g (by simp [hg])) (i + 1) (id + g.nthreads.toNat) mid
      refine ⟨shm', ss :: slaves, ?_, .cons ⟨hlen, hready⟩ hall, ?_⟩
      · simp only [handshakePhase2Groups, hgroup, hrest, Option.bind_eq_bind, Option.bind_some]
      · simp only [listenBound, List.map_cons, List.sum_cons] at hlistens ⊢
        omega

/-- Phase 2 succeeds with every slave of every group. -/
theorem handshakePhase2_isSome {m : MasterEnv} (hm : m.listen.Succeeds)
    {slave : ℕ → ℕ → SlaveEnv} (hslave : ∀ i c, (slave i c).Serves) {w : Workorder}
    (hw : ∀ g ∈ w.grp, g.Runnable) (shm : Shm) :
    ∃ shm' slaves, handshakePhase2 m slave shm w = some (shm', slaves) ∧
      List.Forall₂ (fun g ss => ss.length = g.control.length ∧ ∀ s ∈ ss, s.isSome = true)
        w.grp slaves ∧
      shm'.listens ≤ shm.listens + listenBound w.grp :=
  handshakePhase2Groups_isSome hm hslave hw 0 0 shm

end Uperf
