import Uperf.Handshake.Success
import Uperf.Handshake.Projection

/-!
# The ports of listening slaves

The loops of `handshake_phase2` count the strands of the groups and add one
entry for each slave to the strands of its group.  Handshakes with other slaves
and other groups leave an entry alone, so after phase 2 every strand of the
master knows the port on which the strand at its other end listens
(`handshakePhase2_slavePorts`).
-/

namespace Uperf

open Lib

/-- The first strand of the `n`-th group. -/
def ssidOf (groups : List Group) (n : ℕ) : ℕ :=
  ((groups.take n).map fun g => g.nthreads.toNat).sum

/-! ## The loops of `handshake_phase2` -/

section

variable {m : MasterEnv} (hany : m.listen.AnyPositive)
include hany

/-- The slaves of one group leave the other groups and other hosts alone. -/
theorem handshakePhase2Group_frame {slave : ℕ → SlaveEnv} {g : Group} {id c : ℕ}
    {control : List Protocol} (hhosts : ∀ p ∈ control, p.host.Terminated) {shm shm' : Shm}
    {slaves : List (Option Shm)}
    (hrun : handshakePhase2Group m slave g id c control shm = some (shm', slaves)) :
    shm.listens ≤ shm'.listens ∧
      (∀ i, ¬ (id ≤ i ∧ i < id + g.nthreads.toNat) → shm'.strands i = shm.strands i) ∧
      ∀ j < g.nthreads.toNat, ∀ h : HostName, (∀ p ∈ control, h.cstr ≠ p.host.cstr) → ∀ q,
        strandGetPort (shm'.strands (j + id)) h q =
          strandGetPort (shm.strands (j + id)) h q := by
  induction control generalizing c shm slaves with
  | nil =>
      cases hrun
      exact ⟨le_refl _, fun _ _ => rfl, fun _ _ _ _ _ => rfl⟩
  | cons p rest ih =>
      obtain ⟨⟨mid, s⟩, hstep, hrun⟩ := Option.bind_eq_some_iff.mp hrun
      obtain ⟨⟨last, ss⟩, hrest, hrun⟩ := Option.bind_eq_some_iff.mp hrun
      cases hrun
      have hframe := handshakeP2WithSlave_frame hany (hhosts p (by simp)) hstep
      obtain ⟨hlistens, houtside, hget⟩ := ih (fun p hp => hhosts p (by simp [hp])) hrest
      refine ⟨hframe.listens.trans hlistens, fun i hi => ?_, fun j hj h hne q => ?_⟩
      · rw [houtside i hi, hframe.outside i hi]
      · rw [hget j hj h (fun p hp => hne p (by simp [hp])) q,
          hframe.getPort j hj h (hne p (by simp)) q]

/-- The handshake with the `k`-th slave of a group, and those after it. -/
theorem handshakePhase2Group_split {slave : ℕ → SlaveEnv} {g : Group} {id c k : ℕ}
    {control : List Protocol} (hhosts : ∀ p ∈ control, p.host.Terminated) {shm shm' : Shm}
    {slaves : List (Option Shm)} {p : Protocol}
    (hrun : handshakePhase2Group m slave g id c control shm = some (shm', slaves))
    (hp : control[k]? = some p) :
    ∃ before after s slaves', shm.listens ≤ before.listens ∧
      handshakeP2WithSlave m (slave (c + k)) before p.host g id = some (after, s) ∧
      slaves[k]? = some s ∧
      handshakePhase2Group m slave g id (c + k + 1) (control.drop (k + 1)) after =
        some (shm', slaves') := by
  induction control generalizing c k shm slaves with
  | nil => simp at hp
  | cons p₀ rest ih =>
      obtain ⟨⟨mid, s⟩, hstep, hrun⟩ := Option.bind_eq_some_iff.mp hrun
      obtain ⟨⟨last, ss⟩, hrest, hrun⟩ := Option.bind_eq_some_iff.mp hrun
      cases hrun
      cases k with
      | zero =>
          cases hp
          exact ⟨shm, mid, s, ss, le_refl _, hstep, rfl, hrest⟩
      | succ k =>
          -- the slaves before do not take listeners away
          have hframe := handshakeP2WithSlave_frame hany (hhosts p₀ (by simp)) hstep
          obtain ⟨before, after, s', slaves', hlistens, hslave, hget, htail⟩ :=
            ih (fun p hp => hhosts p (by simp [hp])) hrest hp
          refine ⟨before, after, s', slaves', hframe.listens.trans hlistens, ?_, hget, ?_⟩
          · rwa [Nat.add_right_comm, Nat.add_assoc] at hslave
          · rwa [Nat.add_right_comm c 1 k] at htail

theorem handshakePhase2Groups_frame {slave : ℕ → ℕ → SlaveEnv} {i id : ℕ} {groups : List Group}
    (hhosts : ∀ g ∈ groups, ∀ p ∈ g.control, p.host.Terminated) {shm shm' : Shm}
    {slaves : List (List (Option Shm))}
    (hrun : handshakePhase2Groups m slave i id groups shm = some (shm', slaves)) :
    shm.listens ≤ shm'.listens ∧ ∀ idx < id, shm'.strands idx = shm.strands idx := by
  induction groups generalizing i id shm slaves with
  | nil =>
      cases hrun
      exact ⟨le_refl _, fun _ _ => rfl⟩
  | cons g rest ih =>
      obtain ⟨⟨mid, s⟩, hgroup, hrun⟩ := Option.bind_eq_some_iff.mp hrun
      obtain ⟨⟨last, ss⟩, hrest, hrun⟩ := Option.bind_eq_some_iff.mp hrun
      cases hrun
      obtain ⟨hlistens, houtside, -⟩ :=
        handshakePhase2Group_frame hany (hhosts g (by simp)) hgroup
      obtain ⟨hlistens', hsame⟩ := ih (fun g hg => hhosts g (by simp [hg])) hrest
      refine ⟨hlistens.trans hlistens', fun idx hidx => ?_⟩
      rw [hsame idx (by omega), houtside idx (by omega)]

/-- The handshakes of the `n`-th group, and what the later groups keep of them. -/
theorem handshakePhase2Groups_group {slave : ℕ → ℕ → SlaveEnv} {i id n : ℕ}
    {groups : List Group} (hhosts : ∀ g ∈ groups, ∀ p ∈ g.control, p.host.Terminated)
    {shm shm' : Shm} {slaves : List (List (Option Shm))} {g : Group}
    (hrun : handshakePhase2Groups m slave i id groups shm = some (shm', slaves))
    (hg : groups[n]? = some g) :
    ∃ before after ss,
      handshakePhase2Group m (slave (i + n)) g (id + ssidOf groups n) 0 g.control before =
        some (after, ss) ∧
      slaves[n]? = some ss ∧ after.listens ≤ shm'.listens ∧
      ∀ j < g.nthreads.toNat, shm'.strands (j + (id + ssidOf groups n)) =
        after.strands (j + (id + ssidOf groups n)) := by
  induction groups generalizing i id n shm slaves with
  | nil => simp at hg
  | cons g₀ rest ih =>
      obtain ⟨⟨mid, s⟩, hgroup, hrun⟩ := Option.bind_eq_some_iff.mp hrun
      obtain ⟨⟨last, ss⟩, hrest, hrun⟩ := Option.bind_eq_some_iff.mp hrun
      cases hrun
      have hrestHosts : ∀ g ∈ rest, ∀ p ∈ g.control, p.host.Terminated :=
        fun g hg => hhosts g (by simp [hg])
      cases n with
      | zero =>
          cases hg
          -- the groups behind leave the strands of this one alone
          obtain ⟨hlistens, hsame⟩ := handshakePhase2Groups_frame hany hrestHosts hrest
          refine ⟨shm, mid, s, by simpa [ssidOf] using hgroup, rfl, hlistens, fun j hj => ?_⟩
          refine hsame _ ?_
          simp only [ssidOf, List.take_zero, List.map_nil, List.sum_nil]
          omega
      | succ n =>
          obtain ⟨before, after, ss', hgroup', hget, hlistens, hsame⟩ := ih hrestHosts hrest hg
          -- the strands of the groups before come first
          have hssid : id + g₀.nthreads.toNat + ssidOf rest n =
              id + ssidOf (g₀ :: rest) (n + 1) := by
            simp only [ssidOf, List.take_succ_cons, List.map_cons, List.sum_cons]
            omega
          have hindex : i + 1 + n = i + (n + 1) := by omega
          rw [hssid] at hgroup' hsame
          rw [hindex] at hgroup'
          exact ⟨before, after, ss', hgroup', hget, hlistens, hsame⟩

end

/-! ## Ports that a slave has opened -/

/-- For every thread of the group and every protocol that the slave accepts,
the master's strand has the port of the connection that the slave's strand
listens on. -/
def SlavePortsAgree (shm : Shm) (ssid nthr : ℕ) (host : HostName) (slave : Shm) : Prop :=
  ∀ j < nthr, ∀ q : UInt32, q.toNat < numProtocols →
    (∃ f ∈ slave.worklist.flowops, f.type = .accept ∧ f.options.protocol = q) →
      ∃ l, (slave.strands j).listenConnAt q = some l ∧
        strandGetPort (shm.strands (j + ssid)) host q = l.port

theorem firstAccept_isSome {flowops : List Flowop} {q : UInt32}
    (hex : ∃ f ∈ flowops, f.type = .accept ∧ f.options.protocol = q) :
    ∃ f, firstAccept flowops q = some f ∧ f.options.protocol = q := by
  obtain ⟨f, hf, haccept, hq⟩ := hex
  have hsome : (firstAccept flowops q).isSome = true := by
    rw [firstAccept, List.find?_isSome]
    exact ⟨f, hf, by simp [haccept, hq]⟩
  obtain ⟨f', hf'⟩ := Option.isSome_iff_exists.mp hsome
  exact ⟨f', hf', (firstAccept_protocol hf').2.2⟩

/-- The handshake with a slave enters its ports. -/
theorem handshakeP2WithSlave_slavePorts {m : MasterEnv} {s : SlaveEnv} (hs : s.Serves)
    {g : Group} (hg : g.Counted) (hendian : g.endian = uperfEndianValue) {host : HostName}
    (hhost : host.Terminated) {shm shm' : Shm} {slave : Option Shm} {ssid : ℕ}
    (hrun : handshakeP2WithSlave m s shm host g ssid = some (shm', slave)) :
    ∃ sshm, slave = some sshm ∧
      sshm.worklist = (txCopy g host).decoded m.endian s.endian s.control ∧
      SlavePortsAgree shm' ssid g.nthreads.toNat host sshm := by
  have hany := hs.listen.anyPositive
  obtain ⟨shm₁, si, shm₀, -, hready, ⟨-, hfail⟩ | ⟨sshm, sl, rfl, hslave, hentered⟩⟩ :=
    handshakeP2WithSlave_outcome hs.progress hs.peer hany hg hendian hrun
  · -- a slave whose `listen` never fails has opened its ports
    obtain ⟨st, hst⟩ := preprocessAccepts_isSome hs.listen shm₀ shm₀.worklist 0
    rw [hst] at hfail
    cases hfail
  · have hdone := preprocessAccepts_spec hany hslave
    refine ⟨sshm, rfl, hdone.worklist.trans hready.worklist, ?_⟩
    intro j hj q hq hex
    have hthreads : shm₀.worklist.nthreads = g.nthreads := by
      rw [hready.worklist, nthreads_txCopy_decoded]
    rw [hdone.worklist] at hex
    have hsl : sl ≠ none := by
      intro hnone
      obtain ⟨f, hf, haccept, -⟩ := hex
      exact hdone.none_iff.mp hnone f hf haccept
    obtain ⟨f, hfirst, rfl⟩ := firstAccept_isSome hex
    obtain ⟨l, hconn, hport, hpos, -⟩ :=
      hdone.listening _ f hfirst hq j (by rw [hthreads]; exact hj)
    have htx : sshm.txNoSlaveInfo = g.nthreads := by
      rw [hdone.tx, if_neg hsl, hthreads]
    have hportj : ((sl.getD fun _ => {}) j).portAt f.options.protocol = l.port := hport
    refine ⟨l, hconn, ?_⟩
    rcases hentered with ⟨hzero, -⟩ | ⟨info, rfl, hinfo⟩
    · have hno : g.nthreads = 0 := htx.symm.trans hzero
      simp [hno] at hj
    · rw [strandGetPort_update _ _ _ _ hhost hj, if_pos rfl,
        hinfo j (by rw [htx]; exact hj) _ (by rw [hportj]; exact hpos), hportj]

/-- What `create_control_connections` promises about the groups that phase 2
works on.  Only connections without a name may share it. -/
structure Group.Connected (g : Group) : Prop where
  counted : g.Counted
  hosts : g.HostsTerminated
  endian : g.endian = uperfEndianValue
  terminated : ∀ p ∈ g.control, p.host.Terminated
  distinct : g.control.Pairwise fun p p' => p.host.cstr = p'.host.cstr → p.host.cstr = []
  named : ∀ h ∈ openedHosts g.flowops, h.cstr ≠ []

theorem KeepsProgram.connected {g g' : Group} (hkeeps : KeepsProgram g g') (hg : g.WellFormed)
    (hterminated : ∀ p ∈ g'.control, p.host.Terminated)
    (hdistinct : g'.control.Pairwise fun p p' => p.host.cstr = p'.host.cstr → p.host.cstr = [])
    (hnamed : ∀ h ∈ openedHosts g.flowops, h.cstr ≠ []) : g'.Connected where
  counted := by
    refine ⟨?_, ?_⟩
    · rw [hkeeps.head, hkeeps.tlist]
      exact hg.ntxn
    · rw [hkeeps.tlist]
      exact hg.nflowop
  hosts := by
    refine ⟨?_, ?_⟩
    · rw [hkeeps.flowops_eq]
      exact hg.remotehost
    · rw [hkeeps.flowops_eq]
      exact hg.localhost
  endian := by
    rw [hkeeps.head]
    exact hg.endian
  terminated := hterminated
  distinct := hdistinct
  named := by
    rw [hkeeps.flowops_eq]
    exact hnamed

theorem createControlConnections_connected {options : ControlOptions} {connect : Connect}
    {w w' : Workorder} {conns : List Protocol} (hwf : ∀ g ∈ w.grp, g.WellFormed)
    (hfresh : ∀ g ∈ w.grp, g.control = [])
    (hcreate : createControlConnections options connect w = some (w', conns)) :
    ∀ g ∈ w'.grp, g.Connected := by
  have hhosts := fun g hg => (hwf g hg).toHostsTerminated
  have hconnected : List.Forall₂ (fun g g' => g.WellFormed → g'.Connected) w.grp w'.grp := by
    by_cases hnames : options.NamesHosts
    · refine (createControlConnections_control hnames hfresh hhosts hcreate).imp fun g g' h hg =>
        h.1.connected hg h.2.terminated (h.2.distinct.imp fun hne hsame => absurd ?_ hne)
          fun h' hh => (h.2.found h' hh).1
      rw [HostName.folded, HostName.folded, hsame]
    · exact (createControlConnections_unnamed hnames hfresh hhosts hcreate).imp fun g g' h hg =>
        h.1.connected hg h.2.terminated
          (List.pairwise_of_forall_mem_list fun p hp _ _ _ => h.2.unnamed p hp) h.2.named
  intro g' hg'
  obtain ⟨i, hi, rfl⟩ := List.mem_iff_getElem.mp hg'
  have hlen := hconnected.length_eq
  exact List.Forall₂.get hconnected (by omega) hi
    (hwf _ (List.getElem_mem (l := w.grp) (n := i) (by omega)))

/-- The hosts after the `k`-th one are other hosts. -/
theorem Group.Connected.ne_of_drop {g : Group} (hg : g.Connected) {k : ℕ} {p : Protocol}
    (hp : g.control[k]? = some p) (hset : p.host.cstr ≠ []) :
    ∀ p' ∈ g.control.drop (k + 1), p.host.cstr ≠ p'.host.cstr := by
  intro p' hp'
  obtain ⟨hk, rfl⟩ := List.getElem?_eq_some_iff.mp hp
  have hdrop := hg.distinct.sublist (List.drop_sublist k _)
  rw [List.drop_eq_getElem_cons hk] at hdrop
  exact mt ((List.pairwise_cons.mp hdrop).1 p' hp') hset

/-- A slave behind a connection without a name gets no accept flowop, as every
connect of the group names a host. -/
theorem Group.Connected.not_accept {g : Group} (hg : g.Connected) {host : HostName}
    (hhost : host.cstr = []) (e e' : Endian) (p : Protocol) :
    ∀ f ∈ ((txCopy g host).decoded e e' p).flowops, f.type ≠ .accept := by
  rw [flowops_decoded, flowops_txCopy]
  simp only [List.forall_mem_map, Flowop.type_decoded, Flowop.type_forSlave_nopOther]
  intro f hf haccept
  split_ifs at haccept with haddr
  have hopens : f.type.opens = true := by
    rw [← opens_flowopOpposite, haccept]
    rfl
  obtain ⟨i, hi⟩ := List.mem_iff_getElem?.mp hf
  have hset := hg.named _ (mem_openedHosts.mpr ⟨i, f, hi, hopens, rfl⟩)
  rcases haddr with hempty | hsame
  · exact hset hempty
  · exact hset (hsame.trans hhost)

/-- After phase 2 the master's strands know the ports of all strands of all
slaves of all groups. -/
theorem handshakePhase2_slavePorts {options : ControlOptions} {connect : Connect}
    {w₀ w : Workorder} {conns : List Protocol} (hwf : ∀ g ∈ w₀.grp, g.WellFormed)
    (hfresh : ∀ g ∈ w₀.grp, g.control = [])
    (hcreate : createControlConnections options connect w₀ = some (w, conns))
    {m : MasterEnv} (hm : m.listen.Succeeds) {slave : ℕ → ℕ → SlaveEnv}
    (hslave : ∀ i c, (slave i c).Serves) {shm shm' : Shm} {slaves : List (List (Option Shm))}
    (hrun : handshakePhase2 m slave shm w = some (shm', slaves)) {n k : ℕ} {g : Group}
    {p : Protocol} (hg : w.grp[n]? = some g) (hp : g.control[k]? = some p) :
    ∃ sshm, (slaves[n]?.bind fun ss => ss[k]?) = some (some sshm) ∧
      SlavePortsAgree shm' (ssidOf w.grp n) g.nthreads.toNat p.host sshm := by
  have hany := hm.anyPositive
  have hconnected := createControlConnections_connected hwf hfresh hcreate
  have hgroup := hconnected g (List.mem_of_getElem? hg)
  obtain ⟨before, after, ss, hrunGroup, hss, -, hlater⟩ :=
    handshakePhase2Groups_group hany (fun g hg => (hconnected g hg).terminated) hrun hg
  simp only [Nat.zero_add] at hrunGroup hlater
  obtain ⟨shmk, shmk', s, rest, -, hstep, hs, htail⟩ :=
    handshakePhase2Group_split hany hgroup.terminated hrunGroup hp
  obtain ⟨sshm, rfl, hworklist, hagree⟩ := handshakeP2WithSlave_slavePorts (hslave _ _)
    hgroup.counted hgroup.endian (hgroup.terminated p (List.mem_of_getElem? hp)) hstep
  refine ⟨sshm, by simp [hss, hs], ?_⟩
  intro j hj q hq hex
  obtain ⟨l, hconn, hport⟩ := hagree j hj q hq hex
  refine ⟨l, hconn, ?_⟩
  have hset : p.host.cstr ≠ [] := by
    intro hempty
    obtain ⟨f, hf, haccept, -⟩ := hex
    rw [hworklist] at hf
    exact hgroup.not_accept hempty _ _ _ f hf haccept
  -- neither the later slaves of the group nor the later groups touch the entry
  obtain ⟨-, -, hkeep⟩ := handshakePhase2Group_frame hany
    (fun p hp => hgroup.terminated p (List.mem_of_mem_drop hp)) htail
  calc strandGetPort (shm'.strands (j + ssidOf w.grp n)) p.host q
      = strandGetPort (after.strands (j + ssidOf w.grp n)) p.host q := by rw [hlater j hj]
    _ = strandGetPort (shmk'.strands (j + ssidOf w.grp n)) p.host q :=
        hkeep j hj p.host (hgroup.ne_of_drop hp hset) q
    _ = l.port := hport

/-! ## A work order with two slaves -/

/-- A system that goes through the ports from 1024 on when it may choose. -/
def bindInOrder : Bind := fun n p _ =>
  if p.Unspecified then some (Int32.ofNat (n % 60000 + 1024))
  else if 0 ≤ p.port then some p.port else none

/-- `listen` on that system. -/
def listenInOrder : Listen := protocolListen bindInOrder

theorem listenInOrder_succeeds : listenInOrder.Succeeds := by
  intro n p options hport
  by_cases hany : p.Unspecified
  · simp only [listenInOrder, protocolListen, bindInOrder, if_pos hany]
    rw [Int32.lt_iff_toInt_lt, Int32.toInt_ofNat_of_lt (by omega)]
    show (0 : ℤ) < _
    omega
  · simp only [listenInOrder, protocolListen, bindInOrder, if_neg hany, if_pos hport]
    exact Int32.lt_of_le_of_ne hport fun hzero => hany (.inl hzero.symm)

/-- A master whose strand accepts from both slaves on any port, and connects to
the first. -/
def acceptFromTwo : Workorder where
  grp :=
    [{ endian := uperfEndianValue
       nthreads := 1
       ntxn := 1
       tlist :=
        [{ nflowop := 3
           iter := 1
           flist :=
            [{ type := .accept
               options := { protocol := 1, remotehost := HostName.ofBytes [104, 49] } },
              { type := .accept
                pId := 1
                options := { protocol := 1, remotehost := HostName.ofBytes [104, 50] } },
              { type := .connect
                pId := 2
                options := { protocol := 2, remotehost := HostName.ofBytes [104, 49] } }] }] }]

theorem acceptFromTwo_wellFormed : ∀ g ∈ acceptFromTwo.grp, g.WellFormed := by
  intro g hg
  cases List.mem_singleton.mp hg
  refine ⟨⟨by decide, by decide⟩, ?_, rfl, ?_⟩
  · constructor <;> simp [Group.flowops]
  · intro i hi
    have hzero : i = 0 := Nat.lt_one_iff.mp hi
    subst hzero
    rfl

/-- `acceptFromTwo` with its two control connections. -/
def acceptFromTwoControlled : Workorder where
  grp := acceptFromTwo.grp.map fun g =>
    { g with
      control :=
        [createProtocol 1 (str "h2") 20000, createProtocol 1 (str "h1") 20000]
      protocols := #v[0, 1, 1, 0, 0, 0, 0, 0] }

theorem acceptFromTwo_control : ∃ conns,
    createControlConnections ⟨1, 20000⟩ (fun _ _ => 0) acceptFromTwo =
      some (acceptFromTwoControlled, conns) := by
  refine ⟨[createProtocol 1 (str "h1") 20000, createProtocol 1 (str "h2") 20000], ?_⟩
  decide

/-- A slave of the other byte order. -/
def slaveOfOtherOrder : SlaveEnv where
  endian := .big
  table := ⟨fun _ => true, fun _ => []⟩
  control := masterAtSlave
  listen := listenInOrder
  rx := .full
  tx := .full
  masterRx := .full
  masterTx := .full
  stack := {}
  strerror := []

theorem slaveOfOtherOrder_serves : slaveOfOtherOrder.Serves where
  progress := ⟨Kernel.full_positive, Kernel.full_positive, Kernel.full_positive,
    Kernel.full_positive⟩
  peer := HostName.terminated_ofBytes _
  listen := listenInOrder_succeeds

theorem acceptFromTwo_runnable : ∀ g ∈ acceptFromTwoControlled.grp, g.Runnable := by
  intro g hg
  cases List.mem_singleton.mp hg
  exact ⟨⟨by decide, by decide⟩, rfl, by decide, by decide⟩

theorem acceptFromTwo_second : ∃ g p,
    acceptFromTwoControlled.grp[0]? = some g ∧ g.control[1]? = some p :=
  ⟨_, _, rfl, rfl⟩

theorem acceptFromTwo_run : ∃ shm' slaves,
    handshakePhase2 ⟨.little, listenInOrder⟩ (fun _ _ => slaveOfOtherOrder) {}
      acceptFromTwoControlled = some (shm', slaves) ∧
    List.Forall₂ (fun g ss => ss.length = g.control.length ∧ ∀ s ∈ ss, s.isSome = true)
      acceptFromTwoControlled.grp slaves ∧
    shm'.listens ≤ 12 :=
  handshakePhase2_isSome (m := ⟨.little, listenInOrder⟩) listenInOrder_succeeds
    (fun _ _ => slaveOfOtherOrder_serves) acceptFromTwo_runnable {}

theorem handshakePhase2_slavePorts_acceptFromTwo : ∃ shm' slaves g p sshm,
    handshakePhase2 ⟨.little, listenInOrder⟩ (fun _ _ => slaveOfOtherOrder) {}
      acceptFromTwoControlled = some (shm', slaves) ∧
    acceptFromTwoControlled.grp[0]? = some g ∧ g.control[1]? = some p ∧
    (slaves[0]?.bind fun ss => ss[1]?) = some (some sshm) ∧
    SlavePortsAgree shm' (ssidOf acceptFromTwoControlled.grp 0) g.nthreads.toNat p.host
      sshm := by
  obtain ⟨conns, hcreate⟩ := acceptFromTwo_control
  obtain ⟨g, p, hg, hp⟩ := acceptFromTwo_second
  obtain ⟨shm', slaves, hrun, -, -⟩ := acceptFromTwo_run
  obtain ⟨sshm, hsshm, hagree⟩ := handshakePhase2_slavePorts (m := ⟨.little, listenInOrder⟩)
    acceptFromTwo_wellFormed (by simp [acceptFromTwo]) hcreate listenInOrder_succeeds
    (fun _ _ => slaveOfOtherOrder_serves) hrun hg hp
  exact ⟨shm', slaves, g, p, sshm, hrun, hg, hp, hsshm, hagree⟩

end Uperf
