import Uperf.Handshake.Ports

/-!
# The ports of the listening master

`preprocess_accepts` runs on the master once for each control connection of a
group, and every run opens new ports for the same strands.  A slave other than
the last one is told ports of connections that are no longer in `listen_conn`,
unless the profile fixes the port (which RDS ignores).  The slave in turn enters the ports under the
address it sees and looks them up under the name in the flowop, which is the
profile's `localhost` if that is set.  `handshakePhase2_masterPorts_iff` says
that the two sides agree exactly when neither gets in the way.
-/

namespace Uperf

open Lib

/-! ## The last run of `preprocess_accepts` -/

/-- The strand listens for the protocol, on a port that one of the calls
`lo ≤ n < hi` of `listen` has returned. -/
def ListensOn (listen : Listen) (f : Flowop) (q : UInt32) (lo hi : ℕ) (st : Strand) : Prop :=
  ∃ l, st.listenConnAt q = some l ∧ 0 < l.port ∧ PortOf listen f lo hi l.port

section

variable {m : MasterEnv} (hany : m.listen.AnyPositive) {g : Group} {f : Flowop} {q : UInt32}
  (hfirst : firstAccept g.flowops q = some f) (hq : q.toNat < numProtocols)
include hany hfirst hq

/-- One handshake opens the connections of all strands of the group anew. -/
theorem handshakeP2WithSlave_listens {s : SlaveEnv} {host : HostName} {shm shm' : Shm}
    {slave : Option Shm} {ssid : ℕ}
    (hrun : handshakeP2WithSlave m s shm host g ssid = some (shm', slave)) :
    ∀ j < g.nthreads.toNat,
      ListensOn m.listen f q shm.listens shm'.listens (shm'.strands (j + ssid)) := by
  obtain ⟨⟨shm₁, si⟩, haccepts, hrun⟩ := Option.bind_eq_some_iff.mp hrun
  obtain ⟨w, -, hrun⟩ := Option.bind_eq_some_iff.mp hrun
  obtain ⟨shm₂, hrx, hrun⟩ := Option.bind_eq_some_iff.mp hrun
  cases hrun
  obtain ⟨-, -, rfl⟩ := firstAccept_protocol hfirst
  intro j hj
  obtain ⟨l, hconn, -, hpos, hof⟩ :=
    (preprocessAccepts_spec hany haccepts).listening _ f hfirst hq j hj
  rcases rxPhase2_eq_some hrx with rfl | ⟨info, rfl⟩
  · exact ⟨l, hconn, hpos, hof⟩
  · refine ⟨l, ?_, hpos, hof⟩
    rw [listenConnAt_update]
    exact hconn

/-- After the handshakes with one or more slaves the strands listen where the
last of them left them. -/
theorem handshakePhase2Group_listens {slave : ℕ → SlaveEnv} {id c : ℕ}
    {control : List Protocol} (hhosts : ∀ p ∈ control, p.host.Terminated)
    (hne : control ≠ []) {shm shm' : Shm} {slaves : List (Option Shm)}
    (hrun : handshakePhase2Group m slave g id c control shm = some (shm', slaves)) :
    ∀ j < g.nthreads.toNat,
      ListensOn m.listen f q shm.listens shm'.listens (shm'.strands (j + id)) := by
  induction control generalizing c shm slaves with
  | nil => exact absurd rfl hne
  | cons p rest ih =>
      obtain ⟨⟨mid, s⟩, hstep, hrun⟩ := Option.bind_eq_some_iff.mp hrun
      obtain ⟨⟨last, ss⟩, hrest, hrun⟩ := Option.bind_eq_some_iff.mp hrun
      cases hrun
      intro j hj
      by_cases hlast : rest = []
      · subst hlast
        cases hrest
        exact handshakeP2WithSlave_listens hany hfirst hq hstep j hj
      · have hframe := handshakeP2WithSlave_frame hany (hhosts p (by simp)) hstep
        obtain ⟨l, hconn, hpos, hof⟩ :=
          ih (fun p hp => hhosts p (by simp [hp])) hlast hrest j hj
        exact ⟨l, hconn, hpos, hof.mono hframe.listens (le_refl _)⟩

end

/-! ## What a connect flowop of a slave looks up -/

/-- The slave's copy of the flowop looks up the host under which the slave has
entered the master's ports. -/
def Flowop.NamesPeer (peer : HostName) (f : Flowop) : Prop :=
  f.options.localhost.cstr = [] ∨ f.options.localhost.cstr = peer.cstr

/-- One handshake from the slave's side: the master's strands listen, and the
slave's strands have their ports under the peer's name and none under others. -/
theorem handshakeP2WithSlave_masterPorts {m : MasterEnv} (hany : m.listen.AnyPositive)
    {s : SlaveEnv} (hs : s.Positive) (hpeer : s.control.host.Terminated)
    (hslave : s.listen.AnyPositive) {g : Group} (hg : g.Counted)
    (hendian : g.endian = uperfEndianValue) {host : HostName} {shm shm' sshm : Shm} {ssid : ℕ}
    (hrun : handshakeP2WithSlave m s shm host g ssid = some (shm', some sshm)) :
    sshm.worklist = (txCopy g host).decoded m.endian s.endian s.control ∧
      ∀ q f, firstAccept g.flowops q = some f → q.toNat < numProtocols →
        ∀ j < g.nthreads.toNat, ∃ l, (shm'.strands (j + ssid)).listenConnAt q = some l ∧
          0 < l.port ∧ PortOf m.listen f shm.listens shm'.listens l.port ∧
          ∀ h, strandGetPort (sshm.strands j) h q =
            if s.control.host.cstr = h.cstr then l.port else -1 := by
  obtain ⟨shm₁, si, shm₀, haccepts, hready, ⟨hnone, -⟩ | ⟨_, sl, hsome, hopened, hentered⟩⟩ :=
    handshakeP2WithSlave_outcome hs hpeer hslave hg hendian hrun
  · cases hnone
  · cases hsome
    have hmaster := preprocessAccepts_spec hany haccepts
    have hdone := preprocessAccepts_spec hslave hopened
    refine ⟨hdone.worklist.trans hready.worklist, fun q f hfirst hq j hj => ?_⟩
    obtain ⟨hf, haccept, rfl⟩ := firstAccept_protocol hfirst
    -- the slave is sent what the strands have at that time
    obtain ⟨l, hconn, hport, hpos, hof⟩ := hmaster.listening _ f hfirst hq j hj
    obtain ⟨sent, rfl⟩ : ∃ sent, si = some sent := by
      refine Option.ne_none_iff_exists'.mp fun hnone => ?_
      exact hmaster.none_iff.mp hnone f hf haccept
    have hget : ∀ h, strandGetPort (sshm.strands j) h f.options.protocol =
        if s.control.host.cstr = h.cstr then l.port else -1 := by
      intro h
      have hsent : (sent j).portAt f.options.protocol = l.port := hport
      rw [strandGetPort_congr (hdone.slaveList j), hready.ports sent rfl j hj, hsent]
    rcases hentered with ⟨-, rfl⟩ | ⟨info, rfl, -⟩
    · exact ⟨l, hconn, hpos, hof, hget⟩
    · refine ⟨l, ?_, hpos, hof, hget⟩
      rw [listenConnAt_update]
      exact hconn

/-- For every thread of the group and every connect flowop of the slave, the
port that `strand_get_port` finds there is that of the connection in
`listen_conn` of the master's strand. -/
def MasterPortsAgree (shm : Shm) (ssid nthr : ℕ) (slave : Shm) : Prop :=
  ∀ j < nthr, ∀ f ∈ slave.worklist.flowops, f.type = .connect →
    f.options.protocol.toNat < numProtocols →
      ∃ l, (shm.strands (j + ssid)).listenConnAt f.options.protocol = some l ∧
        strandGetPort (slave.strands j) f.options.remotehost f.options.protocol = l.port

/-- The connect flowops of a slave are the accept flowops of the group that are
addressed to it, with the peer or the profile's `localhost` for the host. -/
theorem masterPortsAgree_iff {g : Group} (hhosts : g.HostsTerminated) {host : HostName}
    {e e' : Endian} {p : Protocol} (hp : p.host.Terminated) {shm slave : Shm} {ssid nthr : ℕ}
    (hworklist : slave.worklist = (txCopy g host).decoded e e' p) :
    MasterPortsAgree shm ssid nthr slave ↔
      ∀ j < nthr, ∀ f ∈ g.flowops, f.type = .accept → f.AddressedTo host →
        f.options.protocol.toNat < numProtocols →
          ∃ l, (shm.strands (j + ssid)).listenConnAt f.options.protocol = some l ∧
            strandGetPort (slave.strands j)
              (if f.options.localhost.cstr = [] then p.host else f.options.localhost)
              f.options.protocol = l.port := by
  -- the connects of the slave are the accepts that are meant for it
  have htype : ∀ f : Flowop,
      (if f.AddressedTo host then flowopOpposite f.type else .nop) = .connect ↔
        f.type = .accept ∧ f.AddressedTo host := by
    intro f
    split_ifs with haddr <;> simp [haddr]
  -- their remote host is the local host of the accept, or the master
  have hget : ∀ j, ∀ f ∈ g.flowops, ∀ q,
      strandGetPort (slave.strands j)
          ((f.forSlave.nopOther host).decoded e e' p).options.remotehost q =
        strandGetPort (slave.strands j)
          (if f.options.localhost.cstr = [] then p.host else f.options.localhost) q := by
    intro j f hf q
    refine strandGetPort_congr_host _ ?_ q
    rw [Flowop.remotehost_decoded e e' p hp]
    · simp only [Flowop.options_nopOther, Flowop.localhost_forSlave, CharArray.isEmpty_iff]
      split_ifs <;> rfl
    · simpa using hhosts.localhost f hf
  rw [MasterPortsAgree, hworklist, flowops_decoded, flowops_txCopy]
  simp only [List.forall_mem_map, Flowop.type_decoded, Flowop.type_forSlave_nopOther, htype,
    Flowop.protocol_decoded, Flowop.options_nopOther, Flowop.protocol_forSlave, and_imp]
  refine forall₂_congr fun j _ => forall₂_congr fun f hf => ?_
  simp only [hget j f hf]

/-! ## When the two sides agree -/

/-- Every call that leaves the port to the system succeeds with a positive port
that no other of the `calls` calls gave. -/
structure Bind.Fresh (bind : Bind) (calls : ℕ) : Prop where
  positive : ∀ n p options, p.Unspecified → ∃ port, bind n p options = some port ∧ 0 < port
  fresh : ∀ n n' p p' options options', n < calls → n' < calls → p.Unspecified →
    p'.Unspecified → bind n p options = bind n' p' options' → n = n'

theorem protocolListen_unspecified {bind : Bind} {n : ℕ} {p : Protocol} {options : FlowopOptions}
    {port : Int32} (hany : p.Unspecified) (hbind : bind n p options = some port) :
    protocolListen bind n p options = port := by
  simp [protocolListen, hbind, hany]

theorem Bind.Fresh.anyPositive {bind : Bind} {calls : ℕ} (hbind : bind.Fresh calls) :
    (protocolListen bind).AnyPositive := by
  intro n p options hport
  obtain ⟨port, hsome, hpos⟩ := hbind.positive n p options (.inl hport)
  rwa [protocolListen_unspecified (.inl hport) hsome]

/-- Two calls that leave the port to the system return different ports. -/
theorem Bind.Fresh.eq_of_listen {bind : Bind} {calls : ℕ} (hbind : bind.Fresh calls) {n n' : ℕ}
    {p p' : Protocol} {options options' : FlowopOptions} (hn : n < calls) (hn' : n' < calls)
    (hp : p.Unspecified) (hp' : p'.Unspecified)
    (hsame : protocolListen bind n p options = protocolListen bind n' p' options') : n = n' := by
  obtain ⟨port, hsome, -⟩ := hbind.positive n p options hp
  obtain ⟨port', hsome', -⟩ := hbind.positive n' p' options' hp'
  rw [protocolListen_unspecified hp hsome, protocolListen_unspecified hp' hsome'] at hsame
  exact hbind.fresh n n' p p' options options' hn hn' hp hp' (by rw [hsome, hsome', hsame])

/-- A call for a fixed port fails or returns that port. -/
theorem protocolListen_specified (bind : Bind) (n : ℕ) {p : Protocol} (options : FlowopOptions)
    (hfixed : ¬ p.Unspecified) :
    protocolListen bind n p options = uperfFailure ∨ protocolListen bind n p options = p.port := by
  unfold protocolListen
  split
  · exact .inl rfl
  · exact .inr (if_neg hfixed)

/-- The listening connections of the flowop have the port of the profile. -/
def Flowop.FixesPort (f : Flowop) : Prop :=
  f.requestedPort ≠ anyPort ∧ f.options.protocol ≠ protocolRds

theorem Flowop.fixesPort_iff (f : Flowop) :
    f.FixesPort ↔
      ¬ (createProtocol f.options.protocol (str " ") f.requestedPort).Unspecified := by
  rw [FixesPort, Protocol.Unspecified, not_or]
  rfl

/-- Two connections that listen for one flowop have the same port if that is
fixed, and different ones if they were made by different calls. -/
theorem PortOf.eq_iff {bind : Bind} {calls : ℕ} (hbind : bind.Fresh calls) {f : Flowop}
    {lo mid hi : ℕ} (hcalls : hi ≤ calls) {port port' : Int32} (hpos : 0 < port)
    (hpos' : 0 < port') (h : PortOf (protocolListen bind) f lo mid port)
    (h' : PortOf (protocolListen bind) f mid hi port') : port = port' ↔ f.FixesPort := by
  obtain ⟨n, -, hn, rfl⟩ := h
  obtain ⟨n', hn', hnhi', rfl⟩ := h'
  rw [f.fixesPort_iff]
  constructor
  · intro hsame hany
    have hcall := hbind.eq_of_listen (by omega) (by omega) hany hany hsame
    omega
  · intro hfixed
    have hport : ∀ n, 0 < (f.listener (protocolListen bind) n).port →
        (f.listener (protocolListen bind) n).port = f.requestedPort := by
      intro n hpos
      rcases protocolListen_specified bind n f.options hfixed with hfail | hgiven
      · have hnot : ¬ (0 : Int32) < uperfFailure := by decide
        rw [Flowop.listener, Protocol.listening, hfail] at hpos
        exact absurd hpos hnot
      · exact hgiven
    rw [hport n hpos, hport n' hpos']

/-- The ports that a connect flowop of the slave `k` finds are right exactly
when its host name is the one the slave knows and no later handshake has opened
other ports. -/
def MasterPortsKept (g : Group) (k : ℕ) (host peer : HostName) : Prop :=
  ∀ f ∈ g.flowops, f.type = .accept → f.AddressedTo host →
    f.options.protocol.toNat < numProtocols →
      f.NamesPeer peer ∧
        (k + 1 = g.control.length ∨
          ∀ f', firstAccept g.flowops f.options.protocol = some f' → f'.FixesPort)

/-- After all handshakes every strand of the group listens for the protocols of
its accept flowops, and the slave `k` has been told the port where it listened
then.  It still listens there if no later handshake came, or if the port is fixed. -/
theorem handshakePhase2_told {w : Workorder} (hwf : ∀ g ∈ w.grp, g.Connected)
    {e : Endian} {bind : Bind} {slave : ℕ → ℕ → SlaveEnv}
    (hprogress : ∀ i c, (slave i c).Positive)
    (hpeer : ∀ i c, (slave i c).control.host.Terminated)
    (hslave : ∀ i c, (slave i c).listen.AnyPositive) {shm shm' : Shm}
    (hbind : bind.Fresh shm'.listens) {slaves : List (List (Option Shm))}
    (hrun : handshakePhase2 ⟨e, protocolListen bind⟩ slave shm w = some (shm', slaves))
    {n k : ℕ} {g : Group} {p : Protocol} (hg : w.grp[n]? = some g)
    (hp : g.control[k]? = some p) {sshm : Shm}
    (hsshm : (slaves[n]?.bind fun ss => ss[k]?) = some (some sshm)) :
    sshm.worklist = (txCopy g p.host).decoded e (slave n k).endian (slave n k).control ∧
      ∀ q f, firstAccept g.flowops q = some f → q.toNat < numProtocols →
        ∀ j < g.nthreads.toNat, ∃ l told,
          (shm'.strands (j + ssidOf w.grp n)).listenConnAt q = some l ∧ 0 < l.port ∧ 0 < told ∧
          (∀ h, strandGetPort (sshm.strands j) h q =
            if (slave n k).control.host.cstr = h.cstr then told else -1) ∧
          (told = l.port ↔ k + 1 = g.control.length ∨ f.FixesPort) := by
  have hany : (⟨e, protocolListen bind⟩ : MasterEnv).listen.AnyPositive := hbind.anyPositive
  have hgroup := hwf g (List.mem_of_getElem? hg)
  obtain ⟨before, after, ss, hrunGroup, hss, hcalls, hlater⟩ :=
    handshakePhase2Groups_group hany (fun g hg => (hwf g hg).terminated) hrun hg
  simp only [Nat.zero_add] at hrunGroup hlater
  obtain ⟨shmk, shmk', s, rest, -, hstep, hs, htail⟩ :=
    handshakePhase2Group_split hany hgroup.terminated hrunGroup hp
  simp only [Nat.zero_add] at hstep htail
  obtain rfl : s = some sshm := by simpa [hss, hs] using hsshm
  obtain ⟨hworklist, hports⟩ := handshakeP2WithSlave_masterPorts hany (hprogress n k)
    (hpeer n k) (hslave n k) hgroup.counted hgroup.endian hstep
  refine ⟨hworklist, fun q f hfirst hq j hj => ?_⟩
  obtain ⟨l, hconn, hpos, hof, hget⟩ := hports q f hfirst hq j hj
  by_cases hlast : k + 1 = g.control.length
  · have hnil : g.control.drop (k + 1) = [] := by rw [hlast, List.drop_length]
    rw [hnil] at htail
    cases htail
    exact ⟨l, l.port, by rw [hlater j hj]; exact hconn, hpos, hpos, hget, by simp [hlast]⟩
  · -- a later handshake has opened the connections of the strands anew
    have hk := (List.getElem?_eq_some_iff.mp hp).1
    have hne : g.control.drop (k + 1) ≠ [] := by
      rw [Ne, List.drop_eq_nil_iff]
      omega
    obtain ⟨l', hconn', hpos', hof'⟩ := handshakePhase2Group_listens hany hfirst hq
      (fun p hp => hgroup.terminated p (List.mem_of_mem_drop hp)) hne htail j hj
    refine ⟨l', l.port, by rw [hlater j hj]; exact hconn', hpos', hpos, hget, ?_⟩
    rw [PortOf.eq_iff hbind hcalls hpos hpos' hof hof']
    simp [hlast]

theorem masterPortsAgree_iff_kept {w : Workorder} (hwf : ∀ g ∈ w.grp, g.Connected)
    {e : Endian} {bind : Bind} {slave : ℕ → ℕ → SlaveEnv}
    (hprogress : ∀ i c, (slave i c).Positive)
    (hpeer : ∀ i c, (slave i c).control.host.Terminated)
    (hslave : ∀ i c, (slave i c).listen.AnyPositive) {shm shm' : Shm}
    (hbind : bind.Fresh shm'.listens) {slaves : List (List (Option Shm))}
    (hrun : handshakePhase2 ⟨e, protocolListen bind⟩ slave shm w = some (shm', slaves))
    {n k : ℕ} {g : Group} {p : Protocol} (hg : w.grp[n]? = some g)
    (hp : g.control[k]? = some p) {sshm : Shm}
    (hsshm : (slaves[n]?.bind fun ss => ss[k]?) = some (some sshm)) :
    MasterPortsAgree shm' (ssidOf w.grp n) g.nthreads.toNat sshm ↔
      g.nthreads = 0 ∨ MasterPortsKept g k p.host (slave n k).control.host := by
  have hgroup := hwf g (List.mem_of_getElem? hg)
  obtain ⟨hworklist, hconn⟩ :=
    handshakePhase2_told hwf hprogress hpeer hslave hbind hrun hg hp hsshm
  rw [masterPortsAgree_iff hgroup.hosts (hpeer n k) hworklist]
  constructor
  · intro hagree
    by_cases hzero : g.nthreads = 0
    · exact .inl hzero
    · have hj : 0 < g.nthreads.toNat :=
        Nat.pos_of_ne_zero (mt (UInt32.toNat_inj (b := 0)).mp hzero)
      refine .inr fun f hf haccept haddr hq => ?_
      obtain ⟨f', hfirst, -⟩ := firstAccept_isSome ⟨f, hf, haccept, rfl⟩
      obtain ⟨l, hl, hport⟩ := hagree 0 hj f hf haccept haddr hq
      obtain ⟨l', told, hl', hpos, -, hget, htold⟩ := hconn _ f' hfirst hq 0 hj
      cases hl.symm.trans hl'
      rw [hget] at hport
      -- a lookup under another name finds no port
      have hnames : (slave n k).control.host.cstr =
          (if f.options.localhost.cstr = [] then (slave n k).control.host
            else f.options.localhost).cstr := by
        by_contra hne
        rw [if_neg hne] at hport
        rw [← hport] at hpos
        exact absurd hpos (by decide)
      rw [if_pos hnames] at hport
      refine ⟨?_, ?_⟩
      · by_cases hempty : f.options.localhost.cstr = []
        · exact .inl hempty
        · rw [if_neg hempty] at hnames
          exact .inr hnames.symm
      · refine (htold.mp hport).imp_right fun hfixed f'' hfirst' => ?_
        rw [hfirst] at hfirst'
        cases hfirst'
        exact hfixed
  · rintro (hzero | hkept) j hj f hf haccept haddr hq
    · simp [hzero] at hj
    · obtain ⟨f', hfirst, -⟩ := firstAccept_isSome ⟨f, hf, haccept, rfl⟩
      obtain ⟨l, told, hl, -, -, hget, htold⟩ := hconn _ f' hfirst hq j hj
      obtain ⟨hnames, hlast⟩ := hkept f hf haccept haddr hq
      refine ⟨l, hl, ?_⟩
      have hpeerName : (slave n k).control.host.cstr =
          (if f.options.localhost.cstr = [] then (slave n k).control.host
            else f.options.localhost).cstr := by
        rcases hnames with hempty | hsame
        · rw [if_pos hempty]
        · split_ifs <;> simp [hsame]
      rw [hget, if_pos hpeerName]
      exact htold.mpr (hlast.imp_right fun hfixed => hfixed f' hfirst)

/-- After phase 2 a slave and the master agree on the ports that the master
listens on if and only if the slave knows the master under the host names of
its connect flowops and either the slave comes last in its group or the ports
are fixed. -/
theorem handshakePhase2_masterPorts_iff {options : ControlOptions} {connect : Connect}
    {w₀ w : Workorder} {conns : List Protocol} (hwf : ∀ g ∈ w₀.grp, g.WellFormed)
    (hfresh : ∀ g ∈ w₀.grp, g.control = [])
    (hcreate : createControlConnections options connect w₀ = some (w, conns))
    {e : Endian} {bind : Bind} {slave : ℕ → ℕ → SlaveEnv}
    (hprogress : ∀ i c, (slave i c).Positive)
    (hpeer : ∀ i c, (slave i c).control.host.Terminated)
    (hslave : ∀ i c, (slave i c).listen.AnyPositive) {shm shm' : Shm}
    (hbind : bind.Fresh shm'.listens) {slaves : List (List (Option Shm))}
    (hrun : handshakePhase2 ⟨e, protocolListen bind⟩ slave shm w = some (shm', slaves))
    {n k : ℕ} {g : Group} {p : Protocol} (hg : w.grp[n]? = some g)
    (hp : g.control[k]? = some p) {sshm : Shm}
    (hsshm : (slaves[n]?.bind fun ss => ss[k]?) = some (some sshm)) :
    MasterPortsAgree shm' (ssidOf w.grp n) g.nthreads.toNat sshm ↔
      g.nthreads = 0 ∨ MasterPortsKept g k p.host (slave n k).control.host :=
  masterPortsAgree_iff_kept (createControlConnections_connected hwf hfresh hcreate) hprogress
    hpeer hslave hbind hrun hg hp hsshm

theorem bindInOrder_fresh {calls : ℕ} (hcalls : calls ≤ 60000) : bindInOrder.Fresh calls := by
  refine ⟨fun n p options hany => ⟨_, if_pos hany, ?_⟩, ?_⟩
  · rw [Int32.lt_iff_toInt_lt, Int32.toInt_ofNat_of_lt (by omega)]
    show (0 : ℤ) < _
    omega
  · intro n n' p p' options options' hn hn' hany hany' hsame
    rw [bindInOrder, bindInOrder, if_pos hany, if_pos hany', Option.some_inj] at hsame
    have hport := congrArg Int32.toInt hsame
    rw [Int32.toInt_ofNat_of_lt (by omega), Int32.toInt_ofNat_of_lt (by omega)] at hport
    omega

/-- The two slaves of `acceptFromTwo` after phase 2. -/
theorem acceptFromTwo_slave {slaves : List (List (Option Shm))}
    (hready : List.Forall₂ (fun g ss => ss.length = g.control.length ∧ ∀ s ∈ ss, s.isSome = true)
      acceptFromTwoControlled.grp slaves) {k : ℕ} (hk : k < 2) :
    ∃ sshm, (slaves[0]?.bind fun ss => ss[k]?) = some (some sshm) := by
  obtain ⟨ss, rest, ⟨hlen, hsome⟩, -, rfl⟩ := List.forall₂_cons_left_iff.mp hready
  have hkss : k < ss.length := by
    rw [hlen]
    exact hk
  obtain ⟨sshm, hsshm⟩ := Option.isSome_iff_exists.mp (hsome _ (List.getElem_mem hkss))
  exact ⟨sshm, by simp [List.getElem?_eq_getElem hkss, hsshm]⟩

theorem handshakePhase2_masterPorts_iff_acceptFromTwo : ∃ shm' slaves g p sshm,
    handshakePhase2 ⟨.little, listenInOrder⟩ (fun _ _ => slaveOfOtherOrder) {}
      acceptFromTwoControlled = some (shm', slaves) ∧
    acceptFromTwoControlled.grp[0]? = some g ∧ g.control[1]? = some p ∧
    (slaves[0]?.bind fun ss => ss[1]?) = some (some sshm) ∧
    (MasterPortsAgree shm' (ssidOf acceptFromTwoControlled.grp 0) g.nthreads.toNat sshm ↔
      g.nthreads = 0 ∨ MasterPortsKept g 1 p.host slaveOfOtherOrder.control.host) := by
  obtain ⟨conns, hcreate⟩ := acceptFromTwo_control
  obtain ⟨g, p, hg, hp⟩ := acceptFromTwo_second
  obtain ⟨shm', slaves, hrun, hready, hcalls⟩ := acceptFromTwo_run
  obtain ⟨sshm, hsshm⟩ := acceptFromTwo_slave hready (k := 1) (by decide)
  refine ⟨shm', slaves, g, p, sshm, hrun, hg, hp, hsshm, ?_⟩
  exact handshakePhase2_masterPorts_iff acceptFromTwo_wellFormed (by simp [acceptFromTwo]) hcreate
    (fun _ _ => slaveOfOtherOrder_serves.progress)
    (fun _ _ => slaveOfOtherOrder_serves.peer) (fun _ _ => listenInOrder_succeeds.anyPositive)
    (bindInOrder_fresh (by omega)) hrun hg hp hsshm

/-- The slave that comes first is told the port of a connection that the
handshake with the second one replaces. -/
theorem handshakePhase2_masterPorts_acceptFromTwo : ∃ shm' slaves g sshm,
    handshakePhase2 ⟨.little, listenInOrder⟩ (fun _ _ => slaveOfOtherOrder) {}
      acceptFromTwoControlled = some (shm', slaves) ∧
    bindInOrder.Fresh shm'.listens ∧ acceptFromTwoControlled.grp[0]? = some g ∧
    (slaves[0]?.bind fun ss => ss[0]?) = some (some sshm) ∧
    ¬ MasterPortsAgree shm' (ssidOf acceptFromTwoControlled.grp 0) g.nthreads.toNat sshm := by
  obtain ⟨conns, hcreate⟩ := acceptFromTwo_control
  obtain ⟨shm', slaves, hrun, hready, hcalls⟩ := acceptFromTwo_run
  obtain ⟨sshm, hsshm⟩ := acceptFromTwo_slave hready (k := 0) (by decide)
  have hfresh : bindInOrder.Fresh shm'.listens := bindInOrder_fresh (by omega)
  refine ⟨shm', slaves, _, sshm, hrun, hfresh, rfl, hsshm, ?_⟩
  rw [masterPortsAgree_iff_kept
    (createControlConnections_connected acceptFromTwo_wellFormed (by simp [acceptFromTwo]) hcreate)
    (fun _ _ => slaveOfOtherOrder_serves.progress) (fun _ _ => slaveOfOtherOrder_serves.peer)
    (fun _ _ => listenInOrder_succeeds.anyPositive) hfresh hrun rfl
    (p := createProtocol 1 (str "h2") 20000) rfl hsshm]
  rintro (hzero | hkept)
  · exact absurd hzero (by decide)
  · obtain ⟨-, hlast | hfixed⟩ := hkept _ (List.mem_cons_of_mem _ (List.mem_cons_self ..)) rfl
      (.inr (by decide)) (by decide)
    · exact absurd hlast (by decide)
    · exact (hfixed _ rfl).1 rfl

end Uperf
