import Uperf.Workorder
import Uperf.Bswap

/-!
# Ports for accept flowops

The side that accepts opens its listening connections before the run, one per
thread and protocol or, for a fixed port, one for all threads, and tells the
other side the ports in an array of `slave_info_t`, one entry per thread.
`preprocessAccepts_spec` says what the array and the strands hold afterwards.
-/

namespace Uperf

/-- `slave_info_t`. -/
structure SlaveInfo where
  host : HostName := default
  port : Vector Int32 numProtocols := Vector.replicate numProtocols 0

/-- `si.port[protocol]`. -/
def SlaveInfo.portAt (si : SlaveInfo) (protocol : UInt32) : Int32 :=
  si.port[protocol.toNat]?.getD 0

def SlaveInfo.setPort (si : SlaveInfo) (protocol : UInt32) (port : Int32) : SlaveInfo :=
  { si with port := si.port.setIfInBounds protocol.toNat port }

/-- The fields of `strand_t` that say where the strand listens and connects to. -/
structure Strand where
  listenConn : Vector (Option Protocol) numProtocols := Vector.replicate numProtocols none
  slaveList : List SlaveInfo := []

/-- `s->listen_conn[protocol]`. -/
def Strand.listenConnAt (s : Strand) (protocol : UInt32) : Option Protocol :=
  s.listenConn[protocol.toNat]?.getD none

def Strand.setListenConn (s : Strand) (protocol : UInt32) (p : Protocol) : Strand :=
  { s with listenConn := s.listenConn.setIfInBounds protocol.toNat (some p) }

/-- `strand_add_slave`. -/
def strandAddSlave (s : Strand) (si : SlaveInfo) : Strand :=
  { s with slaveList := si :: s.slaveList }

/-- `strand_get_port`. -/
def strandGetPort (s : Strand) (host : HostName) (protocol : UInt32) : Int32 :=
  match s.slaveList.find? fun q => strcmpEq q.host host with
  | some q => q.portAt protocol
  | none => -1

/-- The fields of `uperf_shm_t` that the handshake uses.  `listens` counts the
calls of `listen` in this process. -/
structure Shm where
  strands : ℕ → Strand := fun _ => {}
  txNoSlaveInfo : UInt32 := 0
  rxNoSlaveInfo : UInt32 := 0
  bitswap : Bool := false
  worklist : Group := {}
  listens : ℕ := 0

/-- Running `body` for the threads `0 ≤ j < nthr` of the group whose first
strand is `ssid`. -/
def Shm.forThreads (shm : Shm) (ssid nthr : ℕ) (body : ℕ → Strand → Strand) : Shm :=
  { shm with strands := fun i =>
      if ssid ≤ i ∧ i < ssid + nthr then body (i - ssid) (shm.strands i) else shm.strands i }

/-- An array of `slave_info_t`. -/
abbrev SlaveInfos := ℕ → SlaveInfo

/-- The `listen` function of the protocols in one process, given the number of
earlier calls. -/
abbrev Listen := ℕ → Protocol → FlowopOptions → Int32

/-- What `bind` and `getsockname` of the `n`-th call do: the port that the socket
has, or a failure. -/
abbrev Bind := ℕ → Protocol → FlowopOptions → Option Int32

/-- A connection after `listen` returned `port`: it keeps the port it listens on,
over UDP and RDS in its private record. -/
def Protocol.listening (p : Protocol) (port : Int32) : Protocol := { p with port := port }

/-- `UPERF_FAILURE`. -/
abbrev uperfFailure : Int32 := -1

/-- `ANY_PORT`. -/
abbrev anyPort : Int32 := 0

/-- The connection leaves the port to the system: it asks for none, or is one of RDS,
where `pd->port` is 0 whatever port the connection was created for. -/
def Protocol.Unspecified (p : Protocol) : Prop := p.port = anyPort ∨ p.type = protocolRds

instance (p : Protocol) : Decidable p.Unspecified := inferInstanceAs (Decidable (_ ∨ _))

/-- The `listen` functions, among them `generic_listen`. -/
def protocolListen (bind : Bind) : Listen := fun n p options =>
  match bind n p options with
  | none => uperfFailure
  | some port => if p.Unspecified then port else p.port

/-- What the loops of `create_protocols` change. -/
abbrev ListenState := Shm × SlaveInfos

/-- The last loop body of `create_protocols`. -/
def listenThread (listen : Listen) (f : Flowop) (ssid : ℕ) (st : ListenState) (i : ℕ) :
    Option ListenState :=
  let (shm, sl) := st
  let protocol := f.options.protocol
  let p := createProtocol protocol (str " ") anyPort
  let port := listen shm.listens p f.options
  if port = uperfFailure then none
  else
    let strand := (shm.strands (i + ssid)).setListenConn protocol (p.listening port)
    some
      ({ shm with
          strands := Function.update shm.strands (i + ssid) strand
          listens := shm.listens + 1 },
        Function.update sl i ((sl i).setPort protocol port))

/-- `ntohs (htons (f->options.port))`. -/
def Flowop.listenPort (f : Flowop) : Int32 := f.options.port.toUInt16.toUInt32.toInt32

/-- `create_protocols`. -/
def createProtocols (listen : Listen) (nthr : ℕ) (f : Flowop) (ssid : ℕ) (st : ListenState) :
    Option ListenState :=
  let (shm, sl) := st
  let protocol := f.options.protocol
  if (sl 0).portAt protocol > 0 then some (shm, sl)
  else if f.options.port ≠ 0 then
    let p := createProtocol protocol (str " ") f.listenPort
    let port := listen shm.listens p f.options
    if port ≤ 0 then none
    else
      let shm := shm.forThreads ssid nthr fun _ s => s.setListenConn protocol (p.listening port)
      some
        ({ shm with listens := shm.listens + 1 },
          fun i => if i = 0 ∨ i < nthr then (sl i).setPort protocol port else sl i)
  else (List.range nthr).foldlM (listenThread listen f ssid) (shm, sl)

/-- The loop body of `preprocess_accepts`. -/
def preprocessAccept (listen : Listen) (g : Group) (ssid : ℕ) (st : Shm × Option SlaveInfos)
    (f : Flowop) : Option (Shm × Option SlaveInfos) :=
  let (shm, sl) := st
  if f.type = .accept then do
    let (shm, sl) ← createProtocols listen g.nthreads.toNat f ssid (shm, sl.getD fun _ => {})
    some ({ shm with txNoSlaveInfo := g.nthreads }, some sl)
  else some (shm, sl)

/-- `preprocess_accepts`. -/
def preprocessAccepts (listen : Listen) (shm : Shm) (g : Group) (ssid : ℕ) :
    Option (Shm × Option SlaveInfos) :=
  g.flowops.foldlM (preprocessAccept listen g ssid) (shm, none)

/-- `update_strand_with_slave_info`. -/
def updateStrandWithSlaveInfo (shm : Shm) (si : SlaveInfos) (host : HostName) (nthr ssid : ℕ) :
    Shm :=
  shm.forThreads ssid nthr fun i s =>
    strandAddSlave s { si i with host := strlcpy (si i).host host.cstr }

/-! ## Ports and listening connections of one entry -/

section

variable {q q' : UInt32} (hq : q.toNat < numProtocols)
include hq

@[simp] theorem SlaveInfo.portAt_setPort (si : SlaveInfo) (port : Int32) :
    (si.setPort q port).portAt q = port := by
  simp [portAt, setPort, hq]

@[simp] theorem Strand.listenConnAt_setListenConn (s : Strand) (p : Protocol) :
    (s.setListenConn q p).listenConnAt q = some p := by
  simp [listenConnAt, setListenConn, hq]

omit hq

theorem SlaveInfo.portAt_setPort_of_ne (si : SlaveInfo) (hne : q' ≠ q) (port : Int32) :
    (si.setPort q' port).portAt q = si.portAt q := by
  have hindex : q'.toNat ≠ q.toNat := mt UInt32.toNat_inj.mp hne
  simp [portAt, setPort, hindex]

theorem Strand.listenConnAt_setListenConn_of_ne (s : Strand) (hne : q' ≠ q) (p : Protocol) :
    (s.setListenConn q' p).listenConnAt q = s.listenConnAt q := by
  have hindex : q'.toNat ≠ q.toNat := mt UInt32.toNat_inj.mp hne
  simp [listenConnAt, setListenConn, hindex]

end

@[simp] theorem SlaveInfo.portAt_default (q : UInt32) : ({} : SlaveInfo).portAt q = 0 := by
  by_cases hq : q.toNat < numProtocols
  · simp [portAt, hq]
  · simp [portAt, hq]

@[simp] theorem Shm.strands_forThreads (shm : Shm) (ssid nthr : ℕ) (body : ℕ → Strand → Strand)
    {j : ℕ} (hj : j < nthr) :
    (shm.forThreads ssid nthr body).strands (j + ssid) = body j (shm.strands (j + ssid)) := by
  have hin : ssid ≤ j + ssid ∧ j + ssid < ssid + nthr := by omega
  simp [forThreads, hin]

theorem Shm.strands_forThreads_of_outside (shm : Shm) {ssid nthr : ℕ}
    (body : ℕ → Strand → Strand) {i : ℕ} (hi : ¬ (ssid ≤ i ∧ i < ssid + nthr)) :
    (shm.forThreads ssid nthr body).strands i = shm.strands i := by
  simp [forThreads, hi]

/-! ## One accept flowop -/

/-- What a call of `create_protocols` for protocol `q` leaves alone. -/
structure ListenFrame (q : UInt32) (ssid nthr : ℕ) (st st' : ListenState) : Prop where
  worklist : st'.1.worklist = st.1.worklist
  bitswap : st'.1.bitswap = st.1.bitswap
  listens : st.1.listens ≤ st'.1.listens
  outside : ∀ i, ¬ (ssid ≤ i ∧ i < ssid + nthr) → st'.1.strands i = st.1.strands i
  slaveList : ∀ i, (st'.1.strands i).slaveList = (st.1.strands i).slaveList
  otherConn : ∀ q', q ≠ q' → ∀ i,
    (st'.1.strands i).listenConnAt q' = (st.1.strands i).listenConnAt q'
  otherPort : ∀ q', q ≠ q' → ∀ i, (st'.2 i).portAt q' = (st.2 i).portAt q'

theorem ListenFrame.refl (q : UInt32) (ssid nthr : ℕ) (st : ListenState) :
    ListenFrame q ssid nthr st st :=
  ⟨rfl, rfl, le_refl _, fun _ _ => rfl, fun _ => rfl, fun _ _ _ => rfl, fun _ _ _ => rfl⟩

theorem ListenFrame.trans {q : UInt32} {ssid nthr : ℕ} {st st' st'' : ListenState}
    (h : ListenFrame q ssid nthr st st') (h' : ListenFrame q ssid nthr st' st'') :
    ListenFrame q ssid nthr st st'' where
  worklist := h'.worklist.trans h.worklist
  bitswap := h'.bitswap.trans h.bitswap
  listens := h.listens.trans h'.listens
  outside i hi := (h'.outside i hi).trans (h.outside i hi)
  slaveList i := (h'.slaveList i).trans (h.slaveList i)
  otherConn q' hq' i := (h'.otherConn q' hq' i).trans (h.otherConn q' hq' i)
  otherPort q' hq' i := (h'.otherPort q' hq' i).trans (h.otherPort q' hq' i)

/-- The port that `create_protocols` asks for: a fixed one or `ANY_PORT`. -/
def Flowop.requestedPort (f : Flowop) : Int32 :=
  if f.options.port ≠ 0 then f.listenPort else anyPort

/-- The listening connection that the `n`-th call of `listen` makes for `f`. -/
def Flowop.listener (f : Flowop) (listen : Listen) (n : ℕ) : Protocol :=
  let p := createProtocol f.options.protocol (str " ") f.requestedPort
  p.listening (listen n p f.options)

/-- `port` was returned for the flowop `f` by one of the calls `lo ≤ n < hi`. -/
def PortOf (listen : Listen) (f : Flowop) (lo hi : ℕ) (port : Int32) : Prop :=
  ∃ n, lo ≤ n ∧ n < hi ∧ port = (f.listener listen n).port

theorem PortOf.mono {listen : Listen} {f : Flowop} {lo lo' hi hi' : ℕ} {port : Int32}
    (h : PortOf listen f lo hi port) (hlo : lo' ≤ lo) (hhi : hi ≤ hi') :
    PortOf listen f lo' hi' port := by
  obtain ⟨n, hn, hn', hport⟩ := h
  exact ⟨n, by omega, by omega, hport⟩

/-- The first `nthr` threads listen for `f`, and the array has their ports. -/
def ListeningFor (listen : Listen) (f : Flowop) (ssid nthr lo : ℕ) (st : ListenState) : Prop :=
  ∀ j < nthr, ∃ p, (st.1.strands (j + ssid)).listenConnAt f.options.protocol = some p ∧
    (st.2 j).portAt f.options.protocol = p.port ∧ 0 < p.port ∧
      PortOf listen f lo st.1.listens p.port

/-- An unspecified port is always found. -/
def Listen.AnyPositive (listen : Listen) : Prop :=
  ∀ n p options, p.port = anyPort → 0 < listen n p options

section

variable {listen : Listen} {f : Flowop} {ssid nthr : ℕ} {st st' : ListenState}

theorem listenThread_frame {i : ℕ} (hi : i < nthr)
    (hstep : listenThread listen f ssid st i = some st') :
    ListenFrame f.options.protocol ssid nthr st st' := by
  simp only [listenThread, Option.ite_none_left_eq_some, Option.some.injEq] at hstep
  obtain ⟨-, rfl⟩ := hstep
  refine ⟨rfl, rfl, Nat.le_succ _, fun i' hi' => ?_, fun i' => ?_, fun q' hq' i' => ?_,
    fun q' hq' i' => ?_⟩
  · exact Function.update_of_ne (by omega) _ _
  · by_cases heq : i' = i + ssid
    · subst heq
      simp [Strand.setListenConn]
    · simp [heq]
  · by_cases heq : i' = i + ssid
    · subst heq
      simp [Strand.listenConnAt_setListenConn_of_ne _ hq']
    · simp [heq]
  · by_cases heq : i' = i
    · subst heq
      simp [SlaveInfo.portAt_setPort_of_ne _ hq']
    · simp [heq]

theorem listenThreads_frame {n : ℕ} (hn : n ≤ nthr)
    (hrun : (List.range n).foldlM (listenThread listen f ssid) st = some st') :
    ListenFrame f.options.protocol ssid nthr st st' := by
  induction n generalizing st' with
  | zero =>
      cases hrun
      exact ListenFrame.refl _ _ _ _
  | succ n ih =>
      rw [List.range_succ, List.foldlM_append] at hrun
      obtain ⟨mid, hmid, hlast⟩ := Option.bind_eq_some_iff.mp hrun
      obtain ⟨st'', hstep, hst⟩ := Option.bind_eq_some_iff.mp hlast
      cases hst
      exact (ih (by omega) hmid).trans (listenThread_frame (by omega) hstep)

theorem listenThreads_listening (hany : listen.AnyPositive)
    (hq : f.options.protocol.toNat < numProtocols) (hport : f.options.port = 0) {n : ℕ}
    (hrun : (List.range n).foldlM (listenThread listen f ssid) st = some st') :
    ListeningFor listen f ssid n st.1.listens st' := by
  induction n generalizing st' with
  | zero => exact fun j hj => absurd hj (Nat.not_lt_zero j)
  | succ n ih =>
      rw [List.range_succ, List.foldlM_append] at hrun
      obtain ⟨mid, hmid, hlast⟩ := Option.bind_eq_some_iff.mp hrun
      obtain ⟨st'', hstep, hst⟩ := Option.bind_eq_some_iff.mp hlast
      cases hst
      have hlistens := (listenThreads_frame (le_refl n) hmid).listens
      have hrequested : f.requestedPort = anyPort := by simp [Flowop.requestedPort, hport]
      simp only [listenThread, Option.ite_none_left_eq_some, Option.some.injEq] at hstep
      obtain ⟨-, rfl⟩ := hstep
      intro j hj
      by_cases hjn : j = n
      · -- the thread that was served last
        subst hjn
        refine ⟨f.listener listen mid.1.listens, ?_, ?_, ?_, mid.1.listens, hlistens,
          Nat.lt_succ_self _, rfl⟩ <;>
          simp only [Function.update_self, Flowop.listener, hrequested]
        · exact Strand.listenConnAt_setListenConn hq _ _
        · exact SlaveInfo.portAt_setPort hq _ _
        · exact hany _ _ _ rfl
      · obtain ⟨p, hconn, hinfo, hpos, hof⟩ := ih hmid j (by omega)
        refine ⟨p, ?_, ?_, hpos, hof.mono (le_refl _) (Nat.le_succ _)⟩
        · simpa [hjn] using hconn
        · simpa [hjn] using hinfo

theorem createProtocols_frame
    (hrun : createProtocols listen nthr f ssid st = some st') :
    ListenFrame f.options.protocol ssid nthr st st' := by
  obtain ⟨shm, sl⟩ := st
  simp only [createProtocols] at hrun
  split at hrun
  · cases hrun
    exact ListenFrame.refl _ _ _ _
  · split at hrun
    · split at hrun
      · cases hrun
      · cases hrun
        refine ⟨rfl, rfl, Nat.le_succ _, fun i hi => ?_, fun i => ?_, fun q' hq' i => ?_,
          fun q' hq' i => ?_⟩
        · simp [Shm.forThreads, hi]
        · simp only [Shm.forThreads]
          split <;> rfl
        · simp only [Shm.forThreads]
          split <;> simp [Strand.listenConnAt_setListenConn_of_ne _ hq']
        · show (if _ then _ else _ : SlaveInfo).portAt q' = _
          split <;> simp [SlaveInfo.portAt_setPort_of_ne _ hq']
    · exact listenThreads_frame (le_refl _) hrun

/-- After `create_protocols` the threads listen, unless a port for the protocol
had been entered before. -/
theorem createProtocols_listening (hany : listen.AnyPositive)
    (hq : f.options.protocol.toNat < numProtocols)
    (hrun : createProtocols listen nthr f ssid st = some st')
    (hfree : ¬ (st.2 0).portAt f.options.protocol > 0) :
    ListeningFor listen f ssid nthr st.1.listens st' := by
  obtain ⟨shm, sl⟩ := st
  simp only [createProtocols, if_neg hfree] at hrun
  split at hrun
  · rename_i hport
    have hrequested : f.requestedPort = f.listenPort := by simp [Flowop.requestedPort, hport]
    split at hrun
    · cases hrun
    · rename_i hpos
      cases hrun
      intro j hj
      refine ⟨f.listener listen shm.listens, ?_, ?_, ?_, shm.listens, le_refl _,
        Nat.lt_succ_self _, rfl⟩ <;>
        simp only [Flowop.listener, hrequested, Shm.strands_forThreads _ _ _ _ hj, hj, or_true,
          if_true]
      · exact Strand.listenConnAt_setListenConn hq _ _
      · exact SlaveInfo.portAt_setPort hq _ _
      · exact Int32.not_le.mp hpos
  · rename_i hport
    exact listenThreads_listening hany hq (by simpa using hport) hrun

end

/-! ## All accept flowops of a group -/

/-- The first accept flowop for a protocol. -/
def firstAccept (flowops : List Flowop) (q : UInt32) : Option Flowop :=
  flowops.find? fun f => f.type = .accept ∧ f.options.protocol = q

/-- The loop of `preprocess_accepts` after the flowops `done`, from `start` on. -/
structure AcceptsDone (listen : Listen) (g : Group) (ssid : ℕ) (start : Shm)
    (done : List Flowop) (st : Shm × Option SlaveInfos) : Prop where
  worklist : st.1.worklist = start.worklist
  bitswap : st.1.bitswap = start.bitswap
  listens : start.listens ≤ st.1.listens
  outside : ∀ i, ¬ (ssid ≤ i ∧ i < ssid + g.nthreads.toNat) →
    st.1.strands i = start.strands i
  slaveList : ∀ i, (st.1.strands i).slaveList = (start.strands i).slaveList
  none_iff : st.2 = none ↔ ∀ f ∈ done, f.type ≠ .accept
  tx : st.1.txNoSlaveInfo = if st.2 = none then start.txNoSlaveInfo else g.nthreads
  listening : ∀ q f, firstAccept done q = some f → q.toNat < numProtocols →
    ListeningFor listen f ssid g.nthreads.toNat start.listens (st.1, st.2.getD fun _ => {})
  free : ∀ q, firstAccept done q = none → q.toNat < numProtocols →
    ∀ i, ((st.2.getD fun _ => {}) i).portAt q = 0

theorem firstAccept_append (done : List Flowop) (f : Flowop) (q : UInt32) :
    firstAccept (done ++ [f]) q =
      (firstAccept done q).or
        (if f.type = .accept ∧ f.options.protocol = q then some f else none) := by
  rw [firstAccept, List.find?_append]
  split_ifs with hf <;> simp [firstAccept, hf]

theorem firstAccept_protocol {flowops : List Flowop} {q : UInt32} {f : Flowop}
    (h : firstAccept flowops q = some f) :
    f ∈ flowops ∧ f.type = .accept ∧ f.options.protocol = q := by
  have hf := List.find?_some h
  exact ⟨List.mem_of_find?_eq_some h, by simpa using hf⟩

section

variable {listen : Listen} {g : Group} {ssid : ℕ} {start : Shm}

theorem AcceptsDone.nil : AcceptsDone listen g ssid start [] (start, none) where
  worklist := rfl
  bitswap := rfl
  listens := le_refl _
  outside _ _ := rfl
  slaveList _ := rfl
  none_iff := by simp
  tx := rfl
  listening q f h := by simp [firstAccept] at h
  free q _ _ i := by simp

/-- Entries of the array and strands for a protocol are not touched by an
accept flowop for another one. -/
theorem ListeningFor.frame {f f' : Flowop} {nthr lo : ℕ} {st st' : ListenState}
    (h : ListeningFor listen f ssid nthr lo st)
    (hframe : ListenFrame f'.options.protocol ssid nthr st st')
    (hne : f'.options.protocol ≠ f.options.protocol) :
    ListeningFor listen f ssid nthr lo st' := by
  intro j hj
  obtain ⟨p, hconn, hinfo, hpos, hof⟩ := h j hj
  refine ⟨p, ?_, ?_, hpos, hof.mono (le_refl _) hframe.listens⟩
  · rw [hframe.otherConn _ hne, hconn]
  · rw [hframe.otherPort _ hne, hinfo]

theorem ListeningFor.mono {f : Flowop} {nthr lo lo' : ℕ} {st : ListenState}
    (h : ListeningFor listen f ssid nthr lo st) (hlo : lo' ≤ lo) :
    ListeningFor listen f ssid nthr lo' st := by
  intro j hj
  obtain ⟨p, hconn, hinfo, hpos, hof⟩ := h j hj
  exact ⟨p, hconn, hinfo, hpos, hof.mono hlo (le_refl _)⟩

theorem ListeningFor.of_eq {f : Flowop} {nthr lo : ℕ} {st st' : ListenState}
    (h : ListeningFor listen f ssid nthr lo st) (hstrands : st'.1.strands = st.1.strands)
    (hlistens : st'.1.listens = st.1.listens) (hsl : st'.2 = st.2) :
    ListeningFor listen f ssid nthr lo st' := by
  rw [ListeningFor, hstrands, hlistens, hsl]
  exact h

/-- A protocol that was listened for before the accept flowop `f`. -/
theorem ListeningFor.create {f f' : Flowop} {nthr lo : ℕ} {st st' : ListenState}
    (h : ListeningFor listen f' ssid nthr lo st)
    (hcreate : createProtocols listen nthr f ssid st = some st') :
    ListeningFor listen f' ssid nthr lo st' := by
  by_cases hsame : f.options.protocol = f'.options.protocol
  · -- the port of thread 0 ends the call at once
    intro j hj
    obtain ⟨p, -, hinfo, hpos, -⟩ := h 0 (by omega)
    have hearly : (st.2 0).portAt f.options.protocol > 0 := by
      rw [hsame, hinfo]
      exact hpos
    simp only [createProtocols, if_pos hearly] at hcreate
    cases hcreate
    exact h j hj
  · exact h.frame (createProtocols_frame hcreate) hsame

theorem AcceptsDone.accept (hany : listen.AnyPositive) {done : List Flowop} {f : Flowop}
    (haccept : f.type = .accept) {shm shm' : Shm} {sl : Option SlaveInfos} {sl' : SlaveInfos}
    (hdone : AcceptsDone listen g ssid start done (shm, sl))
    (hcreate : createProtocols listen g.nthreads.toNat f ssid (shm, sl.getD fun _ => {}) =
      some (shm', sl')) :
    AcceptsDone listen g ssid start (done ++ [f])
      ({ shm' with txNoSlaveInfo := g.nthreads }, some sl') := by
  have hframe := createProtocols_frame hcreate
  constructor
  · exact hframe.worklist.trans hdone.worklist
  · exact hframe.bitswap.trans hdone.bitswap
  · exact hdone.listens.trans hframe.listens
  · intro i hi
    exact (hframe.outside i hi).trans (hdone.outside i hi)
  · intro i
    exact (hframe.slaveList i).trans (hdone.slaveList i)
  · simp [haccept]
  · simp
  · intro q f₀ hfirst hq
    rw [firstAccept_append] at hfirst
    cases hbefore : firstAccept done q with
    | some f₁ =>
        rw [hbefore, Option.some_or, Option.some_inj] at hfirst
        subst hfirst
        have hlistening := (hdone.listening q f₁ hbefore hq).create hcreate
        exact hlistening.of_eq rfl rfl rfl
    | none =>
        rw [hbefore, Option.none_or, Option.ite_none_right_eq_some, Option.some_inj] at hfirst
        obtain ⟨⟨-, hprotocol⟩, rfl⟩ := hfirst
        subst hprotocol
        have hzero : ((sl.getD fun _ => {}) 0).portAt f.options.protocol = 0 :=
          hdone.free _ hbefore hq 0
        have hlistening := createProtocols_listening hany hq hcreate (by
          rw [hzero]
          exact Int32.lt_irrefl)
        exact (hlistening.mono hdone.listens).of_eq rfl rfl rfl
  · intro q hfirst hq i
    rw [firstAccept_append, Option.or_eq_none_iff] at hfirst
    obtain ⟨hbefore, hf⟩ := hfirst
    have hne : f.options.protocol ≠ q := by
      intro hsame
      simp [haccept, hsame] at hf
    exact (hframe.otherPort q hne i).trans (hdone.free q hbefore hq i)

theorem AcceptsDone.step (hany : listen.AnyPositive) {done : List Flowop} {f : Flowop}
    {st st' : Shm × Option SlaveInfos} (hdone : AcceptsDone listen g ssid start done st)
    (hstep : preprocessAccept listen g ssid st f = some st') :
    AcceptsDone listen g ssid start (done ++ [f]) st' := by
  by_cases haccept : f.type = .accept
  · simp only [preprocessAccept, if_pos haccept] at hstep
    obtain ⟨⟨shm', sl'⟩, hcreate, hst'⟩ := Option.bind_eq_some_iff.mp hstep
    cases hst'
    exact hdone.accept hany haccept hcreate
  · simp only [preprocessAccept, if_neg haccept] at hstep
    cases hstep
    have hfirst : ∀ q, firstAccept (done ++ [f]) q = firstAccept done q := by
      intro q
      rw [firstAccept_append]
      simp [haccept]
    have hnone : (∀ f' ∈ done ++ [f], f'.type ≠ .accept) ↔ ∀ f' ∈ done, f'.type ≠ .accept := by
      simp [haccept, or_imp, forall_and]
    exact ⟨hdone.worklist, hdone.bitswap, hdone.listens, hdone.outside, hdone.slaveList,
      hdone.none_iff.trans hnone.symm, hdone.tx, fun q f₀ h => hdone.listening q f₀ (hfirst q ▸ h),
      fun q h => hdone.free q (hfirst q ▸ h)⟩

/-- What the array and the strands hold after `preprocess_accepts`. -/
theorem preprocessAccepts_spec (hany : listen.AnyPositive) {st : Shm × Option SlaveInfos}
    (hrun : preprocessAccepts listen start g ssid = some st) :
    AcceptsDone listen g ssid start g.flowops st := by
  have hrest : ∀ (todo done : List Flowop) (mid : Shm × Option SlaveInfos),
      AcceptsDone listen g ssid start done mid →
      todo.foldlM (preprocessAccept listen g ssid) mid = some st →
      AcceptsDone listen g ssid start (done ++ todo) st := by
    intro todo
    induction todo with
    | nil =>
        intro done mid hmid hfold
        cases hfold
        simpa using hmid
    | cons f rest ih =>
        intro done mid hmid hfold
        rw [List.foldlM_cons] at hfold
        obtain ⟨mid', hstep, hfold⟩ := Option.bind_eq_some_iff.mp hfold
        simpa using ih (done ++ [f]) mid' (hmid.step hany hstep) hfold
  simpa using hrest g.flowops [] (start, none) AcceptsDone.nil hrun

end

/-- Every `listen` returns a positive port; nothing asks for a negative one. -/
def Listen.Succeeds (listen : Listen) : Prop :=
  ∀ n p options, 0 ≤ p.port → 0 < listen n p options

theorem Listen.Succeeds.anyPositive {listen : Listen} (h : listen.Succeeds) :
    listen.AnyPositive := by
  intro n p options hany
  refine h n p options ?_
  rw [hany]
  exact Int32.le_refl _

theorem Flowop.listenPort_nonneg (f : Flowop) : 0 ≤ f.listenPort := by
  have hport : f.options.port.toUInt16.toUInt32.toBitVec.toNat < 65536 := by
    simpa using f.options.port.toUInt16.toNat_lt
  have hint : f.listenPort.toInt = f.options.port.toUInt16.toUInt32.toBitVec.toInt := rfl
  rw [Int32.le_iff_toInt_le, hint, BitVec.toInt_eq_toNat_of_lt (by omega)]
  exact Int.natCast_nonneg _

/-- With positive ports from `listen` nothing fails. -/
theorem preprocessAccepts_isSome {listen : Listen} (hpos : listen.Succeeds) (shm : Shm)
    (g : Group) (ssid : ℕ) : ∃ st, preprocessAccepts listen shm g ssid = some st := by
  have hfail : ∀ n type host options,
      listen n (createProtocol type host anyPort) options ≠ uperfFailure := by
    intro n type host options heq
    have hlt := hpos.anyPositive n (createProtocol type host anyPort) options rfl
    rw [heq] at hlt
    exact absurd hlt (by decide)
  have hfixed : ∀ n type host (f : Flowop),
      ¬ listen n (createProtocol type host f.listenPort) f.options ≤ 0 := by
    intro n type host f
    exact Int32.not_le.mpr (hpos n _ f.options f.listenPort_nonneg)
  have hthreads : ∀ (f : Flowop) (items : List ℕ) (st : ListenState),
      ∃ st', items.foldlM (listenThread listen f ssid) st = some st' := by
    intro f items
    induction items with
    | nil => exact fun st => ⟨st, rfl⟩
    | cons i rest ih =>
        intro st
        simp only [List.foldlM_cons, listenThread, if_neg (hfail _ _ _ _)]
        exact ih _
  have hcreate : ∀ (nthr : ℕ) (f : Flowop) (st : ListenState),
      ∃ st', createProtocols listen nthr f ssid st = some st' := by
    intro nthr f st
    simp only [createProtocols]
    split
    · exact ⟨_, rfl⟩
    · split
      · exact ⟨_, if_neg (hfixed _ _ _ f)⟩
      · exact hthreads f _ _
  unfold preprocessAccepts
  generalize (shm, (none : Option SlaveInfos)) = st
  induction g.flowops generalizing st with
  | nil => exact ⟨st, rfl⟩
  | cons f rest ih =>
      have hstep : ∃ st', preprocessAccept listen g ssid st f = some st' := by
        simp only [preprocessAccept]
        split
        · obtain ⟨st', hst'⟩ := hcreate g.nthreads.toNat f (st.1, st.2.getD fun _ => {})
          exact ⟨_, by rw [hst']; rfl⟩
        · exact ⟨_, rfl⟩
      obtain ⟨st', hst'⟩ := hstep
      obtain ⟨st'', hrest⟩ := ih st'
      exact ⟨st'', by rw [List.foldlM_cons, hst']; exact hrest⟩

/-! ## Looking up a port -/

theorem strandGetPort_strandAddSlave (s : Strand) (si : SlaveInfo) (host : HostName)
    (q : UInt32) :
    strandGetPort (strandAddSlave s si) host q =
      if si.host.cstr = host.cstr then si.portAt q else strandGetPort s host q := by
  unfold strandGetPort strandAddSlave
  by_cases hhost : si.host.cstr = host.cstr
  · simp [hhost]
  · have hne : strcmpEq si.host host = false := by
      rw [← Bool.not_eq_true, strcmpEq_iff]
      exact hhost
    simp [hhost, hne]

section

variable (shm : Shm) (si : SlaveInfos) {host : HostName} (nthr ssid : ℕ)

theorem strandGetPort_update (hhost : host.Terminated) {j : ℕ} (hj : j < nthr) (h : HostName)
    (q : UInt32) :
    strandGetPort ((updateStrandWithSlaveInfo shm si host nthr ssid).strands (j + ssid)) h q =
      if host.cstr = h.cstr then (si j).portAt q
      else strandGetPort (shm.strands (j + ssid)) h q := by
  rw [updateStrandWithSlaveInfo, Shm.strands_forThreads _ _ _ _ hj, strandGetPort_strandAddSlave]
  simp only [cstr_strlcpy_cstr _ hhost]
  rfl

theorem strands_update_of_outside {i : ℕ} (hi : ¬ (ssid ≤ i ∧ i < ssid + nthr)) :
    (updateStrandWithSlaveInfo shm si host nthr ssid).strands i = shm.strands i :=
  shm.strands_forThreads_of_outside _ hi

theorem listenConnAt_update (i : ℕ) (q : UInt32) :
    ((updateStrandWithSlaveInfo shm si host nthr ssid).strands i).listenConnAt q =
      (shm.strands i).listenConnAt q := by
  simp only [updateStrandWithSlaveInfo, Shm.forThreads]
  split <;> rfl

end

end Uperf
