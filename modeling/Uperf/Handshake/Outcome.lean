import Uperf.Handshake.Phase2

/-!
# What phase 2 leaves on both sides

One call of `handshake_p2_with_slave` that succeeds, over kernels that make
progress: the slave has the master's group as decoded on its machine, and each
side has entered, for each thread, the ports that the other side listens on
(`handshakeP2WithSlave_outcome`).
-/

namespace Uperf

open Lib

/-! ## The header -/

theorem magic_ok : (strlcpy (CharArray.zero 32) uperfMagic).cstr = uperfMagic := by
  rw [cstr_strlcpy _ (ne_zero_of_all (by decide))]
  decide

theorem version_ok : (strlcpy (CharArray.zero 16) uperfDataVersion).cstr = uperfDataVersion := by
  rw [cstr_strlcpy _ (ne_zero_of_all (by decide))]
  decide

/-- The loop over the protocols passes over those that a header does not ask for. -/
theorem checkProtocols_of_unused (table : ProtocolTable)
    {protocol : Vector UInt32 numProtocols} (hunused : ∀ i, protocol.get i = 0) (status : Bool)
    (hsp1a : HsPhase1Ack) : checkProtocols table protocol status hsp1a = (status, hsp1a) := by
  unfold checkProtocols
  induction List.finRange numProtocols with
  | nil => rfl
  | cons i rest ih =>
      simp only [List.foldl_cons, hunused i, true_or, if_true]
      exact ih

/-- A header with the right magic and version that asks for no protocol passes. -/
theorem checkHeader_ok {table : ProtocolTable} {hsp1 : HsPhase1}
    (hmagic : hsp1.magic.cstr = uperfMagic) (hversion : hsp1.version.cstr = uperfDataVersion)
    (hprotocol : ∀ i, hsp1.protocol.get i = 0) : (checkHeader table hsp1 true).1 = true := by
  have hmagicEq : strncmpEq hsp1.magic uperfMagic (uperfMagic.length + 1) = true := by
    simp [strncmpEq, hmagic]
  have hversionEq : strncmpEq hsp1.version uperfDataVersion 16 = true := by
    simp [strncmpEq, hversion]
  simp only [checkHeader, hmagicEq, hversionEq, not_true_eq_false, if_false,
    checkProtocols_of_unused table hprotocol]

section

variable {m : MasterEnv} {s : SlaveEnv} {si : Option SlaveInfos} {g : Group}

/-- The header that the slave has after its byte swap. -/
theorem header_seen (e e' : Endian) (si : Option SlaveInfos) (g : Group) :
    (HsPhase1.codec.seen e e' (hsPhase2Header si g)).differs = decide (e ≠ e') ∧
      ∃ (protocol : Vector UInt32 numProtocols) (endian padding : UInt32),
        (∀ i, protocol.get i = 0) ∧
        (HsPhase1.codec.seen e e' (hsPhase2Header si g)).native =
          { hsPhase2Header si g with
            endian := endian, padding := padding, protocol := protocol } := by
  by_cases hne : e = e'
  · subst hne
    simp only [Codec.seen_same, HsPhase1.native]
    refine ⟨by simp [HsPhase1.differs, hsPhase2Header], (hsPhase2Header si g).protocol,
      uperfEndianValue, 0, fun i => ?_, ?_⟩
    · simp [hsPhase2Header, Vector.get]
    · simp [HsPhase1.differs, hsPhase2Header]
  · have hdiffers : bswap32 uperfEndianValue ≠ uperfEndianValue := by decide
    have hzero : bswap32 (0 : UInt32) = 0 := by decide
    simp only [Codec.seen_of_ne _ hne, HsPhase1.swap_codec, HsPhase1.native]
    refine ⟨by simp [HsPhase1.differs, hsPhase2Header, hdiffers, hne],
      (Vector.replicate numProtocols 0).map (bswap32 ∘ bswap32), bswap32 uperfEndianValue,
      bswap32 0, fun i => ?_, ?_⟩
    · simp [Vector.get, hzero]
    · simp [HsPhase1.differs, hsPhase2Header, hdiffers, HsPhase1.swapped]

/-- A valid header of phase 2 ends the loop. -/
theorem slaveHandshakeLoop_of_valid {bitswap : Bool} {r r' : Reader} {w : Writer}
    {hsp1 : HsPhase1} (hread : rxRecord s.rx HsPhase1.codec s.endian r = some (hsp1, r'))
    (hphase : hsp1.native.phase = handshakePhase2Code)
    (hvalid : (checkHeader s.table hsp1.native true).1 = true) :
    slaveHandshakeLoop s true bitswap r w =
      (some (hsp1.native, bitswap || hsp1.differs, r'), w) := by
  rw [slaveHandshakeLoop]
  split
  · rename_i hnone
    rw [hread] at hnone
    cases hnone
  · rename_i hsome
    rw [hread] at hsome
    cases hsome
    exact if_pos ⟨hphase, hvalid⟩

/-- The slave's `shm` after `slave_handshake`. -/
def shmReceived (m : MasterEnv) (s : SlaveEnv) (g : Group) (host : HostName)
    (si : Option SlaveInfos) : Shm where
  bitswap := decide (m.endian ≠ s.endian)
  rxNoSlaveInfo := (hsPhase2Header si g).noSlaveInfo
  worklist := (txCopy g host).decoded m.endian s.endian s.control

/-- What `slave_handshake` makes of the header and the work order. -/
theorem slaveHandshake_positive (hrx : s.rx.Positive) {g : Group} (hg : g.Counted)
    (hendian : g.endian = uperfEndianValue) (si : Option SlaveInfos) (host : HostName)
    (r : Reader) (w : Writer) {rest : List UInt8}
    (hstream : r.stream = HsPhase1.codec.put m.endian (hsPhase2Header si g) ++
      ((txCopy g host).image m.endian ++ rest)) :
    ∃ r', slaveHandshake s r w = (some (shmReceived m s g host si, r'), w) ∧
      r'.stream = rest := by
  obtain ⟨r', hread, hstream'⟩ :=
    rxRecord_put hrx HsPhase1.codec (by decide) m.endian s.endian _ hstream
  obtain ⟨hdiffers, protocol, endian, padding, hprotocol, hnative⟩ :=
    header_seen m.endian s.endian si g
  have hvalid : (checkHeader s.table (HsPhase1.codec.seen m.endian s.endian
      (hsPhase2Header si g)).native true).1 = true := by
    rw [hnative]
    exact checkHeader_ok magic_ok version_ok hprotocol
  have hloop : slaveHandshakeLoop s true false r w = _ :=
    slaveHandshakeLoop_of_valid hread (by rw [← Codec.seen, hnative]; rfl) hvalid
  have hmark : (txCopy g host).endian = uperfEndianValue := by simpa [txCopy_eq] using hendian
  obtain ⟨r'', hrx', hrest⟩ := rxGroupT_image hrx m.endian s.endian s.control (hg.txCopy host)
    (endian_seen_ne_iff _ _ hmark) r' rest hstream'
  refine ⟨r'', ?_, hrest⟩
  rw [← Codec.seen, hdiffers, hnative, Bool.false_or] at hloop
  simp only [slaveHandshake, hloop, Option.bind_eq_bind, Option.bind_some, hrx', shmReceived,
    Group.decoded, decide_eq_true_eq, ne_eq, ite_not]

end

/-! ## The arrays of ports -/

theorem rxSlaveInfos_image {k : Kernel} (hk : k.Positive) (e e' : Endian) (si : SlaveInfos)
    {no : UInt32} (hno : 0 < no.toNat) {r : Reader} {rest : List UInt8}
    (hstream : r.stream = slaveInfoImage e si no.toNat ++ rest) :
    ∃ info r', rxSlaveInfos k e' no r = some (info, r') ∧ r'.stream = rest ∧
      ∀ j < no.toNat, info j = SlaveInfo.codec.seen e e' (si j) := by
  have hlen := length_slaveInfoImage e si no.toNat
  have hsize : 0 < SlaveInfo.codec.size := by decide
  have hne : slaveInfoImage e si no.toNat ≠ [] :=
    List.ne_nil_of_length_pos (by rw [hlen]; exact Nat.mul_pos hno hsize)
  obtain ⟨r', hread, hrest⟩ := tryRead_positive hk hne hstream
  rw [hlen] at hread
  refine ⟨_, r', by rw [rxSlaveInfos, hread]; rfl, hrest, fun j hj => ?_⟩
  exact entry_slaveInfoImage e e' si hj

/-- Swapping the ports once more repairs them. -/
theorem SlaveInfo.portAt_seen_bswap {e e' : Endian} (hne : e ≠ e') (si : SlaveInfo)
    (q : UInt32) :
    ({ codec.seen e e' si with port := (codec.seen e e' si).port.map bswap32 } :
      SlaveInfo).portAt q = si.portAt q := by
  rw [Codec.seen_of_ne _ hne, SlaveInfo.swap_codec, portAt, portAt]
  simp [Function.comp_def]

/-- The sender has swapped the positive ports. -/
theorem SlaveInfo.portAt_seen_swapPositive {e e' : Endian} (hne : e ≠ e') (si : SlaveInfo)
    {q : UInt32} (hpos : 0 < si.portAt q) :
    (codec.seen e e' si.swapPositive).portAt q = si.portAt q := by
  rw [portAt] at hpos
  rw [Codec.seen_of_ne _ hne, SlaveInfo.swap_codec, portAt, portAt, swapPositive]
  cases hentry : si.port[q.toNat]? with
  | none =>
      rw [hentry] at hpos
      exact absurd hpos Int32.lt_irrefl
  | some port =>
      rw [hentry, Option.getD_some] at hpos
      simp [hentry, hpos]

section

variable {m : MasterEnv} {s : SlaveEnv}

theorem slaveHandshakeP2Complete_positive (hrx : s.rx.Positive) (si : SlaveInfos) {shm : Shm}
    (hbitswap : shm.bitswap = decide (m.endian ≠ s.endian)) (hno : 0 < shm.rxNoSlaveInfo.toNat)
    {r : Reader} {rest : List UInt8}
    (hstream : r.stream = slaveInfoImage m.endian si shm.rxNoSlaveInfo.toNat ++ rest) :
    ∃ info r', slaveHandshakeP2Complete s shm r =
        some (updateStrandWithSlaveInfo shm info s.control.host shm.worklist.nthreads.toNat 0,
          r') ∧
      ∀ j < shm.rxNoSlaveInfo.toNat, ∀ q, (info j).portAt q = (si j).portAt q := by
  obtain ⟨info, r', hread, -, hinfo⟩ :=
    rxSlaveInfos_image hrx m.endian s.endian si hno hstream
  refine ⟨_, r', by rw [slaveHandshakeP2Complete, hread]; rfl, fun j hj q => ?_⟩
  rw [hinfo j hj, hbitswap]
  by_cases hne : m.endian = s.endian
  · simp [hne]
  · simp only [hj, hne, ne_eq, not_false_eq_true, decide_true, and_self, if_true]
    exact SlaveInfo.portAt_seen_bswap hne (si j) q

theorem slaveHandshakeP2Success_positive (htx : s.tx.Positive) (sl : SlaveInfos) (no : UInt32)
    (bitswap : Bool) (w : Writer) : ∃ w',
    slaveHandshakeP2Success s sl no bitswap w = (true, w') ∧
      w'.sent = w.sent ++ (HsPhase2Ack.codec.put s.endian (ackOf s bitswap no) ++
        slaveInfoImage s.endian (swappedFor bitswap no sl) no.toNat) := by
  obtain ⟨w', hack, hsent⟩ := ensureWrite_positive htx
    (HsPhase2Ack.codec.put s.endian (ackOf s bitswap no)) w
  have hpos : ¬ ((HsPhase2Ack.codec.put s.endian (ackOf s bitswap no)).length : ℤ) ≤ 0 := by
    rw [HsPhase2Ack.codec.length_put]
    decide
  by_cases hno : no = 0
  · refine ⟨w', ?_, by simp [hsent, hno, slaveInfoImage]⟩
    simp only [slaveHandshakeP2Success, hack, if_neg hpos, if_pos hno]
  · obtain ⟨w'', hports, hsent'⟩ := ensureWrite_positive htx
      (slaveInfoImage s.endian (swappedFor bitswap no sl) no.toNat) w'
    refine ⟨w'', ?_, by rw [hsent', hsent, List.append_assoc]⟩
    have hlen := length_slaveInfoImage s.endian (swappedFor bitswap no sl) no.toNat
    have hnopos : 0 < no.toNat := Nat.pos_of_ne_zero (mt (UInt32.toNat_inj (b := 0)).mp hno)
    have hsize : 0 < SlaveInfo.codec.size := by decide
    have hlenpos : 0 < (slaveInfoImage s.endian (swappedFor bitswap no sl) no.toNat).length := by
      rw [hlen]
      exact Nat.mul_pos hnopos hsize
    simp only [slaveHandshakeP2Success, hack, if_neg hpos, if_neg hno, hports]
    simpa using hlenpos

/-- What the master makes of the answer of a slave whose `preprocess_accepts`
left `sl`. -/
theorem rxPhase2_positive (hrx : s.masterRx.Positive) (sl : SlaveInfos) (no : UInt32) (shm : Shm)
    (host : HostName) (g : Group) (ssid : ℕ) (r : Reader)
    (hstream : r.stream =
      HsPhase2Ack.codec.put s.endian (ackOf s (decide (m.endian ≠ s.endian)) no) ++
        slaveInfoImage s.endian (swappedFor (decide (m.endian ≠ s.endian)) no sl) no.toNat) :
    (no = 0 ∧ rxPhase2 s.masterRx m.endian shm host g ssid r = some shm) ∨
      ∃ info, rxPhase2 s.masterRx m.endian shm host g ssid r =
          some (updateStrandWithSlaveInfo shm info host g.nthreads.toNat ssid) ∧
        ∀ j < no.toNat, ∀ q, 0 < (sl j).portAt q → (info j).portAt q = (sl j).portAt q := by
  obtain ⟨r', hack, hstream'⟩ :=
    rxRecord_put hrx HsPhase2Ack.codec (by decide) s.endian m.endian _ hstream
  rw [← Codec.seen] at hack
  have hstatus : (HsPhase2Ack.codec.seen s.endian m.endian
      (ackOf s (decide (m.endian ≠ s.endian)) no)).p1a.status.cstr = uperfOk := by
    have hok : (strlcpy s.stack.p1a.status uperfOk).cstr = uperfOk := by
      rw [cstr_strlcpy _ (ne_zero_of_all (by decide))]
      decide
    by_cases hne : s.endian = m.endian
    · rw [hne, Codec.seen_same]
      exact hok
    · rw [Codec.seen_of_ne _ hne, HsPhase2Ack.swap_codec]
      exact hok
  have hcount : (HsPhase2Ack.codec.seen s.endian m.endian
      (ackOf s (decide (m.endian ≠ s.endian)) no)).noSlaveInfo = no := by
    by_cases hne : s.endian = m.endian
    · simp [hne, ackOf]
    · simp [Codec.seen_of_ne _ hne, HsPhase2Ack.swap_codec, ackOf, Ne.symm hne]
  by_cases hno : no = 0
  · have hgt : ¬ no > 0 := by simp [hno]
    refine .inl ⟨hno, ?_⟩
    simp only [rxPhase2, hack, Option.bind_eq_bind, Option.bind_some, hstatus, hcount, ne_eq,
      not_true_eq_false, if_false, if_neg hgt]
  · have hnopos : 0 < no.toNat := Nat.pos_of_ne_zero (mt (UInt32.toNat_inj (b := 0)).mp hno)
    rw [← List.append_nil (slaveInfoImage _ _ _)] at hstream'
    obtain ⟨info, r'', hread, -, hinfo⟩ := rxSlaveInfos_image hrx s.endian m.endian
      (swappedFor (decide (m.endian ≠ s.endian)) no sl) hnopos hstream'
    refine .inr ⟨info, ?_, fun j hj q hpos => ?_⟩
    · have hgt : no > 0 := UInt32.lt_iff_toNat_lt.mpr hnopos
      simp only [rxPhase2, hack, Option.bind_eq_bind, Option.bind_some, hstatus, hcount, ne_eq,
        not_true_eq_false, if_false, if_pos hgt, hread]
    · rw [hinfo j hj, swappedFor]
      by_cases hne : s.endian = m.endian
      · simp [hne]
      · simp only [hj, Ne.symm hne, ne_eq, not_false_eq_true, decide_true, and_self, if_true]
        exact SlaveInfo.portAt_seen_swapPositive hne (sl j) hpos

end

/-! ## One slave -/

/-- What the master writes after the work order. -/
def portsImage (e : Endian) (si : Option SlaveInfos) (g : Group) : List UInt8 :=
  match si with
  | some si => slaveInfoImage e si g.nthreads.toNat
  | none => []

/-- What a slave has when it comes to its own accept flowops: the master's
group and, if the master sent ports, one entry for it in every strand. -/
structure SlaveReady (m : MasterEnv) (s : SlaveEnv) (g : Group) (host : HostName)
    (si : Option SlaveInfos) (shm : Shm) : Prop where
  worklist : shm.worklist = (txCopy g host).decoded m.endian s.endian s.control
  bitswap : shm.bitswap = decide (m.endian ≠ s.endian)
  tx : shm.txNoSlaveInfo = 0
  ports : ∀ sent, si = some sent → ∀ j < g.nthreads.toNat, ∀ h q,
    strandGetPort (shm.strands j) h q =
      if s.control.host.cstr = h.cstr then (sent j).portAt q else -1

section

variable {m : MasterEnv} {s : SlaveEnv} {g : Group} {host : HostName}

theorem nthreads_txCopy_decoded (g : Group) (host : HostName) (e e' : Endian) (p : Protocol) :
    ((txCopy g host).decoded e e' p).nthreads = g.nthreads := by
  rw [Group.nthreads_decoded, txCopy_eq]

theorem ntxn_txCopy_decoded (g : Group) (host : HostName) (e e' : Endian) (p : Protocol) :
    ((txCopy g host).decoded e e' p).ntxn = g.ntxn := by
  rw [Group.ntxn_decoded, txCopy_eq]

/-- The slave up to `slave_handshake_p2_complete`. -/
theorem slaveReady_of_stream (hrx : s.rx.Positive) (hcontrol : s.control.host.Terminated)
    (hg : g.Counted) (hendian : g.endian = uperfEndianValue) {si : Option SlaveInfos}
    (hsi : si.isSome → 0 < g.nthreads.toNat) {stream : List UInt8}
    (hstream : stream = HsPhase1.codec.put m.endian (hsPhase2Header si g) ++
      ((txCopy g host).image m.endian ++ portsImage m.endian si g)) :
    ∃ shm₁ r₁ shm₀ r₀, slaveHandshake s ⟨0, stream⟩ {} = (some (shm₁, r₁), {}) ∧
      (if shm₁.rxNoSlaveInfo > 0 then slaveHandshakeP2Complete s shm₁ r₁ else some (shm₁, r₁)) =
        some (shm₀, r₀) ∧
      SlaveReady m s g host si shm₀ := by
  obtain ⟨r, hhandshake, hrest⟩ :=
    slaveHandshake_positive (m := m) hrx hg hendian si host ⟨0, stream⟩ {} hstream
  cases si with
  | none =>
      refine ⟨_, r, shmReceived m s g host none, r, hhandshake, ?_, rfl, rfl, rfl, by simp⟩
      exact if_neg (by simp [shmReceived, hsPhase2Header])
  | some sent =>
      have hpos : 0 < g.nthreads.toNat := hsi rfl
      have hno : (shmReceived m s g host (some sent)).rxNoSlaveInfo = g.nthreads := rfl
      rw [portsImage, ← List.append_nil (slaveInfoImage _ _ _)] at hrest
      obtain ⟨info, r', hcomplete, hinfo⟩ := slaveHandshakeP2Complete_positive hrx sent
        (rfl : (shmReceived m s g host (some sent)).bitswap = _) hpos hrest
      have hgt : (shmReceived m s g host (some sent)).rxNoSlaveInfo > 0 :=
        UInt32.lt_iff_toNat_lt.mpr hpos
      refine ⟨_, r, _, r', hhandshake, (if_pos hgt).trans hcomplete, rfl, rfl, rfl, ?_⟩
      intro sent' hsent j hj h q
      cases hsent
      have hthreads : (shmReceived m s g host (some sent)).worklist.nthreads = g.nthreads :=
        nthreads_txCopy_decoded g host _ _ _
      rw [hthreads]
      have hget := strandGetPort_update (shmReceived m s g host (some sent)) info
        g.nthreads.toNat 0 hcontrol hj h q
      rwa [hinfo j hj q] at hget

/-- The rest of the slave's phase 2. -/
theorem slaveMaster_of_ready (htx : s.tx.Positive) (hany : s.listen.AnyPositive)
    {stream : List UInt8} {shm₁ shm₀ : Shm} {r₁ r₀ : Reader} {si : Option SlaveInfos}
    (hhandshake : slaveHandshake s ⟨0, stream⟩ {} = (some (shm₁, r₁), {}))
    (hcomplete : (if shm₁.rxNoSlaveInfo > 0 then slaveHandshakeP2Complete s shm₁ r₁
      else some (shm₁, r₁)) = some (shm₀, r₀))
    (hready : SlaveReady m s g host si shm₀) :
    (preprocessAccepts s.listen shm₀ shm₀.worklist 0 = none ∧ (slaveMaster s stream).1 = none) ∨
    ∃ shm sl, preprocessAccepts s.listen shm₀ shm₀.worklist 0 = some (shm, sl) ∧
      slaveMaster s stream =
        if g.ntxn.toNat > numBarrier then (none, [])
        else
          (some shm,
            HsPhase2Ack.codec.put s.endian
                (ackOf s (decide (m.endian ≠ s.endian)) shm.txNoSlaveInfo) ++
              slaveInfoImage s.endian
                (swappedFor (decide (m.endian ≠ s.endian)) shm.txNoSlaveInfo
                  (sl.getD fun _ => {})) shm.txNoSlaveInfo.toNat) := by
  cases haccepts : preprocessAccepts s.listen shm₀ shm₀.worklist 0 with
  | none =>
      refine .inl ⟨rfl, ?_⟩
      simp only [slaveMaster, hhandshake, hcomplete, haccepts]
  | some st =>
      obtain ⟨shm, sl⟩ := st
      have hdone := preprocessAccepts_spec hany haccepts
      have hworklist : shm.worklist = shm₀.worklist := hdone.worklist
      have hbitswap : shm.bitswap = decide (m.endian ≠ s.endian) :=
        hdone.bitswap.trans hready.bitswap
      have hntxn : shm.worklist.ntxn = g.ntxn := by
        rw [hworklist, hready.worklist, ntxn_txCopy_decoded]
      obtain ⟨w, hsuccess, hsent⟩ := slaveHandshakeP2Success_positive htx (sl.getD fun _ => {})
        shm.txNoSlaveInfo (decide (m.endian ≠ s.endian)) {}
      refine .inr ⟨shm, sl, rfl, ?_⟩
      simp only [slaveMaster, hhandshake, hcomplete, haccepts, hntxn, hbitswap, hsuccess, hsent,
        List.nil_append, if_true]

/-- What `handshake_p2_with_slave` has written when it gets to reading. -/
theorem txPhase2_positive {k : Kernel} (hk : k.Positive) {e : Endian} {si : Option SlaveInfos}
    {w : Writer} (htx : txPhase2 k e si g host {} = some w) :
    (si.isSome → 0 < g.nthreads.toNat) ∧
      w.sent = HsPhase1.codec.put e (hsPhase2Header si g) ++
        ((txCopy g host).image e ++ portsImage e si g) := by
  obtain ⟨w₁, hheader, hsent₁⟩ :=
    tryWrite_put hk e HsPhase1.codec (by decide) (hsPhase2Header si g) {}
  obtain ⟨w₂, hgroup, hsent₂⟩ := txGroupT_positive hk e g host w₁
  simp only [txPhase2, hheader, hgroup, Option.bind_eq_bind, Option.bind_some] at htx
  cases si with
  | none =>
      cases htx
      exact ⟨by simp, by simp [hsent₂, hsent₁, portsImage]⟩
  | some sent =>
      replace htx : tryWrite k (slaveInfoImage e sent g.nthreads.toNat) w₂ = some w := htx
      have hpos : 0 < g.nthreads.toNat := by
        refine Nat.pos_of_ne_zero fun hzero => ?_
        simp [hzero, slaveInfoImage, tryWrite, ensureWrite, ensureWriteLoop] at htx
      have hlen := length_slaveInfoImage e sent g.nthreads.toNat
      have hne : slaveInfoImage e sent g.nthreads.toNat ≠ [] :=
        List.ne_nil_of_length_pos (by rw [hlen]; exact Nat.mul_pos hpos (by decide))
      obtain ⟨w₃, hports, hsent₃⟩ := tryWrite_positive hk hne w₂
      rw [hports] at htx
      cases htx
      exact ⟨fun _ => hpos, by simp [hsent₃, hsent₂, hsent₁, portsImage]⟩

/-- The kernels of both ends make progress. -/
structure SlaveEnv.Positive (s : SlaveEnv) : Prop where
  rx : s.rx.Positive
  tx : s.tx.Positive
  masterRx : s.masterRx.Positive
  masterTx : s.masterTx.Positive

/-- One successful `handshake_p2_with_slave`: the master has preprocessed its
own accepts, the slave has got ready and preprocessed its accepts, and the
master has entered the slave's ports if there are any.  A slave whose own
accepts fail has told the master so and is gone. -/
theorem handshakeP2WithSlave_outcome (hs : s.Positive) (hcontrol : s.control.host.Terminated)
    (hany : s.listen.AnyPositive) (hg : g.Counted) (hendian : g.endian = uperfEndianValue)
    {shm shm' : Shm} {slave : Option Shm} {ssid : ℕ}
    (hrun : handshakeP2WithSlave m s shm host g ssid = some (shm', slave)) :
    ∃ shm₁ si shm₀,
      preprocessAccepts m.listen shm g ssid = some (shm₁, si) ∧
      SlaveReady m s g host si shm₀ ∧
      ((slave = none ∧ preprocessAccepts s.listen shm₀ shm₀.worklist 0 = none) ∨
        ∃ sshm sl, slave = some sshm ∧
          preprocessAccepts s.listen shm₀ shm₀.worklist 0 = some (sshm, sl) ∧
          (sshm.txNoSlaveInfo = 0 ∧ shm' = shm₁ ∨
            ∃ info, shm' = updateStrandWithSlaveInfo shm₁ info host g.nthreads.toNat ssid ∧
              ∀ j < sshm.txNoSlaveInfo.toNat, ∀ q, 0 < ((sl.getD fun _ => {}) j).portAt q →
                (info j).portAt q = ((sl.getD fun _ => {}) j).portAt q)) := by
  obtain ⟨⟨shm₁, si⟩, haccepts, hrun⟩ := Option.bind_eq_some_iff.mp hrun
  obtain ⟨w, htx, hrun⟩ := Option.bind_eq_some_iff.mp hrun
  obtain ⟨hsi, hsent⟩ := txPhase2_positive hs.masterTx htx
  obtain ⟨shmr, r₁, shm₀, r₀, hhandshake, hcomplete, hready⟩ :=
    slaveReady_of_stream hs.rx hcontrol hg hendian hsi hsent
  refine ⟨shm₁, si, shm₀, haccepts, hready, ?_⟩
  rcases slaveMaster_of_ready hs.tx hany hhandshake hcomplete hready with
    ⟨hfail, hgone⟩ | ⟨sshm, sl, hslave, hmaster⟩
  · obtain ⟨shm₂, -, hrun⟩ := Option.bind_eq_some_iff.mp hrun
    cases hrun
    exact .inl ⟨hgone, hfail⟩
  · by_cases hntxn : g.ntxn.toNat > numBarrier
    · -- a slave that gives up leaves the master without an answer
      simp only [hmaster, if_pos hntxn, rxPhase2, rxRecord_nil, Option.bind_eq_bind,
        Option.bind_none] at hrun
      cases hrun
    · simp only [hmaster, if_neg hntxn] at hrun
      obtain ⟨shm₂, hrx, hrun⟩ := Option.bind_eq_some_iff.mp hrun
      cases hrun
      refine .inr ⟨sshm, sl, rfl, hslave, ?_⟩
      rcases rxPhase2_positive (m := m) (s := s) hs.masterRx (sl.getD fun _ => {})
        sshm.txNoSlaveInfo shm₁ host g ssid ⟨0, _⟩ rfl with ⟨hno, hrx'⟩ | ⟨info, hrx', hinfo⟩
      · rw [hrx] at hrx'
        exact .inl ⟨hno, Option.some_inj.mp hrx'⟩
      · rw [hrx] at hrx'
        exact .inr ⟨info, Option.some_inj.mp hrx', hinfo⟩

/-! ## What a handshake with one slave leaves alone -/

/-- The strands of other groups, and the ports of other hosts. -/
structure P2Frame (host : HostName) (ssid nthr : ℕ) (shm shm' : Shm) : Prop where
  listens : shm.listens ≤ shm'.listens
  outside : ∀ i, ¬ (ssid ≤ i ∧ i < ssid + nthr) → shm'.strands i = shm.strands i
  getPort : ∀ j < nthr, ∀ h : HostName, h.cstr ≠ host.cstr → ∀ q,
    strandGetPort (shm'.strands (j + ssid)) h q = strandGetPort (shm.strands (j + ssid)) h q

theorem strandGetPort_congr {s s' : Strand} (hlist : s'.slaveList = s.slaveList) (h : HostName)
    (q : UInt32) : strandGetPort s' h q = strandGetPort s h q := by
  rw [strandGetPort, strandGetPort, hlist]

theorem strandGetPort_congr_host (s : Strand) {h h' : HostName} (hhost : h.cstr = h'.cstr)
    (q : UInt32) : strandGetPort s h q = strandGetPort s h' q := by
  simp only [strandGetPort, strcmpEq, hhost]

theorem rxPhase2_eq_some {k : Kernel} {e : Endian} {shm shm' : Shm} {ssid : ℕ} {r : Reader}
    (hrx : rxPhase2 k e shm host g ssid r = some shm') :
    shm' = shm ∨
      ∃ info, shm' = updateStrandWithSlaveInfo shm info host g.nthreads.toNat ssid := by
  obtain ⟨⟨ack, r'⟩, -, hrx⟩ := Option.bind_eq_some_iff.mp hrx
  simp only at hrx
  split at hrx
  · cases hrx
  · split at hrx
    · obtain ⟨⟨info, r''⟩, -, hinfo⟩ := Option.bind_eq_some_iff.mp hrx
      cases hinfo
      exact .inr ⟨info, rfl⟩
    · cases hrx
      exact .inl rfl

theorem handshakeP2WithSlave_frame (hany : m.listen.AnyPositive) (hhost : host.Terminated)
    {shm shm' : Shm} {slave : Option Shm} {ssid : ℕ}
    (hrun : handshakeP2WithSlave m s shm host g ssid = some (shm', slave)) :
    P2Frame host ssid g.nthreads.toNat shm shm' := by
  obtain ⟨⟨shm₁, si⟩, haccepts, hrun⟩ := Option.bind_eq_some_iff.mp hrun
  obtain ⟨w, -, hrun⟩ := Option.bind_eq_some_iff.mp hrun
  obtain ⟨shm₂, hrx, hrun⟩ := Option.bind_eq_some_iff.mp hrun
  cases hrun
  have hdone := preprocessAccepts_spec hany haccepts
  rcases rxPhase2_eq_some hrx with rfl | ⟨info, rfl⟩
  · exact ⟨hdone.listens, hdone.outside, fun j hj h hne q =>
      strandGetPort_congr (hdone.slaveList _) h q⟩
  · refine ⟨hdone.listens, fun i hi => ?_, fun j hj h hne q => ?_⟩
    · rw [strands_update_of_outside _ _ _ _ hi]
      exact hdone.outside i hi
    · rw [strandGetPort_update _ _ _ _ hhost hj, if_neg (Ne.symm hne)]
      exact strandGetPort_congr (hdone.slaveList _) h q

end

end Uperf
