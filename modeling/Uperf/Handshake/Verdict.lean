import Uperf.Handshake.Headers
import Uperf.Handshake.Success
import Uperf.Lib.Transition

/-!
# The verdict of phase 2

The slave ends phase 2 with `slave_handshake_p2_success` or, when it runs out of
some resource, with `slave_handshake_p2_failure`; the master reads one record and
compares its `status` with `OK`.  The failure record is a local variable of which
only the message is set: what the master finds in `status` is what the slave's
stack held there, and if that is `OK` the master goes on as after a success.
-/

namespace Uperf

open Lib

/-! ## Calls that may fail -/

section

variable {k : Kernel}

/-- A loop of writes only adds to the stream. -/
theorem extends_foldlM {β : Type} {tx : Writer → β → Option Writer}
    (htx : ∀ w item w', tx w item = some w' → w.Extends w') {items : List β} {w w' : Writer}
    (hrun : items.foldlM tx w = some w') : w.Extends w' := by
  have hstep : ∀ st item st', w.Extends st → tx st item = some st' → w.Extends st' :=
    fun st item st' hst hitem => hst.trans (htx st item st' hitem)
  exact run_invariant hstep ⟨[], by simp⟩ hrun

variable {e : Endian}

theorem extends_txTxn {txn : Txn} {w w' : Writer} (htx : txTxn k e w txn = some w') :
    w.Extends w' := by
  obtain ⟨w₁, hhead, hrest⟩ := Option.bind_eq_some_iff.mp htx
  exact (extends_tryWrite hhead).trans (extends_foldlM (fun _ _ _ => extends_tryWrite) hrest)

theorem extends_txGroupT {g : Group} {host : HostName} {w w' : Writer}
    (htx : txGroupT k e g host w = some w') : w.Extends w' := by
  obtain ⟨w₁, hhead, hrest⟩ := Option.bind_eq_some_iff.mp htx
  exact (extends_tryWrite hhead).trans (extends_foldlM (fun _ _ _ => extends_txTxn) hrest)

/-- If the master gets to the answer, the slave's stream starts with its header. -/
theorem sent_txPhase2 {si : Option SlaveInfos} {g : Group} {host : HostName} {w : Writer}
    (htx : txPhase2 k e si g host {} = some w) :
    ∃ rest, w.sent = HsPhase1.codec.put e (hsPhase2Header si g) ++ rest := by
  obtain ⟨w₁, hheader, htx⟩ := Option.bind_eq_some_iff.mp htx
  obtain ⟨w₂, hgroup, htx⟩ := Option.bind_eq_some_iff.mp htx
  have hlast : w₂.Extends w := by
    cases si with
    | none =>
        cases htx
        exact ⟨[], by simp⟩
    | some sent => exact extends_tryWrite htx
  obtain ⟨more, hmore⟩ := (extends_txGroupT hgroup).trans hlast
  exact ⟨more, by rw [hmore, tryWrite_eq_some hheader, List.nil_append]⟩

end

/-! ## The two sides -/

/-- What `slave_master` has told the master when phase 2 is over: nothing, or what
one of the two functions sends. -/
inductive SlaveReport where
  | silent
  | failure (message : List UInt8)
  | success

/-- What the slave may run out of before its verdict: the `calloc` of the `shm` in
`slave_init`, the `malloc` of `slave_handshake_p2_complete`, the `calloc` of
`preprocess_accepts` and the `pthread_create` for each of its threads. -/
structure Resources where
  shm : Bool
  received : Bool
  ports : Bool
  thread : ℕ → Bool

/-- A slave that runs out of nothing. -/
@[simps]
def Resources.ample : Resources where
  shm := true
  received := true
  ports := true
  thread := fun _ => true

/-- The loop of `slave_spawn_strands`: every thread is created. -/
def Resources.threads (res : Resources) (nthreads : UInt32) : Bool :=
  (List.range nthreads.toNat).all res.thread

@[simp] theorem Resources.threads_ample (nthreads : UInt32) :
    Resources.ample.threads nthreads = true :=
  List.all_eq_true.mpr fun _ _ => rfl

/-- A call of `slave_handshake_p2_failure` after which the slave gives up. -/
def slaveFails (s : SlaveEnv) (message : List UInt8) (w : Writer) :
    SlaveReport × Option Shm × List UInt8 :=
  (.failure message, none, (slaveHandshakeP2Failure s message w).sent)

/-- `slave_master` up to the end of phase 2, with `slave_init`: what the slave
reports, its `shm` and what it has written. -/
def slaveMasterReport (s : SlaveEnv) (res : Resources) (stream : List UInt8) :
    SlaveReport × Option Shm × List UInt8 :=
  match slaveHandshake s ⟨0, stream⟩ {} with
  | (none, w) => (.silent, none, w.sent)
  | (some (shm, r), w) =>
      if res.shm = false then slaveFails s (str "Out of Memory") w
      else
        match if shm.rxNoSlaveInfo > 0 then
            if res.received then slaveHandshakeP2Complete s shm r else none
          else some (shm, r) with
        | none => slaveFails s (str "error in strand_init_all") w
        | some (shm, _) =>
            match if shm.worklist.flowops.any (·.type = .accept) && !res.ports then none
              else preprocessAccepts s.listen shm shm.worklist 0 with
            | none => slaveFails s (str "Error creating ports: " ++ s.strerror) w
            | some (shm, sl) =>
                if shm.worklist.ntxn.toNat > numBarrier then (.silent, none, w.sent)
                else if res.threads shm.worklist.nthreads = false then
                  slaveFails s (str "Error creating threads") w
                else
                  let (done, w) :=
                    slaveHandshakeP2Success s (sl.getD fun _ => {}) shm.txNoSlaveInfo
                      shm.bitswap w
                  (.success, if done then some shm else none, w.sent)

/-- What `handshake_p2_with_slave` does after it has asked for the answer. -/
inductive AckBranch where
  | noAnswer
  | failure
  | success
  | slaveInfo
deriving DecidableEq

/-- The branch of `handshake_p2_with_slave` for the answer on the stream. -/
def ackBranch (k : Kernel) (e : Endian) (r : Reader) : AckBranch :=
  match rxRecord k HsPhase2Ack.codec e r with
  | none => .noAnswer
  | some (hsp2a, _) =>
      if hsp2a.p1a.status.cstr ≠ uperfOk then .failure
      else if hsp2a.noSlaveInfo > 0 then .slaveInfo
      else .success

/-- One phase 2 seen from both sides. -/
structure P2Run where
  report : SlaveReport
  branch : AckBranch
  result : Option (Shm × Option Shm)

/-- `handshake_p2_with_slave` and the slave at the other end, if the master gets to
the answer of the slave. -/
def p2Run (m : MasterEnv) (s : SlaveEnv) (res : Resources) (shm : Shm) (host : HostName)
    (g : Group) (ssid : ℕ) : Option P2Run := do
  let (shm, si) ← preprocessAccepts m.listen shm g ssid
  let w ← txPhase2 s.masterTx m.endian si g host {}
  let (report, slave, reply) := slaveMasterReport s res w.sent
  some {
    report := report
    branch := ackBranch s.masterRx m.endian ⟨0, reply⟩
    result :=
      (rxPhase2 s.masterRx m.endian shm host g ssid ⟨0, reply⟩).map fun shm => (shm, slave) }

section

variable {m : MasterEnv} {s : SlaveEnv} {shm : Shm} {host : HostName} {g : Group} {ssid : ℕ}

theorem slaveMasterReport_ample (stream : List UInt8) :
    (slaveMasterReport s .ample stream).2 = slaveMaster s stream := by
  unfold slaveMasterReport slaveMaster
  rcases slaveHandshake s ⟨0, stream⟩ {} with ⟨_ | ⟨shm, r⟩, w⟩
  · rfl
  · simp only [Resources.ample_shm, Resources.ample_received, Resources.ample_ports,
      Bool.true_eq_false, Bool.false_eq_true, if_false, if_true, Bool.not_true, Bool.and_false]
    rcases (if shm.rxNoSlaveInfo > 0 then slaveHandshakeP2Complete s shm r
      else some (shm, r)) with _ | ⟨shm₀, r₀⟩
    · rfl
    · dsimp only
      rcases preprocessAccepts s.listen shm₀ shm₀.worklist 0 with _ | ⟨shm₁, sl⟩
      · rfl
      · simp only [Resources.threads_ample, Bool.true_eq_false, if_false]
        split <;> rfl

/-- If the slave runs out of nothing this is the phase 2 of the other modules. -/
theorem handshakeP2WithSlave_eq_p2Run :
    handshakeP2WithSlave m s shm host g ssid =
      (p2Run m s .ample shm host g ssid).bind P2Run.result := by
  unfold handshakeP2WithSlave p2Run
  cases preprocessAccepts m.listen shm g ssid with
  | none => rfl
  | some accepted =>
      cases htx : txPhase2 s.masterTx m.endian accepted.2 g host {} with
      | none => simp [htx]
      | some w =>
          simp only [Option.bind_eq_bind, Option.bind_some, htx, ← slaveMasterReport_ample]
          cases rxPhase2 s.masterRx m.endian accepted.1 host g ssid
            ⟨0, (slaveMasterReport s .ample w.sent).2.2⟩ <;> rfl

/-! ## What the slave sends -/

/-- Before its verdict the slave writes nothing. -/
theorem slaveHandshake_writer {si : Option SlaveInfos} {stream rest : List UInt8}
    (hstream : stream = HsPhase1.codec.put m.endian (hsPhase2Header si g) ++ rest) :
    (slaveHandshake s ⟨0, stream⟩ {}).2 = {} := by
  have hloop : (slaveHandshakeLoop s true false ⟨0, stream⟩ {}).2 = {} := by
    cases hread : rxRecord s.rx HsPhase1.codec s.endian ⟨0, stream⟩ with
    | none =>
        rw [slaveHandshakeLoop]
        split
        · rfl
        · rename_i hsome
          rw [hread] at hsome
          cases hsome
    | some result =>
        have hseen := rxRecord_put_eq_some hstream hread
        obtain ⟨-, protocol, endian, padding, hprotocol, hnative⟩ :=
          header_seen m.endian s.endian si g
        rw [← hseen] at hnative
        have hvalid : (checkHeader s.table result.1.native true).1 = true := by
          rw [hnative]
          exact checkHeader_ok magic_ok version_ok hprotocol
        rw [slaveHandshakeLoop_of_valid hread (by rw [hnative]; rfl) hvalid]
  unfold slaveHandshake
  exact hloop

/-- The three ways in which phase 2 ends for the slave. -/
theorem slaveMasterReport_cases (res : Resources) {si : Option SlaveInfos}
    {stream rest : List UInt8}
    (hstream : stream = HsPhase1.codec.put m.endian (hsPhase2Header si g) ++ rest) :
    slaveMasterReport s res stream = (.silent, none, []) ∨
      (∃ message, slaveMasterReport s res stream = slaveFails s message {}) ∨
      ∃ slave reply, slaveMasterReport s res stream = (.success, slave, reply) := by
  have hwriter := slaveHandshake_writer (m := m) (s := s) hstream
  unfold slaveMasterReport
  split
  · rename_i hhandshake
    rw [hhandshake] at hwriter
    subst hwriter
    -- the header is not read whole
    exact .inl rfl
  · rename_i hhandshake
    rw [hhandshake] at hwriter
    subst hwriter
    split
    · exact .inr (.inl ⟨_, rfl⟩)
    · split
      · exact .inr (.inl ⟨_, rfl⟩)
      · split
        · exact .inr (.inl ⟨_, rfl⟩)
        · split
          · exact .inl rfl
          · split
            · exact .inr (.inl ⟨_, rfl⟩)
            · exact .inr (.inr ⟨_, _, rfl⟩)

/-! ## What the master makes of it -/

/-- The record of `slave_handshake_p2_failure`, on the stack of the slave. -/
def failureAck (s : SlaveEnv) (message : List UInt8) : HsPhase2Ack :=
  { s.stack with p1a := { s.stack.p1a with message := strlcpy s.stack.p1a.message message } }

/-- The failure record gets through: the calls on both ends deliver all of it. -/
def FailureArrives (m : MasterEnv) (s : SlaveEnv) (message : List UInt8) : Prop :=
  rxRecord s.masterRx HsPhase2Ack.codec m.endian
    ⟨0, (ensureWrite s.tx (HsPhase2Ack.codec.put s.endian (failureAck s message)) {}).2.sent⟩ ≠
      none

/-- A failure record that the master reads has the status of the slave's stack. -/
theorem status_of_failureArrives {message : List UInt8} {hsp2a : HsPhase2Ack} {r : Reader}
    (hread : rxRecord s.masterRx HsPhase2Ack.codec m.endian
      ⟨0, (slaveHandshakeP2Failure s message {}).sent⟩ = some (hsp2a, r)) :
    hsp2a.p1a.status = s.stack.p1a.status := by
  set image := HsPhase2Ack.codec.put s.endian (failureAck s message) with himage
  have hsent : (slaveHandshakeP2Failure s message {}).sent = (ensureWrite s.tx image {}).2.sent :=
    rfl
  obtain ⟨n, hn⟩ := ensureWriteLoop_prefix s.tx image 0 {} (Nat.zero_le _)
  obtain ⟨⟨bytes, r'⟩, htry, -⟩ := Option.bind_eq_some_iff.mp hread
  obtain ⟨-, hlen, hbytes⟩ := tryRead_eq_some htry
  have htake : (slaveHandshakeP2Failure s message {}).sent = image.take n := by
    rw [hsent, ensureWrite, hn]
    simp
  -- all of the record was there, so nothing was cut off
  have hwhole : image.take n = image := by
    apply List.take_of_length_le
    have hshort := congrArg List.length (htake.symm.trans hbytes)
    rw [List.length_take, List.length_append, hlen] at hshort
    rw [himage, HsPhase2Ack.codec.length_put] at hshort ⊢
    omega
  have hstream : (⟨0, (slaveHandshakeP2Failure s message {}).sent⟩ : Reader).stream =
      HsPhase2Ack.codec.put s.endian (failureAck s message) ++ [] := by
    rw [List.append_nil]
    exact htake.trans hwhole
  have hseen := rxRecord_put_eq_some hstream hread
  rw [hseen]
  by_cases hne : s.endian = m.endian
  · rw [hne, Codec.seen_same]
    rfl
  · rw [Codec.seen_of_ne _ hne, HsPhase2Ack.swap_codec]
    rfl

theorem rxPhase2_isSome_branch {k : Kernel} {e : Endian} {r : Reader}
    (hsome : (rxPhase2 k e shm host g ssid r).isSome) :
    ackBranch k e r = .success ∨ ackBranch k e r = .slaveInfo := by
  unfold rxPhase2 at hsome
  unfold ackBranch
  cases hread : rxRecord k HsPhase2Ack.codec e r with
  | none => simp [hread] at hsome
  | some result =>
      simp only [hread, Option.bind_eq_bind, Option.bind_some] at hsome
      split at hsome
      · cases hsome
      · rename_i hok
        simp only [if_neg hok]
        split
        · exact .inr rfl
        · exact .inl rfl

/-- The branch after a failure record. -/
theorem ackBranch_failure (message : List UInt8) :
    (ackBranch s.masterRx m.endian ⟨0, (slaveHandshakeP2Failure s message {}).sent⟩ = .failure ∨
      ackBranch s.masterRx m.endian ⟨0, (slaveHandshakeP2Failure s message {}).sent⟩ = .noAnswer) ↔
      ¬ (s.stack.p1a.status.cstr = uperfOk ∧ FailureArrives m s message) := by
  unfold FailureArrives ackBranch
  cases hread : rxRecord s.masterRx HsPhase2Ack.codec m.endian
    ⟨0, (slaveHandshakeP2Failure s message {}).sent⟩ with
  | none =>
      have hnone : rxRecord s.masterRx HsPhase2Ack.codec m.endian ⟨0, (ensureWrite s.tx
          (HsPhase2Ack.codec.put s.endian (failureAck s message)) {}).2.sent⟩ = none := hread
      simp [hnone]
  | some result =>
      have hsome : rxRecord s.masterRx HsPhase2Ack.codec m.endian ⟨0, (ensureWrite s.tx
          (HsPhase2Ack.codec.put s.endian (failureAck s message)) {}).2.sent⟩ = some result := hread
      have hstatus := status_of_failureArrives hread
      obtain ⟨hsp2a, r⟩ := result
      rw [hsome]
      dsimp only at hstatus ⊢
      rw [hstatus]
      by_cases hok : s.stack.p1a.status.cstr = uperfOk
      · by_cases hinfo : hsp2a.noSlaveInfo > 0 <;> simp [hok, hinfo]
      · simp [hok]

/-! ## Agreement -/

/-- The master succeeds only after a success of the slave, and takes the failure
branch, or gives up for want of an answer, after a failure. -/
def P2Run.Agree (run : P2Run) : Prop :=
  (run.result.isSome → run.report = .success) ∧
    ∀ message, run.report = .failure message →
      run.branch = .failure ∨ run.branch = .noAnswer

/-- What a failure record on the stack comes to. -/
theorem agree_iff_of_p2Run {res : Resources} {run : P2Run}
    (hrun : p2Run m s res shm host g ssid = some run) :
    run.Agree ↔ ∀ message, run.report = .failure message →
      ¬ (s.stack.p1a.status.cstr = uperfOk ∧ FailureArrives m s message) := by
  obtain ⟨⟨shm₁, si⟩, -, hrun⟩ := Option.bind_eq_some_iff.mp hrun
  obtain ⟨w, htx, hrun⟩ := Option.bind_eq_some_iff.mp hrun
  obtain ⟨rest, hsent⟩ := sent_txPhase2 htx
  have hresult : ∀ reply : List UInt8,
      ((rxPhase2 s.masterRx m.endian shm₁ host g ssid ⟨0, reply⟩).map fun shm =>
        (shm, (slaveMasterReport s res w.sent).2.1)).isSome →
      ¬ (ackBranch s.masterRx m.endian ⟨0, reply⟩ = .failure ∨
        ackBranch s.masterRx m.endian ⟨0, reply⟩ = .noAnswer) := by
    intro reply hsome
    rw [Option.isSome_map] at hsome
    rcases rxPhase2_isSome_branch hsome with hbranch | hbranch <;> rw [hbranch] <;> decide
  rcases slaveMasterReport_cases (s := s) res hsent with
    hreport | ⟨message, hreport⟩ | ⟨slave, reply, hreport⟩
  · -- the slave has gone without a word
    rw [hreport] at hrun hresult
    cases hrun
    have hnone : ackBranch s.masterRx m.endian ⟨0, []⟩ = .noAnswer := by
      rw [ackBranch, rxRecord_nil]
    refine iff_of_true ⟨fun hsome => ?_, fun _ hfailure => by cases hfailure⟩
      fun _ hfailure => by cases hfailure
    exact absurd (.inr hnone) (hresult [] hsome)
  · rw [hreport] at hrun hresult
    cases hrun
    have hbranch := ackBranch_failure (m := m) (s := s) message
    constructor
    · intro hagree message' hfailure
      cases hfailure
      exact hbranch.mp (hagree.2 message rfl)
    · intro hstack
      have hfailed := hbranch.mpr (hstack message rfl)
      refine ⟨fun hsome => absurd hfailed (hresult _ hsome), ?_⟩
      intro message' hfailure
      cases hfailure
      exact hfailed
  · rw [hreport] at hrun
    cases hrun
    exact iff_of_true ⟨fun _ => rfl, fun _ hfailure => by cases hfailure⟩
      fun _ hfailure => by cases hfailure

end

/-- Master and slave agree exactly if the failure record does not say `OK`: the
stack of the slave holds another status, or the slave does not come to one of its
calls of `slave_handshake_p2_failure`, or the record does not get through. -/
theorem p2Run_agree_iff (m : MasterEnv) (s : SlaveEnv) (res : Resources) (shm : Shm)
    (host : HostName) (g : Group) (ssid : ℕ) :
    (∀ run ∈ p2Run m s res shm host g ssid, run.Agree) ↔
      (s.stack.p1a.status.cstr = uperfOk →
        ∀ run ∈ p2Run m s res shm host g ssid, ∀ message, run.report = .failure message →
          ¬ FailureArrives m s message) := by
  constructor
  · intro hagree hok run hrun message hfailure harrives
    exact (agree_iff_of_p2Run hrun).mp (hagree run hrun) message hfailure ⟨hok, harrives⟩
  · intro hstack run hrun
    apply (agree_iff_of_p2Run hrun).mpr
    intro message hfailure ⟨hok, harrives⟩
    exact hstack hok run hrun message hfailure harrives

/-! ## A stack that says `OK` -/

/-- A slave whose stack still holds the `OK` of an earlier record. -/
def staleSlave : SlaveEnv :=
  { tcpSlave with stack := { p1a := { status := strlcpy (CharArray.zero 64) uperfOk } } }

/-- A master of the same byte order. -/
def littleMaster : MasterEnv where
  endian := .little
  listen := fun _ p _ => p.port

/-- No memory for the `shm`. -/
def noMemory : Resources := { Resources.ample with shm := false }

/-- The slave has no memory for its `shm` and says so, and the master goes on. -/
theorem not_agree_staleSlave :
    ¬ ∀ run ∈ p2Run littleMaster staleSlave noMemory {} (HostName.ofBytes [104, 49]) connectGroup 0,
      run.Agree := by
  intro hagree
  have haccepts : preprocessAccepts littleMaster.listen {} connectGroup 0 = some ({}, none) := rfl
  obtain ⟨w₁, hheader, hsent₁⟩ := tryWrite_put Kernel.full_positive .little HsPhase1.codec
    (by decide) (hsPhase2Header none connectGroup) {}
  obtain ⟨w, hgroup, hsent⟩ := txGroupT_positive Kernel.full_positive .little connectGroup
    (HostName.ofBytes [104, 49]) w₁
  have htx : txPhase2 Kernel.full .little none connectGroup (HostName.ofBytes [104, 49]) {} =
      some w := by
    simp only [txPhase2, hheader, hgroup, Option.bind_eq_bind, Option.bind_some]
  have hstream : (⟨0, w.sent⟩ : Reader).stream =
      HsPhase1.codec.put .little (hsPhase2Header none connectGroup) ++
        ((txCopy connectGroup (HostName.ofBytes [104, 49])).image .little ++ []) := by
    rw [hsent, hsent₁, List.append_nil]
    rfl
  obtain ⟨r, hhandshake, -⟩ := slaveHandshake_positive (m := littleMaster) (s := staleSlave)
    Kernel.full_positive connectGroup_counted rfl none _ _ {} hstream
  have hreport : slaveMasterReport staleSlave noMemory w.sent =
      slaveFails staleSlave (str "Out of Memory") {} := by
    rw [slaveMasterReport, hhandshake]
    rfl
  obtain ⟨run, hrun, hfailure⟩ : ∃ run, p2Run littleMaster staleSlave noMemory {}
      (HostName.ofBytes [104, 49]) connectGroup 0 = some run ∧
        run.report = .failure (str "Out of Memory") := by
    rw [p2Run, haccepts]
    simp only [Option.bind_eq_bind, Option.bind_some]
    rw [show txPhase2 staleSlave.masterTx littleMaster.endian none connectGroup
      (HostName.ofBytes [104, 49]) {} = some w from htx, Option.bind_some, hreport]
    exact ⟨_, rfl, rfl⟩
  refine (agree_iff_of_p2Run hrun).mp (hagree run hrun) _ hfailure ⟨cstr_ok, ?_⟩
  -- the record arrives whole
  obtain ⟨w', hwrite, hsent'⟩ := ensureWrite_positive Kernel.full_positive
    (HsPhase2Ack.codec.put .little (failureAck staleSlave (str "Out of Memory"))) {}
  have hstream : (⟨0, w'.sent⟩ : Reader).stream = HsPhase2Ack.codec.put .little
      (failureAck staleSlave (str "Out of Memory")) ++ [] := by
    rw [List.append_nil]
    exact hsent'
  obtain ⟨r', hread, -⟩ := rxRecord_put Kernel.full_positive HsPhase2Ack.codec (by decide)
    .little .little _ hstream
  show rxRecord Kernel.full HsPhase2Ack.codec .little ⟨0, (ensureWrite Kernel.full
    (HsPhase2Ack.codec.put .little (failureAck staleSlave (str "Out of Memory"))) {}).2.sent⟩ ≠ none
  rw [hwrite, hread]
  exact Option.some_ne_none _

end Uperf
