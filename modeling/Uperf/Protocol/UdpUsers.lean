import Mathlib.Data.List.Basic
import Mathlib.Data.List.Infix
import Mathlib.Data.List.Induction
import Mathlib.Tactic.Linarith

/-!
# The users of a UDP object

Several connections may share one UDP object, and it counts them, so that `udp_fini` can
close the socket for the last one.  An `accept` is counted and a disconnect takes one away,
but a connect is not counted, and `udp_fini` waits for less than `-1`.

The counter is therefore the number of users less the number of connects (`balance_eq`).
The object goes with its last user if two of the users have come by a connect, and otherwise
too late or too early (`released_iff`).
-/

namespace Uperf

namespace Udp

/-- The fields of `udp_private_data` that its users change. -/
structure PrivateData where
  sock : Int32 := 0
  refcount : Int32 := 0

/-- What a user does: `protocol_udp_connect` and `protocol_udp_accept` where they succeed,
and `protocol_udp_disconnect` with the `destroy_protocol` after it. -/
inductive Use where
  | connect (sock : Int32)
  | accept
  | leave
deriving DecidableEq

/-- `protocol_udp_connect`, where `socket` returns `sock` and the handshake is sent. -/
def protocolUdpConnect (pd : PrivateData) (sock : Int32) : PrivateData := { pd with sock := sock }

/-- `protocol_udp_accept`, where the handshake has been read. -/
def protocolUdpAccept (pd : PrivateData) : PrivateData :=
  { pd with refcount := pd.refcount + 1 }

/-- `protocol_udp_disconnect`. -/
def protocolUdpDisconnect (pd : PrivateData) : PrivateData :=
  { pd with refcount := pd.refcount - 1 }

/-- `udp_fini`: the sockets that it closes where it frees the object. -/
def udpFini (pd : PrivateData) : Option (List Int32) :=
  if pd.refcount < -1 then some (if 0 < pd.sock then [pd.sock] else []) else none

/-- The object after one use of it. -/
def PrivateData.use (pd : PrivateData) : Use → PrivateData
  | .connect sock => protocolUdpConnect pd sock
  | .accept => protocolUdpAccept pd
  | .leave => protocolUdpDisconnect pd

/-- The object after some uses. -/
def PrivateData.after (pd : PrivateData) (uses : List Use) : PrivateData :=
  uses.foldl PrivateData.use pd

/-! ## Histories -/

/-- The socket of a connect. -/
def Use.socket? : Use → Option Int32
  | .connect sock => some sock
  | _ => none

/-- The sockets of the connects. -/
def sockets (uses : List Use) : List Int32 := uses.filterMap Use.socket?

/-- What the uses add to the counter. -/
def balance (uses : List Use) : ℤ := uses.count .accept - uses.count .leave

/-- The users that have come and not left. -/
def outstanding (uses : List Use) : ℤ :=
  (sockets uses).length + uses.count .accept - uses.count .leave

/-- Every user comes before it leaves, and all of them have left in the end. -/
structure Balanced (uses : List Use) : Prop where
  started : ∀ before, before <+: uses → 0 ≤ outstanding before
  ended : outstanding uses = 0

/-- The call of `udp_fini` for the last user frees the object and closes its socket, and the
calls before it do neither. -/
structure ReleasedWithLast (pd : PrivateData) (uses : List Use) : Prop where
  kept : ∀ before, before ++ [.leave] <+: uses → before ++ [.leave] ≠ uses →
    udpFini (pd.after (before ++ [.leave])) = none
  released : uses ≠ [] → udpFini (pd.after uses) = some [(pd.after uses).sock]

/-- Two users have come by a connect, from the second of them on there has been a user all
the time, and the counter has never been too high for an `int` when a user left. -/
structure TwoConnects (uses : List Use) : Prop where
  sockets : ∃ first second, sockets uses = [first, second] ∧ 0 < second
  inUse : ∀ before, before ++ [.leave] <+: uses → before ++ [.leave] ≠ uses →
    (Udp.sockets before).length = 2 → 0 < outstanding (before ++ [.leave])
  counted : ∀ before, before ++ [.leave] <+: uses →
    outstanding (before ++ [.leave]) < 2 ^ 31 + (Udp.sockets before).length

section

variable {pd : PrivateData} {uses before rest : List Use} {u : Use}

theorem balance_eq (uses : List Use) :
    balance uses = outstanding uses - (sockets uses).length := by
  unfold balance outstanding
  omega

@[simp] theorem sockets_append_leave (before : List Use) :
    sockets (before ++ [.leave]) = sockets before := by
  simp [sockets, Use.socket?]

theorem balance_append_leave (before : List Use) :
    balance (before ++ [.leave]) =
      outstanding (before ++ [.leave]) - (sockets before).length := by
  rw [balance_eq, sockets_append_leave]

/-- Only a user who leaves takes one away from the counter. -/
theorem balance_append_singleton (before : List Use) (u : Use) :
    balance (before ++ [u]) =
      balance before + match u with
        | .connect _ => 0
        | .accept => 1
        | .leave => -1 := by
  cases u <;> simp [balance, List.count_append] <;> omega

/-- Whoever does not leave is one user more. -/
theorem outstanding_append_singleton (before : List Use) (u : Use) :
    outstanding (before ++ [u]) = outstanding before + if u = .leave then -1 else 1 := by
  cases u <;>
    simp [outstanding, sockets, Use.socket?, List.count_append, List.filterMap_cons] <;> omega

theorem after_append_singleton (pd : PrivateData) (before : List Use) (u : Use) :
    pd.after (before ++ [u]) = (pd.after before).use u := by
  simp [PrivateData.after]

/-- The counter is the balance, as an `int`. -/
theorem refcount_after (hpd : pd.refcount = 0) (uses : List Use) :
    (pd.after uses).refcount = Int32.ofInt (balance uses) := by
  induction uses using List.reverseRecOn with
  | nil => simpa [PrivateData.after, balance] using hpd
  | append_singleton before u ih =>
      rw [after_append_singleton, balance_append_singleton]
      cases u with
      | connect sock => simpa [PrivateData.use, protocolUdpConnect] using ih
      | accept =>
          rw [PrivateData.use, protocolUdpAccept, ih, Int32.ofInt_add]
          rfl
      | leave =>
          rw [PrivateData.use, protocolUdpDisconnect, ih, ← sub_eq_add_neg, Int32.ofInt_sub]
          rfl

/-- The socket is that of the last connect. -/
theorem sock_after (pd : PrivateData) (uses : List Use) :
    (pd.after uses).sock = (sockets uses).getLast?.getD pd.sock := by
  induction uses using List.reverseRecOn with
  | nil => rfl
  | append_singleton before u ih =>
      rw [after_append_singleton]
      cases u with
      | connect sock => simp [PrivateData.use, protocolUdpConnect, sockets, Use.socket?]
      | accept => simpa [PrivateData.use, protocolUdpAccept, sockets, Use.socket?] using ih
      | leave => simpa [PrivateData.use, protocolUdpDisconnect, sockets, Use.socket?] using ih

theorem udpFini_eq_none_iff (hpd : pd.refcount = 0) (uses : List Use) :
    udpFini (pd.after uses) = none ↔ -1 ≤ (balance uses).bmod (2 ^ 32) := by
  have hneg : (-1 : Int32).toInt = -1 := by decide
  rw [udpFini, refcount_after hpd, ite_eq_right_iff]
  simp only [reduceCtorEq, imp_false, Int32.not_lt, Int32.le_iff_toInt_le, hneg,
    Int32.toInt_ofInt]
  rfl

/-! ## The counter goes down one by one -/

/-- From a balance above `a` to one that is not there is a user whose leaving makes it `a`. -/
theorem exists_crossing {a : ℤ} (before rest : List Use) (hbefore : a < balance before)
    (hend : balance (before ++ rest) ≤ a) :
    ∃ mid, mid ++ [.leave] <+: before ++ rest ∧ balance (mid ++ [.leave]) = a := by
  induction rest using List.reverseRecOn with
  | nil =>
      rw [List.append_nil] at hend
      omega
  | append_singleton rest u ih =>
      rw [← List.append_assoc] at hend ⊢
      obtain hle | hlt := le_or_gt (balance (before ++ rest)) a
      · obtain ⟨mid, hmid, hbalance⟩ := ih hle
        exact ⟨mid, hmid.trans (List.prefix_append _ _), hbalance⟩
      · -- the last one is the user
        have hlast := balance_append_singleton (before ++ rest) u
        cases u with
        | connect sock => simp only at hlast; omega
        | accept => simp only at hlast; omega
        | leave =>
            simp only at hlast
            exact ⟨before ++ rest, List.prefix_rfl, by omega⟩

/-- A history of users ends with one that leaves. -/
theorem Balanced.eq_append_leave (hbalanced : Balanced uses) (hne : uses ≠ []) :
    ∃ before, uses = before ++ [.leave] := by
  obtain ⟨before, u, rfl⟩ : ∃ before u, uses = before ++ [u] := by
    obtain rfl | ⟨before, u, heq⟩ := List.eq_nil_or_concat uses
    · exact absurd rfl hne
    · exact ⟨before, u, by rw [heq, List.concat_eq_append]⟩
  have hstarted := hbalanced.started before (List.prefix_append _ _)
  have hended := hbalanced.ended
  rw [outstanding_append_singleton] at hended
  split_ifs at hended with hleave
  · exact ⟨before, by rw [hleave]⟩
  · omega

/-- Where the object is kept until the end, the counter does not go below `-1` before. -/
theorem ReleasedWithLast.le_balance (hpd : pd.refcount = 0) (h : ReleasedWithLast pd uses)
    (hbefore : before <+: uses) (hne : before ≠ uses) : -1 ≤ balance before := by
  by_contra! hlt
  obtain ⟨mid, hmid, hbalance⟩ :=
    exists_crossing (a := -2) [] before (by decide) (by simpa using by omega)
  rw [List.nil_append] at hmid
  have hproper : mid ++ [.leave] ≠ uses := by
    intro heq
    rw [heq] at hmid
    exact hne (hbefore.eq_of_length_le hmid.length_le)
  have hkept := h.kept mid (hmid.trans hbefore) hproper
  rw [udpFini_eq_none_iff hpd, hbalance] at hkept
  exact absurd hkept (by decide)

/-- Where the object is kept until the end, the counter has not been too high. -/
theorem ReleasedWithLast.balance_lt (hpd : pd.refcount = 0) (h : ReleasedWithLast pd uses)
    (hend : balance uses < 0) (hbefore : before ++ [.leave] <+: uses) :
    balance (before ++ [.leave]) < 2 ^ 31 := by
  by_contra! hge
  have hkept : ∀ mid, mid ++ [.leave] <+: uses → 0 ≤ balance (mid ++ [.leave]) →
      -1 ≤ (balance (mid ++ [.leave])).bmod (2 ^ 32) := by
    intro mid hmid hnonneg
    refine (udpFini_eq_none_iff hpd _).mp (h.kept mid hmid ?_)
    rintro rfl
    omega
  -- it has even been above all that is negative as an `int`, and has passed that on its way
  have hhigh : 2 ^ 32 - 2 < balance (before ++ [.leave]) := by
    have hmod := hkept before hbefore (by omega)
    rw [Int.bmod_def] at hmod
    split_ifs at hmod <;> omega
  obtain ⟨rest, rfl⟩ := hbefore
  obtain ⟨mid, hmid, hbalance⟩ := exists_crossing _ rest hhigh (by omega)
  have hmod := hkept mid hmid (by omega)
  rw [hbalance] at hmod
  exact absurd hmod (by decide)

/-- The object is released with its last user only if two have come by a connect. -/
theorem ReleasedWithLast.twoConnects (hpd : pd.refcount = 0) (hbalanced : Balanced uses)
    (hne : uses ≠ []) (h : ReleasedWithLast pd uses) : TwoConnects uses := by
  have hreleased := h.released hne
  have hend := balance_eq uses
  rw [hbalanced.ended] at hend
  obtain ⟨last, hlast⟩ := hbalanced.eq_append_leave hne
  have hlow : -2 ≤ balance uses := by
    have hprefix : last <+: uses := hlast ▸ List.prefix_append _ _
    have hbefore := h.le_balance hpd hprefix (fun heq => by simp [heq] at hlast)
    have hstep := balance_append_singleton last .leave
    simp only at hstep
    rw [hlast]
    omega
  have hlength : (Udp.sockets uses).length = 2 := by
    have hmod : ¬ -1 ≤ (balance uses).bmod (2 ^ 32) := by
      rw [← udpFini_eq_none_iff hpd, hreleased]
      exact Option.some_ne_none _
    rw [Int.bmod_eq_of_le (by omega) (by omega)] at hmod
    omega
  constructor
  · obtain ⟨first, second, hpair⟩ := List.length_eq_two.1 hlength
    refine ⟨first, second, hpair, ?_⟩
    have hsock : (pd.after uses).sock = second := by
      rw [sock_after, hpair]
      rfl
    rw [udpFini, hsock, Option.ite_none_right_eq_some] at hreleased
    by_contra hsecond
    rw [if_neg hsecond] at hreleased
    simp at hreleased
  · intro before hbefore hproper htwo
    have hbalance := balance_append_leave before
    have hge := h.le_balance hpd hbefore hproper
    omega
  · intro before hbefore
    have hbalance := balance_append_leave before
    have hlt := h.balance_lt hpd (by omega) hbefore
    omega

/-- Two connects bring the counter to `-2` exactly when the last user leaves. -/
theorem TwoConnects.releasedWithLast (hpd : pd.refcount = 0) (hbalanced : Balanced uses)
    (h : TwoConnects uses) : ReleasedWithLast pd uses := by
  obtain ⟨first, second, hpair, hpos⟩ := h.sockets
  constructor
  · intro before hbefore hproper
    have hbalance := balance_append_leave before
    have hstarted := hbalanced.started _ hbefore
    have hinUse := h.inUse before hbefore hproper
    have hcounted := h.counted before hbefore
    have hle : (Udp.sockets before).length ≤ 2 := by
      have hsub : Udp.sockets (before ++ [.leave]) <+: Udp.sockets uses := hbefore.filterMap _
      rw [sockets_append_leave, hpair] at hsub
      exact hsub.length_le
    rw [udpFini_eq_none_iff hpd, Int.bmod_eq_of_le (by omega) (by omega)]
    omega
  · intro _
    have hend := balance_eq uses
    rw [hbalanced.ended, hpair] at hend
    have hcount : (pd.after uses).refcount = -2 := by
      rw [refcount_after hpd, show balance uses = -2 by simpa using hend]
      rfl
    have hsock : (pd.after uses).sock = second := by
      rw [sock_after, hpair]
      rfl
    rw [udpFini, hcount, if_pos (by decide), hsock, if_pos hpos]

end

/-- Whatever object it is and however it is used, the object is freed and its socket closed
with the last user exactly if there is no user, or two of them have come by a connect, the
object has had a user all the time since the second one, and that one's socket is not the
descriptor 0. -/
theorem released_iff {pd : PrivateData} (hpd : pd.refcount = 0) {uses : List Use}
    (hbalanced : Balanced uses) :
    ReleasedWithLast pd uses ↔ uses = [] ∨ TwoConnects uses := by
  constructor
  · intro h
    exact or_iff_not_imp_left.mpr fun hne => h.twoConnects hpd hbalanced hne
  · rintro (rfl | h)
    · constructor
      · intro before hbefore
        simp at hbefore
      · exact fun hne => absurd rfl hne
    · exact h.releasedWithLast hpd hbalanced

theorem balanced_of_inits {uses : List Use}
    (hstarted : ∀ before ∈ uses.inits, 0 ≤ outstanding before)
    (hended : outstanding uses = 0) : Balanced uses :=
  ⟨fun before hbefore => hstarted before ((List.mem_inits _ _).mpr hbefore), hended⟩

/-- Two connects that are left in turn. -/
theorem released_iff_twoConnects :
    ReleasedWithLast {} [.connect 3, .connect 4, .leave, .leave] ↔
      ([.connect 3, .connect 4, .leave, .leave] : List Use) = [] ∨
        TwoConnects [.connect 3, .connect 4, .leave, .leave] :=
  released_iff rfl (balanced_of_inits (by decide) (by decide))

/-- One connect that is left again: the object stays. -/
theorem not_released_connect :
    ¬ ∀ (pd : PrivateData) (uses : List Use), pd.refcount = 0 → Balanced uses →
      ReleasedWithLast pd uses := by
  intro h
  have hbalanced : Balanced [.connect 3, .leave] := balanced_of_inits (by decide) (by decide)
  have hreleased := (h {} _ rfl hbalanced).released (by decide)
  exact absurd hreleased (by decide)

end Udp

end Uperf
