import Uperf.Duplex.Pair
import Uperf.Handshake.Bitswap
import Uperf.Handshake.Projection

/-!
# Strands that run what came over the wire

A slave does not have the group that `group_opposite` made but the one that it has
read from its control connection.  If the group is meant for this slave alone, that
is still the dual of the group that the strands of the master clone.
-/

namespace Uperf

open Lib

section

variable {g received : Group} {host : HostName} {p : Protocol} {calls : List Call}

theorem forall₂_of_mem {α β : Type*} {R S : α → β → Prop} {items : List α} {items' : List β}
    (h : List.Forall₂ R items items') (himp : ∀ a ∈ items, ∀ b, R a b → S a b) :
    List.Forall₂ S items items' := by
  induction h with
  | nil => exact .nil
  | cons hhead _ ih =>
      obtain ⟨himphead, himptail⟩ := List.forall_mem_cons.mp himp
      exact .cons (himphead _ hhead) (ih himptail)

/-- A flowop that a slave has read goes with the one of the profile. -/
theorem Flowop.ReceivedFrom.dual {f f' : Flowop} (hsym : f.Symmetric)
    (haddressed : f.AddressedTo host) (h : (f.forSlave.nopOther host).ReceivedFrom p f') :
    f.Dual f' := by
  have hsent : f.forSlave.nopOther host = f.forSlave := by
    have htype := f.type_forSlave_nopOther host
    rw [if_pos haddressed] at htype
    unfold nopOther at htype ⊢
    split_ifs at htype ⊢
    · rfl
    · rfl
    · have hnop : f.forSlave.type = .nop := by
        rw [hsym.dual.type]
        exact htype.symm
      rw [← hnop]
  rw [hsent] at h
  have hhead := h.transmitted
  have hdual := hsym.dual
  have hoptions : f'.options = { f.forSlave.options with
      remotehost := f'.options.remotehost, localhost := f'.options.localhost } :=
    congrArg FlowopHead.options hhead
  refine ⟨?_, ?_, ?_, ?_, ?_, ?_⟩
  · exact (congrArg FlowopHead.type hhead).trans hdual.type
  · exact (congrArg FlowopHead.pId hhead).trans hdual.pId
  · exact (congrArg FlowopOptions.size hoptions).trans hdual.size
  · exact (congrArg FlowopOptions.foRandomSize hoptions).trans hdual.random
  · exact (congrArg FlowopOptions.protocol hoptions).trans hdual.protocol
  · exact (congrArg FlowopOptions.count hoptions).trans hdual.count

/-- So does the group. -/
theorem Group.ReceivedFrom.dual (hsym : ∀ f ∈ g.flowops, f.Symmetric)
    (haddressed : ∀ f ∈ g.flowops, f.AddressedTo host)
    (h : (txCopy g host).ReceivedFrom p received) : g.Dual received := by
  have htlist := h.tlist
  rw [txCopy_eq] at htlist
  refine forall₂_of_mem (List.forall₂_map_left_iff.mp htlist) fun txn htxn txn' hreceived => ?_
  refine ⟨congrArg TxnHead.iter hreceived.transmitted,
    congrArg TxnHead.duration hreceived.transmitted, ?_⟩
  refine forall₂_of_mem (List.forall₂_map_left_iff.mp hreceived.flist) fun f hf f' hf' => ?_
  have hmem : f ∈ g.flowops := List.mem_flatMap.mpr ⟨txn, htxn, hf⟩
  exact Flowop.ReceivedFrom.dual (hsym f hmem) (haddressed f hmem) hf'

/-- The slave has set the `execute` functions of what it has read. -/
theorem Group.ReceivedFrom.execute (h : (txCopy g host).ReceivedFrom p received) :
    ∀ f ∈ received.flowops, f.execute = some (flowopGetExecuteFunc f.type) := by
  intro f' hf'
  obtain ⟨txn', htxn', hf'⟩ := List.mem_flatMap.mp hf'
  obtain ⟨txn, -, htxn⟩ := exists_dual h.tlist htxn'
  obtain ⟨f, -, hf⟩ := exists_dual htxn.flist hf'
  exact hf.execute

end

/-- A strand that has just been created, with the listening connections it needs. -/
structure Thread.AtStart (t : Thread) : Prop where
  fresh : t.conns.Fresh
  connection : t.conns.connection = fun _ => none
  listens : ∀ f ∈ t.group.flowops, f.type = .accept →
    t.conns.listenConn f.options.protocol ≠ none

theorem echoGroup_symmetric :
    ∀ f ∈ (echoGroup .connect .write .read).flowops, f.Symmetric := by
  simp [echoGroup, echoFlowop, Group.flowops, Flowop.Symmetric]

theorem echoGroup_addressed :
    ∀ f ∈ (echoGroup .connect .write .read).flowops,
      f.AddressedTo (HostName.ofBytes [104, 49]) := by
  decide

theorem echoGroup_hostsTerminated : (echoGroup .connect .write .read).HostsTerminated := by
  constructor <;> simp [echoGroup, echoFlowop, Group.flowops]

end Uperf
