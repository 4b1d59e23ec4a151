import Uperf.Handshake.Transfer
import Uperf.Master.Control

/-!
# The part of a group that each slave gets

A slave executes the flowops that name it and those that name no host.
Which connect and accept flowops reach a slave at all is decided twice, by the
search for a control connection, which ignores letter case, and by the NOP pass
of `tx_group_t`, which does not; over UDP the control connections have no names
and none of these flowops survives (`controlConnections_exactlyOne_iff`).  The NOP
pass looks at every flowop by itself, so a data flowop may survive on a slave
where the connection it uses does not (`connectionsOpened_txCopy_iff`).
-/

namespace Uperf

open Lib

/-- The flowop names `host`, or no host at all. -/
def Flowop.AddressedTo (host : HostName) (f : Flowop) : Prop :=
  f.options.remotehost.cstr = [] ∨ f.options.remotehost.cstr = host.cstr

instance (host : HostName) (f : Flowop) : Decidable (f.AddressedTo host) :=
  inferInstanceAs (Decidable (_ ∨ _))

/-- The NOP pass keeps exactly the flowops addressed to the slave. -/
theorem Flowop.type_forSlave_nopOther (host : HostName) (f : Flowop) :
    (f.forSlave.nopOther host).type =
      if f.AddressedTo host then flowopOpposite f.type else .nop := by
  rw [type_nopOther, remotehost_forSlave]
  exact if_congr Iff.rfl rfl rfl

theorem getElem?_flowops_txCopy (g : Group) (host : HostName) (i : ℕ) :
    (txCopy g host).flowops[i]? =
      (g.flowops[i]?).map fun f => f.forSlave.nopOther host := by
  rw [flowops_txCopy, List.getElem?_map]

/-! ## Connect and accept flowops -/

/-- The flowop at position `i` of the group is left as it is in the work order
for `p`. -/
def LeftFor (g : Group) (i : ℕ) (p : Protocol) : Bool :=
  ((txCopy g p.host).flowops[i]?).any fun f => f.type ≠ .nop

/-- Every connect and accept flowop of the group is executed by exactly one of
its slaves. -/
def ExactlyOne (g : Group) : Prop :=
  ∀ (i : ℕ) (f : Flowop), g.flowops[i]? = some f → f.type.opens = true →
    (g.control.filter (LeftFor g i)).length = 1

/-- Two connect or accept flowops of the group whose hosts are equal without
regard to case name them alike. -/
def SpelledAlike (g : Group) : Prop :=
  ∀ h ∈ openedHosts g.flowops, ∀ h' ∈ openedHosts g.flowops, h.folded = h'.folded →
    h.cstr = h'.cstr

theorem mem_openedHosts {flowops : List Flowop} {h : HostName} :
    h ∈ openedHosts flowops ↔
      ∃ (i : ℕ) (f : Flowop),
        flowops[i]? = some f ∧ f.type.opens = true ∧ f.options.remotehost = h := by
  constructor
  · intro hmem
    obtain ⟨f, hfilter, hh⟩ := List.mem_map.mp hmem
    obtain ⟨hf, hopens⟩ := List.mem_filter.mp hfilter
    obtain ⟨i, hi⟩ := List.mem_iff_getElem?.mp hf
    exact ⟨i, f, hi, hopens, hh⟩
  · rintro ⟨i, f, hf, hopens, hh⟩
    exact List.mem_map.mpr ⟨f, List.mem_filter.mpr ⟨List.mem_of_getElem? hf, hopens⟩, hh⟩

theorem leftFor_iff {g : Group} {i : ℕ} {f : Flowop} {p : Protocol}
    (hf : g.flowops[i]? = some f) (hopens : f.type.opens = true)
    (hset : f.options.remotehost.cstr ≠ []) :
    LeftFor g i p = true ↔ f.options.remotehost.cstr = p.host.cstr := by
  have hnop : f.type ≠ .nop := by
    intro hnop
    simp [hnop, FlowopType.opens] at hopens
  rw [LeftFor, getElem?_flowops_txCopy, hf]
  simp only [Option.map_some, Option.any_some, Flowop.type_forSlave_nopOther,
    Flowop.AddressedTo, hset, false_or]
  split_ifs with hhost <;> simp [hhost, hnop]

theorem KeepsProgram.flowops_eq {g g' : Group} (hkeeps : KeepsProgram g g') :
    g'.flowops = g.flowops := by
  rw [Group.flowops, Group.flowops, hkeeps.tlist]

section

variable {done : List Flowop} {control : List Protocol} (hcontrol : ControlsOf done control)
include hcontrol

theorem ControlsOf.eq_of_folded {p q : Protocol} (hp : p ∈ control) (hq : q ∈ control)
    (hsame : p.host.folded = q.host.folded) : p = q := by
  have hdistinct : control.Pairwise fun p q => p.host.folded = q.host.folded → p = q :=
    hcontrol.distinct.imp fun hne heq => absurd heq hne
  have hflip : control.Pairwise fun q p => p.host.folded = q.host.folded → p = q :=
    hcontrol.distinct.imp fun hne heq => absurd heq.symm hne
  exact hdistinct.forall_of_forall_of_flip (fun _ _ _ => rfl) hflip hp hq hsame

/-- A host name leads to at most one control connection. -/
theorem ControlsOf.length_filter_le (h : HostName) :
    (control.filter fun p => h.cstr = p.host.cstr).length ≤ 1 := by
  have hpairwise := hcontrol.distinct.filter fun p => decide (h.cstr = p.host.cstr)
  have hmem : ∀ p ∈ control.filter (fun p => decide (h.cstr = p.host.cstr)),
      p.host.folded = h.folded := by
    intro p hp
    rw [HostName.folded, HostName.folded, of_decide_eq_true (List.mem_filter.mp hp).2]
  -- two of them would have host names that differ in more than their case
  rcases hfilter : control.filter fun p => decide (h.cstr = p.host.cstr) with _ | ⟨p, _ | ⟨q, rest⟩⟩
  · simp [hfilter]
  · simp [hfilter]
  · rw [hfilter] at hpairwise hmem
    have hne := (List.pairwise_cons.mp hpairwise).1 q List.mem_cons_self
    exact absurd ((hmem p (by simp)).trans (hmem q (by simp)).symm) hne

/-- A host name has exactly one control connection under just its spelling when
the connection found for it has that spelling. -/
theorem ControlsOf.length_filter_eq_one_iff {h : HostName} (hh : h ∈ openedHosts done) :
    (control.filter fun p => h.cstr = p.host.cstr).length = 1 ↔
      ∀ p ∈ control, p.host.folded = h.folded → p.host.cstr = h.cstr := by
  constructor
  · intro hlen p hp hsame
    obtain ⟨q, hq⟩ := List.length_eq_one_iff.mp hlen
    have hmem : q ∈ control.filter fun p => h.cstr = p.host.cstr := by
      rw [hq]
      exact List.mem_singleton.mpr rfl
    obtain ⟨hqmem, hqhost⟩ := List.mem_filter.mp hmem
    have hqhost : h.cstr = q.host.cstr := of_decide_eq_true hqhost
    have hpq : p = q := hcontrol.eq_of_folded hp hqmem (by
      rw [hsame, HostName.folded, HostName.folded, hqhost])
    rw [hpq, hqhost]
  · intro hexact
    obtain ⟨-, p, hp, hsame⟩ := hcontrol.found h hh
    have hmem : p ∈ control.filter fun p => h.cstr = p.host.cstr :=
      List.mem_filter.mpr ⟨hp, decide_eq_true (hexact p hp hsame).symm⟩
    exact le_antisymm (hcontrol.length_filter_le h) (List.length_pos_of_mem hmem)

/-- The one connection found for a name has its spelling exactly when all
spellings of the name are the same. -/
theorem ControlsOf.spelled_iff :
    (∀ h ∈ openedHosts done, ∀ p ∈ control, p.host.folded = h.folded → p.host.cstr = h.cstr) ↔
      ∀ h ∈ openedHosts done, ∀ h' ∈ openedHosts done, h.folded = h'.folded →
        h.cstr = h'.cstr := by
  constructor
  · intro hexact h hh h' hh' hfolded
    obtain ⟨-, p, hp, hsame⟩ := hcontrol.found h hh
    rw [← hexact h hh p hp hsame, hexact h' hh' p hp (hsame.trans hfolded)]
  · intro halike h hh p hp hsame
    obtain ⟨h', hh', hname⟩ := hcontrol.named p hp
    have hfolded : h.folded = h'.folded := by
      rw [← hsame, HostName.folded, HostName.folded, hname]
    rw [hname, halike h hh h' hh' hfolded]

end

theorem exactlyOne_iff_spelledAlike {g g' : Group} (hkeeps : KeepsProgram g g')
    (hcontrol : ControlsOf g.flowops g'.control) : ExactlyOne g' ↔ SpelledAlike g := by
  rw [SpelledAlike, ← hcontrol.spelled_iff, ExactlyOne, hkeeps.flowops_eq]
  have hfilter : ∀ i f, g.flowops[i]? = some f → f.type.opens = true →
      ((g'.control.filter (LeftFor g' i)).length = 1 ↔
        ∀ p ∈ g'.control, p.host.folded = f.options.remotehost.folded →
          p.host.cstr = f.options.remotehost.cstr) := by
    intro i f hf hopens
    have hh := mem_openedHosts.mpr ⟨i, f, hf, hopens, rfl⟩
    rw [← hcontrol.length_filter_eq_one_iff hh]
    refine iff_of_eq (congrArg (fun l => List.length l = 1) (List.filter_congr fun p _ => ?_))
    rw [Bool.eq_iff_iff, leftFor_iff (hkeeps.flowops_eq ▸ hf) hopens (hcontrol.found _ hh).1,
      decide_eq_true_iff]
  constructor
  · intro hone h hh
    obtain ⟨i, f, hf, hopens, rfl⟩ := mem_openedHosts.mp hh
    exact (hfilter i f hf hopens).mp (hone i f hf hopens)
  · intro hexact i f hf hopens
    exact (hfilter i f hf hopens).mpr (hexact _ (mem_openedHosts.mpr ⟨i, f, hf, hopens, rfl⟩))

/-- No connect or accept flowop survives where the connections have no names. -/
theorem not_leftFor_unnamed {g g' : Group} (hkeeps : KeepsProgram g g')
    (hcontrol : UnnamedControlsOf g.flowops g'.control) {i : ℕ} {f : Flowop}
    (hf : g.flowops[i]? = some f) (hopens : f.type.opens = true) :
    g'.control.filter (LeftFor g' i) = [] := by
  have hset := hcontrol.named _ (mem_openedHosts.mpr ⟨i, f, hf, hopens, rfl⟩)
  refine List.filter_eq_nil_iff.mpr fun p hp hleft => hset ?_
  rw [(leftFor_iff (hkeeps.flowops_eq ▸ hf) hopens hset).mp hleft]
  exact hcontrol.unnamed p hp

theorem exactlyOne_iff_unnamed {g g' : Group} (hkeeps : KeepsProgram g g')
    (hcontrol : UnnamedControlsOf g.flowops g'.control) :
    ExactlyOne g' ↔ openedHosts g.flowops = [] := by
  rw [ExactlyOne, hkeeps.flowops_eq, List.eq_nil_iff_forall_not_mem]
  constructor
  · intro hone h hh
    obtain ⟨i, f, hf, hopens, rfl⟩ := mem_openedHosts.mp hh
    have hlen := hone i f hf hopens
    rw [not_leftFor_unnamed hkeeps hcontrol hf hopens] at hlen
    exact absurd hlen (by simp)
  · intro hnone i f hf hopens
    exact absurd (mem_openedHosts.mpr ⟨i, f, hf, hopens, rfl⟩) (hnone _)

/-- After `create_control_connections` every connect and accept flowop of a
group goes to exactly one slave if and only if there is none, or the control
connections are not UDP and the group has no two spellings of one host name that
differ in letter case. -/
theorem controlConnections_exactlyOne_iff {options : ControlOptions} {connect : Connect}
    {w w' : Workorder} {slaves : List Protocol} (hfresh : ∀ g ∈ w.grp, g.control = [])
    (hhosts : ∀ g ∈ w.grp, g.HostsTerminated)
    (hcreate : createControlConnections options connect w = some (w', slaves)) :
    List.Forall₂
      (fun g g' => ExactlyOne g' ↔
        openedHosts g.flowops = [] ∨ (options.controlProto ≠ protocolUdp ∧ SpelledAlike g))
      w.grp w'.grp := by
  by_cases hnames : options.NamesHosts
  · refine (createControlConnections_control hnames hfresh hhosts hcreate).imp fun g g' h => ?_
    rw [exactlyOne_iff_spelledAlike h.1 h.2]
    refine ⟨fun halike => .inr ⟨hnames, halike⟩, ?_⟩
    rintro (hnone | ⟨-, halike⟩)
    · simp [SpelledAlike, hnone]
    · exact halike
  · refine (createControlConnections_unnamed hnames hfresh hhosts hcreate).imp fun g g' h => ?_
    rw [exactlyOne_iff_unnamed h.1 h.2]
    exact ⟨.inl, fun h => h.resolve_right fun hnot => hnames hnot.1⟩

/-- A profile whose two variables name one host in two spellings. -/
def twoSpellings : Workorder where
  grp :=
    [{ nthreads := 1
       ntxn := 1
       tlist :=
        [{ nflowop := 2
           iter := 1
           flist :=
            [{ type := .connect, pId := 1, options := { remotehost := HostName.ofBytes [72, 49] } },
              { type := .connect, pId := 2
                options := { remotehost := HostName.ofBytes [104, 49] } }] }] }]

theorem twoSpellings_hostsTerminated : ∀ g ∈ twoSpellings.grp, g.HostsTerminated := by
  intro g hg
  cases List.mem_singleton.mp hg
  constructor <;> simp [Group.flowops]

theorem twoSpellings_control : ∃ w' slaves,
    createControlConnections ⟨1, 20000⟩ (fun _ _ => 0) twoSpellings = some (w', slaves) :=
  ⟨_, _, rfl⟩

theorem controlConnections_exactlyOne_iff_twoSpellings : ∃ w' slaves,
    createControlConnections ⟨1, 20000⟩ (fun _ _ => 0) twoSpellings = some (w', slaves) ∧
      List.Forall₂
        (fun g g' => ExactlyOne g' ↔
          openedHosts g.flowops = [] ∨ ((1 : UInt32) ≠ protocolUdp ∧ SpelledAlike g))
        twoSpellings.grp w'.grp := by
  obtain ⟨w', slaves, hcreate⟩ := twoSpellings_control
  exact ⟨w', slaves, hcreate, controlConnections_exactlyOne_iff (by simp [twoSpellings])
    twoSpellings_hostsTerminated hcreate⟩

/-- One of the two connect flowops is executed by no slave. -/
theorem controlConnections_twoSpellings : ∃ w' slaves,
    createControlConnections ⟨1, 20000⟩ (fun _ _ => 0) twoSpellings = some (w', slaves) ∧
      (∀ g ∈ twoSpellings.grp, ∀ f ∈ g.flowops, f.type.opens = true →
        f.options.remotehost.cstr ≠ []) ∧
      ∃ g' ∈ w'.grp, ¬ ExactlyOne g' := by
  obtain ⟨w', slaves, hcreate⟩ := twoSpellings_control
  have hnames : ControlOptions.NamesHosts ⟨1, 20000⟩ := (by decide : (1 : UInt32) ≠ protocolUdp)
  have hcontrol := createControlConnections_control hnames (by simp [twoSpellings])
    twoSpellings_hostsTerminated hcreate
  obtain ⟨g', rest, ⟨hkeeps, hcontrols⟩, -, hgrp⟩ := List.forall₂_cons_left_iff.mp hcontrol
  refine ⟨w', slaves, hcreate, by decide, g', by simp [hgrp], ?_⟩
  rw [exactlyOne_iff_spelledAlike hkeeps hcontrols]
  intro halike
  have hsame := halike (HostName.ofBytes [72, 49]) (mem_openedHosts.mpr ⟨0, _, rfl, rfl, rfl⟩)
    (HostName.ofBytes [104, 49]) (mem_openedHosts.mpr ⟨1, _, rfl, rfl, rfl⟩) (by decide)
  exact absurd hsame (by decide)

/-! ## Flowops that use a connection -/

/-- Every flowop that uses a connection names the id of an earlier flowop that
opens one. -/
def ConnectionsOpened (flowops : List Flowop) : Prop :=
  ∀ (i : ℕ) (f : Flowop), flowops[i]? = some f → f.type.uses = true →
    ∃ j < i, ∃ f' : Flowop, flowops[j]? = some f' ∧ f'.type.opens = true ∧ f'.pId = f.pId

/-- Every flowop that uses a connection on the side of the slave and names it,
or names no host, comes after a connect or accept of its id that does so too. -/
def OpenedForSlave (g : Group) (host : HostName) : Prop :=
  ∀ (i : ℕ) (f : Flowop), g.flowops[i]? = some f → (flowopOpposite f.type).uses = true →
    f.AddressedTo host → ∃ j < i, ∃ f' : Flowop, g.flowops[j]? = some f' ∧
      f'.type.opens = true ∧ f'.pId = f.pId ∧ f'.AddressedTo host

theorem connectionsOpened_txCopy (g : Group) (host : HostName) :
    ConnectionsOpened (txCopy g host).flowops ↔ OpenedForSlave g host := by
  have huses : ∀ f : Flowop, (f.forSlave.nopOther host).type.uses = true ↔
      (flowopOpposite f.type).uses = true ∧ f.AddressedTo host := by
    intro f
    rw [Flowop.type_forSlave_nopOther]
    split_ifs with haddr <;> simp [haddr, FlowopType.uses]
  have hopens : ∀ f : Flowop, (f.forSlave.nopOther host).type.opens = true ↔
      f.type.opens = true ∧ f.AddressedTo host := by
    intro f
    rw [Flowop.type_forSlave_nopOther]
    split_ifs with haddr
    · simp [haddr]
    · simp [haddr, FlowopType.opens]
  simp only [ConnectionsOpened, OpenedForSlave, getElem?_flowops_txCopy, Option.map_eq_some_iff,
    forall_exists_index, and_imp]
  -- the flowops of the copy are those of the group, each at its place
  constructor
  · intro hclosed i f hf huse haddr
    obtain ⟨j, hj, f', ⟨f'', hf'', rfl⟩, hopen, hid⟩ :=
      hclosed i _ f hf rfl ((huses f).mpr ⟨huse, haddr⟩)
    exact ⟨j, hj, f'', hf'', ((hopens f'').mp hopen).1, by simpa using hid,
      ((hopens f'').mp hopen).2⟩
  · rintro hclosed i _ f hf rfl huse
    obtain ⟨huse, haddr⟩ := (huses f).mp huse
    obtain ⟨j, hj, f', hf', hopen, hid, haddr'⟩ := hclosed i f hf huse haddr
    exact ⟨j, hj, _, ⟨f', hf', rfl⟩, (hopens f').mpr ⟨hopen, haddr'⟩, by simpa using hid⟩

/-- The work orders for all slaves of a group are closed under connections if
and only if, for every slave, each flowop that uses a connection there and
names that slave or no host follows a connect or accept of its id to that slave. -/
theorem connectionsOpened_txCopy_iff (g : Group) :
    (∀ p ∈ g.control, ConnectionsOpened (txCopy g p.host).flowops) ↔
      ∀ p ∈ g.control, OpenedForSlave g p.host :=
  forall₂_congr fun p _ => connectionsOpened_txCopy g p.host

/-- `workloads/two-hosts.xml` with `h1` and `h2` for the two variables. -/
def twoHosts : Group where
  endian := uperfEndianValue
  nthreads := 2
  ntxn := 3
  tlist :=
    [{ nflowop := 2
       iter := 1
       flist :=
        [{ type := .connect
           options := { protocol := 1, remotehost := HostName.ofBytes [104, 49] } },
          { type := .connect
            pId := 1
            options := { protocol := 2, remotehost := HostName.ofBytes [104, 50] } }] },
      { nflowop := 2
        txnid := 1
        iter := 1
        duration := 100000000000
        flist :=
          [{ type := .write, options := { size := 300, count := 1 } },
            { type := .read, pId := 1, options := { size := 300, count := 1 } }] },
      { nflowop := 2
        txnid := 2
        iter := 1
        flist := [{ type := .disconnect }, { type := .disconnect, pId := 1 }] }]
  control :=
    [createProtocol 1 [104, 50] 20000, createProtocol 1 [104, 49] 20000]

/-- Every data flowop of the profile follows its connect, but the slave `h1`
gets the read from connection 1 without the connect. -/
theorem connectionsOpened_twoHosts :
    ConnectionsOpened twoHosts.flowops ∧
      ∃ p ∈ twoHosts.control, ¬ ConnectionsOpened (txCopy twoHosts p.host).flowops := by
  constructor
  · intro i f hf huse
    match i with
    | 0 | 1 => cases hf; cases huse
    | 2 | 4 => cases hf; exact ⟨0, by decide, _, rfl, rfl, rfl⟩
    | 3 | 5 => cases hf; exact ⟨1, by decide, _, rfl, rfl, rfl⟩
    | i + 6 => cases hf
  · refine ⟨createProtocol 1 [104, 49] 20000, by simp [twoHosts], ?_⟩
    rw [connectionsOpened_txCopy]
    intro hclosed
    obtain ⟨j, hj, f', hf', hopens, hid, haddr⟩ := hclosed 3 _ rfl (by decide) (.inl (by decide))
    match j with
    | 0 => cases hf'; exact absurd hid (by decide)
    | 1 => cases hf'; exact absurd haddr (by decide)
    | 2 => cases hf'; cases hopens
    | j + 3 => omega

end Uperf
