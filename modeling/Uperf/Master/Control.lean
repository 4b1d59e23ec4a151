import Uperf.Workorder

/-!
# Control connections

The master opens a control connection to every host named by a connect or
accept flowop of a group, unless the group already has one to a host of that
name.  `new_control_connection` looks for it without regard to letter case, so
the list of a group holds, of all spellings of a name, the one that came first
(`createControlConnections_control`).  Over UDP the connections have no names, and
every flowop gets one of its own (`createControlConnections_unnamed`).
-/

namespace Uperf

/-- The `connect` function of a protocol, given the number of control
connections made so far. -/
abbrev Connect := ℕ → Protocol → Int

/-- The fields of `options` that name the control service. -/
structure ControlOptions where
  controlProto : UInt32
  masterPort : Int32

/-- The objects of the control service keep the name they were created for. -/
def ControlOptions.NamesHosts (options : ControlOptions) : Prop :=
  options.controlProto ≠ protocolUdp

/-- What the two loops change: the group and the global array `slaves`. -/
abbrev ControlState := Group × List Protocol

/-- `new_control_connection`. -/
def newControlConnection (options : ControlOptions) (connect : Connect) (host : HostName)
    (st : ControlState) : Option ControlState :=
  let (g, slaves) := st
  if host.isEmpty then none
  else if g.control.any fun p => strncasecmpEq host p.host maxHostName then some (g, slaves)
  else
    let p := createProtocol options.controlProto host.cstr options.masterPort
    if connect slaves.length p = 0 then
      some ({ g with control := p :: g.control }, slaves ++ [p])
    else none

/-- The innermost loop body of `create_control_connections`. -/
def controlForFlowop (options : ControlOptions) (connect : Connect) (st : ControlState)
    (f : Flowop) : Option ControlState :=
  if f.type.opens then do
    let (g, slaves) ← newControlConnection options connect f.options.remotehost st
    some ({ g with protocols := g.protocols.setIfInBounds f.options.protocol.toNat 1 }, slaves)
  else some st

/-- The two inner loops of `create_control_connections`; the flowops of a group
are those of its transactions, one after the other. -/
def controlForGroup (options : ControlOptions) (connect : Connect) (st : ControlState) :
    Option ControlState :=
  st.1.flowops.foldlM (controlForFlowop options connect) st

/-- The outer loop of `create_control_connections`. -/
def controlForGroups (options : ControlOptions) (connect : Connect) :
    List Group → List Protocol → Option (List Group × List Protocol)
  | [], slaves => some ([], slaves)
  | g :: rest, slaves => do
      let (g, slaves) ← controlForGroup options connect (g, slaves)
      let (rest, slaves) ← controlForGroups options connect rest slaves
      some (g :: rest, slaves)

/-- `create_control_connections`. -/
def createControlConnections (options : ControlOptions) (connect : Connect) (w : Workorder) :
    Option (Workorder × List Protocol) := do
  let (grp, slaves) ← controlForGroups options connect w.grp []
  some ({ w with grp := grp }, slaves)

/-! ## The names in a list of control connections -/

/-- A host name without its letter case. -/
def HostName.folded (h : HostName) : List UInt8 := h.cstr.map tolower

/-- The hosts of the connect and accept flowops. -/
def openedHosts (flowops : List Flowop) : List HostName :=
  (flowops.filter fun f => f.type.opens).map fun f => f.options.remotehost

/-- The control connections made for the flowops `done`: their names are
pairwise different without regard to case, each is the first spelling among the
flowops, and every flowop finds one. -/
structure ControlsOf (done : List Flowop) (control : List Protocol) : Prop where
  distinct : control.Pairwise fun p q => p.host.folded ≠ q.host.folded
  terminated : ∀ p ∈ control, p.host.Terminated
  named : ∀ p ∈ control, ∃ h ∈ openedHosts done, p.host.cstr = h.cstr
  found : ∀ h ∈ openedHosts done, h.cstr ≠ [] ∧ ∃ p ∈ control, p.host.folded = h.folded

/-- The same over UDP, where `host` is empty in every connection. -/
structure UnnamedControlsOf (done : List Flowop) (control : List Protocol) : Prop where
  unnamed : ∀ p ∈ control, p.host.cstr = []
  terminated : ∀ p ∈ control, p.host.Terminated
  named : ∀ h ∈ openedHosts done, h.cstr ≠ []

/-- The fields of the group that the loops leave alone. -/
structure KeepsProgram (g g' : Group) : Prop where
  head : g'.toGroupHead = g.toGroupHead
  tlist : g'.tlist = g.tlist

section

variable {options : ControlOptions} {connect : Connect}

theorem host_createProtocol (hnames : options.NamesHosts) (host : List UInt8) (port : Int32) :
    (createProtocol options.controlProto host port).host =
      strlcpy (CharArray.zero maxHostName) host :=
  if_neg hnames

theorem host_createProtocol_udp (hnames : ¬ options.NamesHosts) (host : List UInt8)
    (port : Int32) :
    (createProtocol options.controlProto host port).host = CharArray.zero maxHostName :=
  if_pos (not_not.mp hnames)

/-- The list stays as it is, with a connection to the host, or gets a new one. -/
theorem newControlConnection_spec {host : HostName} {st st' : ControlState}
    (hnew : newControlConnection options connect host st = some st') :
    host.cstr ≠ [] ∧ KeepsProgram st.1 st'.1 ∧
      ((st'.1.control = st.1.control ∧ ∃ p ∈ st.1.control, p.host.folded = host.folded) ∨
        st'.1.control =
            createProtocol options.controlProto host.cstr options.masterPort :: st.1.control ∧
          ∀ q ∈ st.1.control, q.host.folded ≠ host.folded) := by
  obtain ⟨g, slaves⟩ := st
  simp only [newControlConnection] at hnew
  split at hnew
  · cases hnew
  · rename_i hempty
    have hne : host.cstr ≠ [] := mt CharArray.isEmpty_iff.mpr hempty
    split at hnew
    · -- a control connection to the host is there
      rename_i hfound
      cases hnew
      obtain ⟨p, hp, hsame⟩ := List.any_eq_true.mp hfound
      exact ⟨hne, ⟨rfl, rfl⟩, .inl ⟨rfl, p, hp, (strncasecmpEq_iff.mp hsame).symm⟩⟩
    · rename_i hfresh
      split at hnew
      · cases hnew
        refine ⟨hne, ⟨rfl, rfl⟩, .inr ⟨rfl, fun q hq hsame => ?_⟩⟩
        exact hfresh (List.any_eq_true.mpr ⟨q, hq, strncasecmpEq_iff.mpr hsame.symm⟩)
      · cases hnew

/-- What a connect or accept flowop changes is what `new_control_connection` does. -/
theorem controlForFlowop_cases {f : Flowop} {st st' : ControlState}
    (hstep : controlForFlowop options connect st f = some st') :
    (f.type.opens = true ∧ ∃ made,
        newControlConnection options connect f.options.remotehost st = some made ∧
          KeepsProgram made.1 st'.1 ∧ st'.1.control = made.1.control) ∨
      (f.type.opens = false ∧ st' = st) := by
  unfold controlForFlowop at hstep
  split at hstep
  · rename_i hopens
    obtain ⟨made, hnew, hst'⟩ := Option.bind_eq_some_iff.mp hstep
    cases hst'
    exact .inl ⟨hopens, made, hnew, ⟨rfl, rfl⟩, rfl⟩
  · rename_i hopens
    cases hstep
    exact .inr ⟨by simpa using hopens, rfl⟩

theorem KeepsProgram.trans {g g' g'' : Group} (h : KeepsProgram g g') (h' : KeepsProgram g' g'') :
    KeepsProgram g g'' :=
  ⟨h'.head.trans h.head, h'.tlist.trans h.tlist⟩

theorem ControlsOf.nil : ControlsOf [] [] :=
  ⟨.nil, by simp, by simp, by simp [openedHosts]⟩

theorem UnnamedControlsOf.nil : UnnamedControlsOf [] [] :=
  ⟨by simp, by simp, by simp [openedHosts]⟩

theorem openedHosts_append (done : List Flowop) (f : Flowop) :
    openedHosts (done ++ [f]) =
      openedHosts done ++ if f.type.opens then [f.options.remotehost] else [] := by
  unfold openedHosts
  split_ifs with hopens <;> simp [hopens]

/-- The host of a flowop is one that has a connection. -/
theorem ControlsOf.reuse {done : List Flowop} {f : Flowop} {control : List Protocol}
    (h : ControlsOf done control) (hopens : f.type.opens) (hne : f.options.remotehost.cstr ≠ [])
    {p : Protocol} (hp : p ∈ control) (hsame : p.host.folded = f.options.remotehost.folded) :
    ControlsOf (done ++ [f]) control := by
  have hhosts : openedHosts (done ++ [f]) = openedHosts done ++ [f.options.remotehost] := by
    rw [openedHosts_append, if_pos hopens]
  refine ⟨h.distinct, h.terminated, fun q hq => ?_, ?_⟩
  · obtain ⟨host, hhost, hname⟩ := h.named q hq
    exact ⟨host, by simp [hhosts, hhost], hname⟩
  · rw [hhosts]
    intro host hhost
    rcases List.mem_append.mp hhost with hhost | hhost
    · exact h.found host hhost
    · cases List.mem_singleton.mp hhost
      exact ⟨hne, p, hp, hsame⟩

/-- A connection is made for the host of a flowop. -/
theorem ControlsOf.push {done : List Flowop} {f : Flowop} {control : List Protocol}
    (h : ControlsOf done control) (hopens : f.type.opens) (hne : f.options.remotehost.cstr ≠ [])
    {p : Protocol} (hname : p.host.cstr = f.options.remotehost.cstr) (hterm : p.host.Terminated)
    (hfresh : ∀ q ∈ control, q.host.folded ≠ f.options.remotehost.folded) :
    ControlsOf (done ++ [f]) (p :: control) := by
  have hhosts : openedHosts (done ++ [f]) = openedHosts done ++ [f.options.remotehost] := by
    rw [openedHosts_append, if_pos hopens]
  -- the connection has the name that it is made for
  have hfolded : p.host.folded = f.options.remotehost.folded := by
    rw [HostName.folded, HostName.folded, hname]
  constructor
  · refine List.pairwise_cons.mpr ⟨fun q hq => ?_, h.distinct⟩
    rw [hfolded]
    exact (hfresh q hq).symm
  · exact List.forall_mem_cons.mpr ⟨hterm, h.terminated⟩
  · refine List.forall_mem_cons.mpr ⟨⟨f.options.remotehost, by simp [hhosts], hname⟩, ?_⟩
    intro q hq
    obtain ⟨host, hhost, hqname⟩ := h.named q hq
    exact ⟨host, by simp [hhosts, hhost], hqname⟩
  · rw [hhosts]
    intro host hhost
    rcases List.mem_append.mp hhost with hhost | hhost
    · obtain ⟨hset, q, hq, hsame⟩ := h.found host hhost
      exact ⟨hset, q, List.mem_cons_of_mem _ hq, hsame⟩
    · cases List.mem_singleton.mp hhost
      exact ⟨hne, p, List.mem_cons_self, hfolded⟩

/-- What one flowop does to the list. -/
theorem ControlsOf.step (hnames : options.NamesHosts) {done : List Flowop} {f : Flowop}
    {st st' : ControlState} (hf : f.options.remotehost.Terminated)
    (hinv : ControlsOf done st.1.control)
    (hstep : controlForFlowop options connect st f = some st') :
    KeepsProgram st.1 st'.1 ∧ ControlsOf (done ++ [f]) st'.1.control := by
  rcases controlForFlowop_cases hstep with ⟨hopens, made, hnew, hkeeps', hsame⟩ | ⟨hopens, rfl⟩
  · obtain ⟨hne, hkeeps, hcases⟩ := newControlConnection_spec hnew
    refine ⟨hkeeps.trans hkeeps', ?_⟩
    rw [hsame]
    rcases hcases with ⟨hcontrol, p, hp, hfound⟩ | ⟨hcontrol, hfresh⟩
    · rw [hcontrol]
      exact hinv.reuse hopens hne hp hfound
    · -- the name is kept, as the protocol is not UDP
      have hhost := host_createProtocol hnames f.options.remotehost.cstr options.masterPort
      rw [hcontrol]
      refine hinv.push hopens hne ?_ ?_ hfresh
      · rw [hhost, cstr_strlcpy_cstr _ hf]
      · rw [hhost]
        exact terminated_strlcpy _ _
  · -- the flowop opens nothing
    have hhosts : openedHosts (done ++ [f]) = openedHosts done := by
      rw [openedHosts_append, if_neg (by simp [hopens]), List.append_nil]
    refine ⟨⟨rfl, rfl⟩, hinv.distinct, hinv.terminated, ?_, ?_⟩
    · rw [hhosts]
      exact hinv.named
    · rw [hhosts]
      exact hinv.found

theorem UnnamedControlsOf.step (hnames : ¬ options.NamesHosts) {done : List Flowop} {f : Flowop}
    {st st' : ControlState} (hinv : UnnamedControlsOf done st.1.control)
    (hstep : controlForFlowop options connect st f = some st') :
    KeepsProgram st.1 st'.1 ∧ UnnamedControlsOf (done ++ [f]) st'.1.control := by
  rcases controlForFlowop_cases hstep with ⟨hopens, made, hnew, hkeeps', hsame⟩ | ⟨hopens, rfl⟩
  · obtain ⟨hne, hkeeps, hcases⟩ := newControlConnection_spec hnew
    -- a connection is made for names only
    have hnamed : ∀ h ∈ openedHosts (done ++ [f]), h.cstr ≠ [] := by
      rw [openedHosts_append, if_pos hopens]
      intro h hh
      rcases List.mem_append.mp hh with hh | hh
      · exact hinv.named h hh
      · rwa [List.mem_singleton.mp hh]
    refine ⟨hkeeps.trans hkeeps', ?_⟩
    rw [hsame]
    rcases hcases with ⟨hcontrol, -⟩ | ⟨hcontrol, -⟩
    · rw [hcontrol]
      exact ⟨hinv.unnamed, hinv.terminated, hnamed⟩
    · have hhost := host_createProtocol_udp hnames f.options.remotehost.cstr options.masterPort
      rw [hcontrol]
      refine ⟨List.forall_mem_cons.mpr ⟨?_, hinv.unnamed⟩,
        List.forall_mem_cons.mpr ⟨?_, hinv.terminated⟩, hnamed⟩
      · rw [hhost]
        decide
      · rw [hhost]
        exact CharArray.terminated_zero
  · refine ⟨⟨rfl, rfl⟩, hinv.unnamed, hinv.terminated, ?_⟩
    rw [openedHosts_append, if_neg (by simp [hopens]), List.append_nil]
    exact hinv.named

/-- A property of the list that every flowop keeps holds after all flowops of a
group. -/
theorem controlForGroup_control {inv : List Flowop → List Protocol → Prop}
    (hstep : ∀ done f st st', f.options.remotehost.Terminated → inv done st.1.control →
      controlForFlowop options connect st f = some st' →
        KeepsProgram st.1 st'.1 ∧ inv (done ++ [f]) st'.1.control)
    {todo : List Flowop} (htodo : ∀ f ∈ todo, f.options.remotehost.Terminated)
    {done : List Flowop} {st st' : ControlState} (hinv : inv done st.1.control)
    (hrun : todo.foldlM (controlForFlowop options connect) st = some st') :
    KeepsProgram st.1 st'.1 ∧ inv (done ++ todo) st'.1.control := by
  induction todo generalizing done st with
  | nil =>
      cases hrun
      exact ⟨⟨rfl, rfl⟩, by simpa using hinv⟩
  | cons f rest ih =>
      rw [List.foldlM_cons] at hrun
      obtain ⟨st'', hf, hrest⟩ := Option.bind_eq_some_iff.mp hrun
      obtain ⟨hkeeps, hinv'⟩ := hstep _ _ _ _ (htodo f (by simp)) hinv hf
      obtain ⟨hkeeps', hinv''⟩ := ih (fun f' hf' => htodo f' (by simp [hf'])) hinv' hrest
      exact ⟨hkeeps.trans hkeeps', by simpa using hinv''⟩

theorem controlForGroups_control {inv : List Flowop → List Protocol → Prop} (hnil : inv [] [])
    (hstep : ∀ done f st st', f.options.remotehost.Terminated → inv done st.1.control →
      controlForFlowop options connect st f = some st' →
        KeepsProgram st.1 st'.1 ∧ inv (done ++ [f]) st'.1.control)
    {groups groups' : List Group} {slaves slaves' : List Protocol}
    (hfresh : ∀ g ∈ groups, g.control = []) (hhosts : ∀ g ∈ groups, g.HostsTerminated)
    (hloop : controlForGroups options connect groups slaves = some (groups', slaves')) :
    List.Forall₂ (fun g g' => KeepsProgram g g' ∧ inv g.flowops g'.control) groups groups' := by
  induction groups generalizing groups' slaves slaves' with
  | nil =>
      cases hloop
      exact .nil
  | cons g rest ih =>
      obtain ⟨⟨g', made⟩, hg', htail⟩ := Option.bind_eq_some_iff.mp hloop
      obtain ⟨⟨rest', made'⟩, hrest, hgroups⟩ := Option.bind_eq_some_iff.mp htail
      cases hgroups
      have hinv : inv [] g.control := by
        rw [hfresh g (by simp)]
        exact hnil
      refine .cons (controlForGroup_control hstep (hhosts g (by simp)).remotehost hinv hg')
        (ih ?_ ?_ hrest)
      · exact fun g hg => hfresh g (List.mem_cons_of_mem _ hg)
      · exact fun g hg => hhosts g (List.mem_cons_of_mem _ hg)

/-- After success the control connections of every group are those of its
connect and accept flowops, and its program is as it was. -/
theorem createControlConnections_control (hnames : options.NamesHosts) {w w' : Workorder}
    {slaves : List Protocol} (hfresh : ∀ g ∈ w.grp, g.control = [])
    (hhosts : ∀ g ∈ w.grp, g.HostsTerminated)
    (hcreate : createControlConnections options connect w = some (w', slaves)) :
    List.Forall₂ (fun g g' => KeepsProgram g g' ∧ ControlsOf g.flowops g'.control)
      w.grp w'.grp := by
  obtain ⟨⟨grp, slaves'⟩, hloop, hw'⟩ := Option.bind_eq_some_iff.mp hcreate
  cases hw'
  exact controlForGroups_control ControlsOf.nil (fun _ _ _ _ hf hinv => hinv.step hnames hf)
    hfresh hhosts hloop

/-- Over UDP no connection of a group has a name. -/
theorem createControlConnections_unnamed (hnames : ¬ options.NamesHosts) {w w' : Workorder}
    {slaves : List Protocol} (hfresh : ∀ g ∈ w.grp, g.control = [])
    (hhosts : ∀ g ∈ w.grp, g.HostsTerminated)
    (hcreate : createControlConnections options connect w = some (w', slaves)) :
    List.Forall₂ (fun g g' => KeepsProgram g g' ∧ UnnamedControlsOf g.flowops g'.control)
      w.grp w'.grp := by
  obtain ⟨⟨grp, slaves'⟩, hloop, hw'⟩ := Option.bind_eq_some_iff.mp hcreate
  cases hw'
  exact controlForGroups_control UnnamedControlsOf.nil (fun _ _ _ _ _ hinv => hinv.step hnames)
    hfresh hhosts hloop

end

end Uperf
