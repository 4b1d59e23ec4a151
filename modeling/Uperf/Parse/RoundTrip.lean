import Uperf.Parse.Legible
import Uperf.Parse.Accepted

/-!
# Printing and parsing

The canonical text of an abstract profile is parsed to the work order that the
profile means.  The builder is followed through the words of the profile: each
flowop is added to the last transaction, each transaction to the last group and
each group to the work order.
-/

namespace Uperf

open Lib

/-! ## Building -/

/-- The words take a builder to another one, without errors, and leave the environment as
it is. -/
structure Builds (host : Host) (b : Builder) (words : List Word) (b' : Builder) : Prop where
  behind : behind host (words.filterMap Word.symbol) = host
  run : run cleanStep b (visits host (words.filterMap Word.symbol)) = some b'

section

variable {host : Host} {b b' b'' : Builder} {words words' : List Word}

theorem Builds.nil : Builds host b [] b := ⟨rfl, rfl⟩

theorem Builds.append (h : Builds host b words b') (h' : Builds host b' words' b'') :
    Builds host b (words ++ words') b'' := by
  constructor
  · rw [List.filterMap_append, behind_append, h.behind, h'.behind]
  · rw [List.filterMap_append, visits_append, h.behind, run_append, h.run]
    exact h'.run

/-- One word, whose symbol is known. -/
theorem Builds.word {word : Word} {s : Symbol} (hs : word.symbol = some s)
    (hstep : buildStep b (s.visit host) = .ok (some b', []))
    (hafter : (s.visit host).after = host := by rfl) : Builds host b [word] b' := by
  constructor
  · rw [List.filterMap_cons_some hs]
    exact hafter
  · rw [List.filterMap_cons_some hs, List.filterMap_nil, visits, run_cons]
    exact ⟨b', cleanStep_eq_some_iff.mpr hstep, rfl⟩

/-- The word `>` is not a symbol. -/
theorem Builds.close : Builds host b [.tag (str ">")] b := ⟨rfl, rfl⟩

end

section

variable (host : Host)

/-! ## Flowops -/

/-- The builder with a transaction that is not closed, and the flowops in it. -/
def Builder.withFlowops (b : Builder) (txn : Txn) (flowops : List Flowop) : Builder :=
  { b with
    currTxn := some { txn with nflowop := .ofNat flowops.length, flist := flowops.dropLast }
    currFlowop := flowops.getLast?
    fid := flowops.length
    inTxn := true }

theorem flowopType_name (kind : FlowopKind) :
    flowopType (str kind.name) = kind.type ∧ kind.type ≠ .error := by
  cases kind <;> exact ⟨rfl, by decide⟩

/-- A flowop with its type. -/
def typedFlowop (kind : FlowopKind) (id : ℕ) : Flowop := (freshFlowop id).setType (str kind.name)

theorem typedFlowop_eq (kind : FlowopKind) (id : ℕ) :
    typedFlowop kind id = {
      options := { count := 1, repeats := 1, batchSize := 1 }
      id := .ofNat id
      type := kind.type
      execute := some (flowopGetExecuteFunc kind.type)
      name := strlcpy default (str kind.name) } := by
  rw [typedFlowop, Flowop.setType, (flowopType_name kind).1]
  rfl

section

variable (b : Builder) (txn : Txn) (flowops : List Flowop)

theorem builds_flowopStart :
    Builds host (b.withFlowops txn flowops) [.tag (str "<flowop")]
      (b.withFlowops txn (flowops ++ [freshFlowop flowops.length])) := by
  apply Builds.word (s := ⟨.flowopStart, str "<flowop", .token⟩) (by decide)
  show flowopStart (b.withFlowops txn flowops) = _
  unfold flowopStart Builder.withFlowops
  rcases List.eq_nil_or_concat flowops with rfl | ⟨before, f, rfl⟩
  · rfl
  · simp [freshFlowop, UInt32.ofNat_add, add_assoc]

theorem builds_type (f : Flowop) (kind : FlowopKind) :
    Builds host (b.withFlowops txn (flowops ++ [f])) [.assign (str "type") (str kind.name)]
      (b.withFlowops txn (flowops ++ [f.setType (str kind.name)])) := by
  apply Builds.word (s := ⟨.type, str kind.name, .tail⟩) rfl
  show flowopSetType (b.withFlowops txn (flowops ++ [f])) (str kind.name) = _
  obtain ⟨htype, herror⟩ := flowopType_name kind
  unfold flowopSetType Builder.withFlowops
  simp only [List.getLast?_concat, htype, if_neg herror, List.dropLast_concat, List.length_append,
    List.length_singleton]

theorem builds_options (f : Flowop) {options : List OptionSpec} (hne : options ≠ [])
    (hfew : options.length ≤ maxOptions) (hshort : ∀ o ∈ options, o.print.length < 100) :
    Builds host (b.withFlowops txn (flowops ++ [f]))
      [.assign (str "options") (printOptions options)]
      (b.withFlowops txn (flowops ++
        [options.foldl (fun f o => o.apply f) (optionDefaults f)])) := by
  refine Builds.word (s := ⟨.options, printOptions options, .tail⟩) rfl ?_ ?_
  · show flowopSetOptions (b.withFlowops txn (flowops ++ [f])) host (printOptions options) = _
    unfold flowopSetOptions Builder.withFlowops
    rw [flowopParseOptions_printOptions host hne hfew hshort]
    simp only [List.getLast?_concat, List.dropLast_concat, List.length_append,
      List.length_singleton, Except.bind]
  · exact foldl_afterOption_printOptions host hne hshort

/-- The words of a flowop add the flowop. -/
theorem builds_flowop (f : FlowopSpec) :
    Builds host (b.withFlowops txn flowops) f.words
      (b.withFlowops txn (flowops ++ [f.flowop flowops.length])) := by
  have htyped : Builds host (b.withFlowops txn flowops)
      ([.tag (str "<flowop")] ++ [.assign (str "type") (str f.kind.name)])
      (b.withFlowops txn (flowops ++ [typedFlowop f.kind flowops.length])) :=
    (builds_flowopStart host b txn flowops).append (builds_type host b txn flowops _ f.kind)
  have hend : Builds host (b.withFlowops txn (flowops ++ [f.flowop flowops.length]))
      [.tag (str "/>")] (b.withFlowops txn (flowops ++ [f.flowop flowops.length])) :=
    .word (s := ⟨.xmlEnd, str "/>", .token⟩) (by decide) rfl
  refine (htyped.append ?_).append hend
  by_cases hnil : f.options = []
  · rw [if_pos hnil, FlowopSpec.flowop, hnil, ← typedFlowop_eq]
    exact .nil
  · rw [if_neg hnil, FlowopSpec.flowop, ← typedFlowop_eq]
    exact builds_options host b txn flowops _ hnil f.few f.short

/-- The words of all flowops of a transaction add them in order. -/
theorem builds_flowops (specs : List FlowopSpec) :
    Builds host (b.withFlowops txn flowops) (specs.flatMap FlowopSpec.words)
      (b.withFlowops txn
        (flowops ++ specs.mapIdx fun id f => f.flowop (flowops.length + id))) := by
  induction specs generalizing flowops with
  | nil =>
      rw [List.flatMap_nil, List.mapIdx_nil, List.append_nil]
      exact .nil
  | cons f rest ih =>
      have hrest := ih (flowops ++ [f.flowop flowops.length])
      have hindex : ∀ id, (flowops ++ [f.flowop flowops.length]).length + id =
          flowops.length + (id + 1) := by
        intro id
        rw [List.length_append, List.length_singleton]
        omega
      simp only [hindex, List.append_assoc, List.singleton_append] at hrest
      rw [List.flatMap_cons, List.mapIdx_cons]
      exact (builds_flowop host b txn flowops f).append hrest

end

/-! ## Transactions -/

/-- The elements before the last one, and the last one. -/
theorem dropLast_append_toList {α : Type*} (l : List α) :
    l.dropLast ++ l.getLast?.toList = l := by
  rcases List.eq_nil_or_concat l with rfl | ⟨before, a, rfl⟩
  · rfl
  · simp

/-- The transaction is all of its flowops. -/
theorem txn_withFlowops (b : Builder) (txn : Txn) (flowops : List Flowop) :
    (b.withFlowops txn flowops).txn =
      some { txn with nflowop := .ofNat flowops.length, flist := flowops } := by
  simp [Builder.txn, Builder.withFlowops, dropLast_append_toList]

/-- The builder with a group that is not closed, and the transactions in it. -/
structure Builder.HasTxns (b : Builder) (name : CharArray nameLen) (groups : List Group)
    (g : Group) (txns : List Txn) : Prop where
  name : b.name = name
  groups : b.groups = groups
  currGrp : b.currGrp = some { g with ntxn := .ofNat txns.length, tlist := txns.dropLast }
  txn : b.txn = txns.getLast?
  txnid : b.txnid = txns.length
  inGroup : b.inGroup = true

theorem builds_span (b : Builder) (txn : Txn) (span : TxnSpan) :
    Builds host (b.withFlowops txn []) span.words (b.withFlowops (span.apply txn) []) := by
  cases span with
  | once => exact .nil
  | iterations n =>
      apply Builds.word (s := ⟨.iterations, decimal n.val, .tail⟩) rfl
      simp only [buildStep, Symbol.visit, string2int_decimal n.lt, UInt64.ofInt_natCast]
      rfl
  | duration n haccepted =>
      apply Builds.word (s := ⟨.duration, secondsText n, .tail⟩) rfl
      simp only [buildStep, Symbol.visit, string2nsec_seconds haccepted]
      rfl

section

variable {b : Builder} {name : CharArray nameLen} {groups : List Group} {g : Group}
  {txns : List Txn}

theorem builds_txnStart (hb : b.HasTxns name groups g txns) :
    ∃ b' : Builder, b'.name = name ∧ b'.groups = groups ∧ b'.currGrp = some { g with
        ntxn := .ofNat (txns.length + 1), tlist := txns } ∧ b'.txnid = txns.length + 1 ∧
      b'.inGroup = true ∧ Builds host b [.tag (str "<transaction")]
        (b'.withFlowops (freshTxn txns.length) []) := by
  refine ⟨{ b with
    currGrp := some { g with ntxn := .ofNat (txns.length + 1), tlist := txns }
    txnid := txns.length + 1 }, hb.name, hb.groups, rfl, rfl, hb.inGroup, ?_⟩
  apply Builds.word (s := ⟨.txnStart, str "<transaction", .token⟩) (by decide)
  show txnStart b = _
  unfold txnStart
  rw [hb.currGrp, hb.txn, hb.inGroup, hb.txnid, UInt32.ofNat_add]
  -- without a transaction the list of the group is empty
  rcases List.eq_nil_or_concat txns with rfl | ⟨before, txn, rfl⟩
  · rfl
  · simp [Builder.withFlowops]
    rfl

/-- The attribute of a transaction leaves its name alone. -/
theorem TxnSpec.txn_eq (t : TxnSpec) (txnid : ℕ) :
    t.txn txnid = { t.span.apply (freshTxn txnid) with
      nflowop := .ofNat t.flowops.length
      flist := t.flowops.mapIdx fun id f => f.flowop id } := by
  rw [TxnSpec.txn]
  cases t.span <;> rfl

/-- The words of a transaction add the transaction. -/
theorem builds_txn (hb : b.HasTxns name groups g txns) (t : TxnSpec) :
    ∃ b' : Builder, Builds host b t.words b' ∧
      b'.HasTxns name groups g (txns ++ [t.txn txns.length]) := by
  obtain ⟨mid, hname, hgroups, hgrp, htxnid, hin, hstart⟩ := builds_txnStart host hb
  let header := t.span.apply (freshTxn txns.length)
  let flowops := t.flowops.mapIdx fun id f => f.flowop id
  have hspan := builds_span host mid (freshTxn txns.length) t.span
  have hflowops : Builds host (mid.withFlowops header []) (t.flowops.flatMap FlowopSpec.words)
      (mid.withFlowops header flowops) := by
    simpa using builds_flowops host mid header [] t.flowops
  have hend : Builds host (mid.withFlowops header flowops) [.tag (str "</transaction>")]
      { mid.withFlowops header flowops with inTxn := false } :=
    .word (s := ⟨.txnEnd, str "</transaction>", .token⟩) (by decide) rfl
  have htxn : t.txn txns.length = { header with
      nflowop := .ofNat flowops.length, flist := flowops } := by
    rw [TxnSpec.txn_eq, List.length_mapIdx]
  -- the words of the tag, its attributes, its flowops and its end
  refine ⟨_, (((hstart.append hspan).append .close).append hflowops).append hend, ?_⟩
  refine {
    name := hname
    groups := hgroups
    currGrp := ?_
    txn := ?_
    txnid := ?_
    inGroup := hin }
  · rw [List.dropLast_concat, List.length_append, List.length_singleton]
    exact hgrp
  · rw [List.getLast?_concat, htxn]
    exact txn_withFlowops mid header flowops
  · rw [List.length_append, List.length_singleton]
    exact htxnid

/-- The words of all transactions of a group add them in order. -/
theorem builds_txns (hb : b.HasTxns name groups g txns) (specs : List TxnSpec) :
    ∃ b' : Builder, Builds host b (specs.flatMap TxnSpec.words) b' ∧
      b'.HasTxns name groups g
        (txns ++ specs.mapIdx fun txnid t => t.txn (txns.length + txnid)) := by
  induction specs generalizing b txns with
  | nil =>
      refine ⟨b, .nil, ?_⟩
      rw [List.mapIdx_nil, List.append_nil]
      exact hb
  | cons t rest ih =>
      obtain ⟨mid, hbuilds, hmid⟩ := builds_txn host hb t
      obtain ⟨b', hrest, hb'⟩ := ih hmid
      have hindex : ∀ txnid, (txns ++ [t.txn txns.length]).length + txnid =
          txns.length + (txnid + 1) := by
        intro txnid
        rw [List.length_append, List.length_singleton]
        omega
      simp only [hindex, List.append_assoc, List.singleton_append] at hb'
      refine ⟨b', ?_, ?_⟩
      · rw [List.flatMap_cons]
        exact hbuilds.append hrest
      · rw [List.mapIdx_cons]
        exact hb'

/-! ## Groups -/

theorem builds_strands (strands : Strands) (hb : b.HasTxns name groups g [])
    (hflag : g.strandFlag = 0) :
    ∃ b' : Builder, Builds host b [strands.word] b' ∧
      b'.HasTxns name groups (strands.apply g) [] := by
  -- the flag of the group is set by the one attribute that it has
  have hset : ∀ flag : UInt32, g.strandFlag ||| flag = flag := by
    intro flag
    rw [hflag, UInt32.zero_or]
  have hin : ¬ ¬ b.inGroup = true := not_not.mpr hb.inGroup
  have hgrp := hb.currGrp
  cases strands with
  | threads n =>
      refine ⟨{ b with currGrp := some { g with
        nthreads := .ofNat n.val, strandFlag := strandTypeThread, ntxn := 0, tlist := [] } }, ?_,
        ⟨hb.name, hb.groups, rfl, hb.txn, hb.txnid, hb.inGroup⟩⟩
      apply Builds.word (s := ⟨.nthreads, decimal n.val, .tail⟩) rfl
      simp only [buildStep, Symbol.visit, string2int_decimal n.lt, UInt32.ofInt_natCast, onGroup,
        if_neg hin, hgrp, hset]
      rfl
  | processes n =>
      refine ⟨{ b with currGrp := some { g with
        nthreads := .ofNat n.val, strandFlag := strandTypeProcess, ntxn := 0, tlist := [] } }, ?_,
        ⟨hb.name, hb.groups, rfl, hb.txn, hb.txnid, hb.inGroup⟩⟩
      apply Builds.word (s := ⟨.nprocesses, decimal n.val, .tail⟩) rfl
      simp only [buildStep, Symbol.visit, string2int_decimal n.lt, UInt32.ofInt_natCast, onGroup,
        if_neg hin, hgrp, hset]
      rfl

theorem builds_groupStart (hroom : b.grp.length < maxThreadGroups) :
    ∃ b' : Builder, Builds host b [.tag (str "<group")] b' ∧
      b'.HasTxns b.name b.grp (freshGroup b.grp.length) [] := by
  refine ⟨{ b with
    groups := b.grp
    currGrp := some (freshGroup b.grp.length)
    currTxn := none
    currFlowop := none
    txnid := 0
    inGroup := true }, ?_, ⟨rfl, rfl, rfl, rfl, rfl, rfl⟩⟩
  apply Builds.word (s := ⟨.groupStart, str "<group", .token⟩) (by decide)
  show groupStart b = _
  rw [groupStart, if_neg (Nat.not_le.mpr hroom)]

/-- The words of a group add the group. -/
theorem builds_group (hroom : b.grp.length < maxThreadGroups) (g : GroupSpec) :
    ∃ b' : Builder, Builds host b g.words b' ∧ b'.name = b.name ∧
      b'.grp = b.grp ++ [g.group b.grp.length] := by
  obtain ⟨started, hstart, hstarted⟩ := builds_groupStart host hroom
  obtain ⟨counted, hcount, hcounted⟩ := builds_strands host g.strands hstarted rfl
  obtain ⟨filled, hfill, hfilled⟩ := builds_txns host hcounted g.txns
  have hend : Builds host filled [.tag (str "</group>")] { filled with inGroup := false } :=
    .word (s := ⟨.groupEnd, str "</group>", .token⟩) (by decide) rfl
  refine ⟨_, (((hstart.append hcount).append .close).append hfill).append hend, hfilled.name, ?_⟩
  show filled.grp = _
  have hlist : (List.mapIdx (fun txnid t => t.txn txnid) g.txns).length = g.txns.length :=
    List.length_mapIdx
  simp only [List.nil_append, List.length_nil, Nat.zero_add] at hfilled
  unfold Builder.grp
  rw [hfilled.groups, hfilled.currGrp, hfilled.txn]
  simp only [Option.map_some, Option.toList_some, dropLast_append_toList, hlist, GroupSpec.group]
  cases g.strands <;> rfl

/-! ## Profiles -/

/-- The words of all groups add them in order. -/
theorem builds_groups (specs : List GroupSpec)
    (hroom : b.grp.length + specs.length ≤ maxThreadGroups) :
    ∃ b' : Builder, Builds host b (specs.flatMap GroupSpec.words) b' ∧ b'.name = b.name ∧
      b'.grp = b.grp ++ specs.mapIdx fun ngrp g => g.group (b.grp.length + ngrp) := by
  induction specs generalizing b with
  | nil => exact ⟨b, .nil, rfl, by simp⟩
  | cons g rest ih =>
      rw [List.length_cons] at hroom
      obtain ⟨mid, hbuilds, hmidname, hmid⟩ := builds_group host (b := b) (by omega) g
      have hlength : mid.grp.length = b.grp.length + 1 := by
        rw [hmid, List.length_append, List.length_singleton]
      obtain ⟨b', hrest, hname, hb'⟩ := ih (b := mid) (by omega)
      refine ⟨b', ?_, hname.trans hmidname, ?_⟩
      · rw [List.flatMap_cons]
        exact hbuilds.append hrest
      · have hindex : ∀ ngrp, b.grp.length + 1 + ngrp = b.grp.length + (ngrp + 1) := by omega
        rw [hb', hlength, hmid, List.mapIdx_cons, List.append_assoc, List.singleton_append]
        simp only [hindex, Nat.add_zero]

theorem builds_profile (p : ProfileSpec) :
    ∃ b' : Builder, Builds host {} p.words b' ∧ b'.workorder = p.workorder := by
  have hstart : Builds host {} ([.tag (str "<profile")] ++ [.tag (str ">")]) {} :=
    (Builds.word (s := ⟨.profileStart, str "<profile", .token⟩) (by decide) rfl).append .close
  obtain ⟨b', hgroups, hname, hgrp⟩ := builds_groups host (b := {}) p.groups
    (by simpa [Builder.grp] using p.few)
  have hend : Builds host b' [.tag (str "</profile>")] b' :=
    .word (s := ⟨.profileEnd, str "</profile>", .token⟩) (by decide) rfl
  refine ⟨b', (hstart.append hgroups).append hend, ?_⟩
  rw [Builder.workorder, hname, hgrp]
  simp [ProfileSpec.workorder, Builder.grp]

end

/-! ## The round trip -/

theorem ne_zero_of_mem_print {word : Word} (h : Spelled word) {c : UInt8} (hc : c ∈ word.print) :
    c ≠ 0 := by
  cases h with
  | tag hne hplain hopen hfit => exact (plainChar_iff.mp (hplain c hc)).2.2.2
  | @assign key value hne hkey hvalue hopen hfit =>
      simp only [Word.print, List.mem_append, List.mem_cons, List.not_mem_nil, or_false] at hc
      rcases hc with (hc | rfl | rfl | hc) | rfl
      · exact (plainChar_iff.mp (hkey c hc)).2.2.2
      · decide
      · decide
      · exact (quotedChar_iff.mp (hvalue c hc)).2.2
      · decide

theorem ne_zero_of_mem_printWords {words : List Word} (hwords : ∀ word ∈ words, Spelled word)
    (sep : ℕ → Separator) (i : ℕ) {c : UInt8} (hc : c ∈ printWords sep i words) : c ≠ 0 := by
  induction words generalizing i with
  | nil => cases hc
  | cons word rest ih =>
      rw [printWords, List.mem_append] at hc
      rcases hc with hc | hc
      · exact ne_zero_of_mem_print (hwords word List.mem_cons_self) hc
      · split at hc
        · cases hc
        · rcases List.mem_cons.mp hc with rfl | hc
          · cases sep i <;> decide
          · exact ih (fun w hw => hwords w (List.mem_cons_of_mem word hw)) (i + 1) hc

/-- The buffer holds the words; the newline behind them is overwritten. -/
theorem profileText_print (p : ProfileSpec) (sep : ℕ → Separator) :
    profileText (p.print sep) = printWords sep 0 p.words := by
  have hchars : ∀ c ∈ printWords sep 0 p.words, decide (c ≠ 0) = true := by
    intro c hc
    exact decide_eq_true
      (ne_zero_of_mem_printWords (fun word hword => (p.legible word hword).spelled) sep 0 hc)
  rw [profileText, ProfileSpec.print, List.dropLast_concat, List.takeWhile_eq_self_iff.mpr hchars]

/-- Printing an abstract profile and parsing the text gives the work order that
the profile means, without an error, on every host and for every choice of
separators. -/
theorem parseAppProfile_print (p : ProfileSpec) (sep : ℕ → Separator) :
    parseAppProfile host (p.print sep) = .ok (some p.workorder, []) := by
  obtain ⟨b, hbuilds, hworkorder⟩ := builds_profile host p
  have hne : p.print sep ≠ [] := by simp [ProfileSpec.print]
  rw [parseAppProfile_eq_some_iff hne]
  refine ⟨rfl, p.words.filterMap Word.symbol, b, ?_, hbuilds.run, hworkorder.symm⟩
  · rw [profileText_print]
    exact parse_printWords host (fun word hword => (p.legible word hword).spelled)
      (fun word hword => (p.legible word hword).tidy) sep 0

end

end Uperf
