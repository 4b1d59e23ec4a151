import Mathlib.Data.List.FinRange
import Uperf.Accepts
import Uperf.Netstat.Listing

/-!
# Snapshots of the interfaces

`netstat_snap` reads the listing twice.  At the beginning it records one interface after the
other in `nics`, and at the end it looks each of them up by its name.

* `snapBegin_eq`: the first listing gives one entry for each line, as long as there is room;
* `snapEnd_eq`: the second one adds to the entry of a line the numbers of the line with the
  same name.

Nothing asks whether there is room, so that listings whose first one has more interfaces than
the array are not paired.  With room they are if the interfaces can be told apart by the one
word that is in the name of each (`paired_cases`).
-/

namespace Uperf

open Lib

namespace Netstat

/-- `MAX_NETS`. -/
def maxNets : ℕ := 256

/-- `INTERFACE_LEN`. -/
abbrev interfaceLen : ℕ := 32

/-- `struct _nic`. -/
structure Nic where
  s0 : PacketStats := {}
  s1 : PacketStats := {}
  interface : CharArray interfaceLen
deriving DecidableEq

/-- `SNAP_BEGIN` and `SNAP_END`. -/
inductive SnapType where
  | snapBegin
  | snapEnd
deriving DecidableEq

/-- `find_nic`; `none` is `-1`. -/
def findNic (nics : List Nic) (name : List UInt8) : Option ℕ :=
  nics.findIdx? fun nic => strncmpEq nic.interface name interfaceLen

/-- The body of the loop of `netstat_snap`, where `nics` are the first `no_nics` entries.
Without a result it writes behind the array, or has no name to work with. -/
def snapLine (cols : Columns) (snaptype : SnapType) (nics : List Nic) (buffer : List UInt8) :
    Option (List Nic) :=
  match snaptype, (tokens buffer).head? with
  | .snapBegin, none => none
  | .snapBegin, some interface =>
      if nics.length < maxNets then
        some (nics ++ [{
          interface := .ofList interfaceLen interface
          s0 := netstatParse cols buffer }])
      else none
  | .snapEnd, none => if nics = [] then some nics else none
  | .snapEnd, some interface =>
      match findNic nics interface with
      | none => some nics
      | some ind => some (nics.modify ind fun nic => { nic with s1 := netstatParse cols buffer })

/-- `netstat_snap` of a listing. -/
def netstatSnap (cols : Columns) (snaptype : SnapType) (file : List UInt8) (nics : List Nic) :
    Option (Int32 × List Nic) :=
  match fgets 1024 file with
  | none => some (uperfFailure, nics)
  | some (_, file) =>
      match fgets 1024 file with
      | none => some (uperfFailure, nics)
      | some (_, file) =>
          ((readLines file.length file).foldlM (snapLine cols snaptype) nics).map
            fun nics => (0, nics)

/-- The first snapshot has room for all interfaces, and after the second one the entry of each
interface that is in both listings has the numbers of its lines. -/
def Paired (cols : Columns) (first second : Listing) : Prop :=
  ∃ begun nics : List Nic, netstatSnap cols .snapBegin first.text [] = some (0, begun) ∧
    netstatSnap cols .snapEnd second.text begun = some (0, nics) ∧
    ∀ (k : ℕ) (i i' : Interface), first.interfaces[k]? = some i → i' ∈ second.interfaces →
      i'.name = i.name → ∃ nic, nics[k]? = some nic ∧ nic.s0 = i.stats ∧ nic.s1 = i'.stats

/-- The names of the interfaces have one word each, and different names different words. -/
structure ToldApart (first second : Listing) : Prop where
  plain : ∀ i ∈ first.interfaces ++ second.interfaces, i.Plain
  word : ∀ i ∈ first.interfaces ++ second.interfaces,
    ∀ i' ∈ first.interfaces ++ second.interfaces, i.word = i'.word → i.name = i'.name

/-- The loop over the lines of a listing. -/
def snapInterfaces (snaptype : SnapType) (nics : List Nic) (interfaces : List Interface) :
    Option (List Nic) :=
  interfaces.foldlM (fun nics i => snapLine listingColumns snaptype nics (i.line ++ [newline])) nics

/-- The entry of an interface after the first snapshot. -/
def Interface.begun (i : Interface) : Nic where
  interface := .ofList interfaceLen i.word
  s0 := i.stats

/-- The entry of an interface after some lines of the second listing. -/
def Interface.ended (i : Interface) (lines : List Interface) : Nic :=
  { i.begun with s1 := ((lines.find? fun i' => i'.word = i.word).map stats).getD {} }

section

variable {nics : List Nic} {interfaces : List Interface}

theorem netstatSnap_text (snaptype : SnapType) (l : Listing) (nics : List Nic) :
    netstatSnap listingColumns snaptype l.text nics =
      (snapInterfaces snaptype nics l.interfaces).map fun nics => (0, nics) := by
  have hlines : ∀ line ∈ l.interfaces.map Interface.line, IsLine line := by
    intro line hline
    obtain ⟨i, -, rfl⟩ := List.mem_map.mp hline
    exact i.isLine
  have hread := readLines_linesText hlines (length_le_linesText _)
  rw [netstatSnap, l.fgets_text]
  simp only [l.fgets_faceHeader, hread, List.map_map]
  rw [snapInterfaces, List.foldlM_map]
  rfl

theorem head?_tokens_line {i : Interface} (h : i.Plain) :
    (tokens (i.line ++ [newline])).head? = some i.word := by
  rw [h.tokens_line]
  rfl

/-! ## The first listing -/

theorem snapLine_begin (nics : List Nic) {i : Interface} (h : i.Plain) :
    snapLine listingColumns .snapBegin nics (i.line ++ [newline]) =
      if nics.length < maxNets then some (nics ++ [i.begun]) else none := by
  unfold snapLine
  rw [head?_tokens_line h, netstatParse_line h]
  rfl

/-- As long as there is room, each line gives an entry. -/
theorem snapBegin_eq (hplain : ∀ i ∈ interfaces, i.Plain)
    (hroom : nics.length + interfaces.length ≤ maxNets) :
    snapInterfaces .snapBegin nics interfaces = some (nics ++ interfaces.map Interface.begun) := by
  induction interfaces generalizing nics with
  | nil => simp [snapInterfaces]
  | cons i interfaces ih =>
      rw [List.length_cons] at hroom
      have hnext := @ih (nics ++ [i.begun]) (fun j hj => hplain j (List.mem_cons_of_mem i hj))
        (by rw [List.length_append, List.length_singleton]; omega)
      rw [snapInterfaces] at hnext
      rw [snapInterfaces, List.foldlM_cons, snapLine_begin nics (hplain i List.mem_cons_self),
        if_pos (by omega), Option.bind_eq_bind, Option.bind_some, hnext, List.append_assoc]
      rfl

/-- A line of the first listing takes one entry of the array, whatever its tokens are. -/
theorem length_snapLine_begin {cols : Columns} {buffer : List UInt8} {nics' : List Nic}
    (hline : snapLine cols .snapBegin nics buffer = some nics') :
    nics'.length = nics.length + 1 ∧ nics.length < maxNets := by
  unfold snapLine at hline
  cases htokens : (tokens buffer).head? with
  | none => simp [htokens] at hline
  | some interface =>
      simp only [htokens] at hline
      obtain ⟨hroom, heq⟩ := Option.ite_none_right_eq_some.mp hline
      cases heq
      exact ⟨by simp, hroom⟩

/-- The first listing takes as many entries as it has interfaces. -/
theorem length_snapBegin (hnics : nics.length ≤ maxNets) {nics' : List Nic}
    (hsnap : snapInterfaces .snapBegin nics interfaces = some nics') :
    nics.length + interfaces.length ≤ maxNets := by
  induction interfaces generalizing nics with
  | nil => exact hnics
  | cons i interfaces ih =>
      rw [snapInterfaces, List.foldlM_cons] at hsnap
      obtain ⟨mid, hline, hrest⟩ := Option.bind_eq_some_iff.mp hsnap
      obtain ⟨hlength, hroom⟩ := length_snapLine_begin hline
      have hmore := ih (by omega) hrest
      rw [List.length_cons]
      omega

/-! ## The second listing -/

theorem strncmpEq_ofList (i i' : Interface) :
    strncmpEq (CharArray.ofList interfaceLen i.word) i'.word interfaceLen = true ↔
      i'.word = i.word := by
  have hstring : i.word.takeWhile (· ≠ 0) = i.word := by
    rw [List.takeWhile_eq_self_iff]
    intro c hc
    have hbyte := List.all_eq_true.mp i.name_bytes c (Interface.mem_name_of_mem_word hc)
    simp only [isNameByte, Bool.and_eq_true] at hbyte
    exact hbyte.1.1.1
  rw [strncmpEq, cstr_ofList, hstring, List.take_take, min_self,
    List.take_of_length_le i.length_word_le, List.take_of_length_le i'.length_word_le, beq_iff_eq,
    eq_comm]

/-- Changing the first entry with a property changes all of them, if there is no other. -/
theorem modify_findIdx? {α : Type*} {p : α → Bool} (f : α → α) {l : List α}
    (hone : l.Pairwise fun a b => ¬ (p a = true ∧ p b = true)) :
    ((l.findIdx? p).elim l fun k => l.modify k f) = l.map fun a => if p a then f a else a := by
  induction l with
  | nil => rfl
  | cons a l ih =>
      obtain ⟨hfirst, hrest⟩ := List.pairwise_cons.mp hone
      rw [List.findIdx?_cons, List.map_cons]
      by_cases ha : p a = true
      · have hsame : (l.map fun a => if p a then f a else a) = l := by
          refine (List.map_congr_left fun b hb => ?_).trans (List.map_id l)
          exact if_neg fun hpb => hfirst b hb ⟨ha, hpb⟩
        rw [if_pos ha, if_pos ha, hsame]
        rfl
      · rw [if_neg ha, if_neg ha, ← ih hrest]
        cases l.findIdx? p <;> rfl

/-- A line of the second listing changes the entry with its word. -/
theorem snapLine_end {nics : List Nic} {i' : Interface} (h : i'.Plain)
    (hone : nics.Pairwise fun a b => ¬ (strncmpEq a.interface i'.word interfaceLen = true ∧
      strncmpEq b.interface i'.word interfaceLen = true)) :
    snapLine listingColumns .snapEnd nics (i'.line ++ [newline]) =
      some (nics.map fun nic =>
        if strncmpEq nic.interface i'.word interfaceLen then { nic with s1 := i'.stats }
        else nic) := by
  rw [← modify_findIdx? _ hone]
  unfold snapLine
  rw [head?_tokens_line h, netstatParse_line h]
  simp only [findNic]
  cases nics.findIdx? fun nic => strncmpEq nic.interface i'.word interfaceLen <;> rfl

theorem Interface.ended_of_mem {i i' : Interface} {lines : List Interface}
    (hlines : (lines.map Interface.word).Nodup) (hi' : i' ∈ lines) (hword : i'.word = i.word) :
    i.ended lines = { i.begun with s1 := i'.stats } := by
  have hfind : lines.find? (fun i' => i'.word = i.word) = some i' := by
    induction lines with
    | nil => cases hi'
    | cons a lines ih =>
        rw [List.map_cons, List.nodup_cons] at hlines
        obtain rfl | hmem := List.mem_cons.mp hi'
        · exact List.find?_cons_of_pos (by simpa using hword)
        · have hne : ¬ a.word = i.word := by
            rintro heq
            exact hlines.1 (heq.trans hword.symm ▸ List.mem_map_of_mem hmem)
          rw [List.find?_cons_of_neg (by simpa using hne)]
          exact ih hlines.2 hmem
  rw [ended, hfind]
  rfl

/-- A line without the word of the interface does not change its entry, and one with it gives
its numbers. -/
theorem Interface.ended_append_singleton (i i' : Interface) {done : List Interface}
    (hnew : i'.word ∉ done.map Interface.word) :
    i.ended (done ++ [i']) =
      if i'.word = i.word then { i.ended done with s1 := i'.stats } else i.ended done := by
  by_cases hword : i'.word = i.word
  · have hnone : done.find? (fun i' => i'.word = i.word) = none := by
      rw [List.find?_eq_none]
      intro a ha heq
      apply hnew
      rw [hword, ← of_decide_eq_true heq]
      exact List.mem_map_of_mem ha
    rw [if_pos hword, ended, ended, List.find?_append, hnone]
    simp [hword]
  · rw [if_neg hword, ended, ended, List.find?_append]
    simp [hword]

/-- The second listing, whose first lines `done` have been read before. -/
theorem snapEnd_eq {first : List Interface} (hfirst : (first.map Interface.word).Nodup)
    (done lines : List Interface) (hlines : ((done ++ lines).map Interface.word).Nodup)
    (hplain : ∀ i ∈ lines, i.Plain) :
    snapInterfaces .snapEnd (first.map fun i => i.ended done) lines =
      some (first.map fun i => i.ended (done ++ lines)) := by
  induction lines generalizing done with
  | nil => simp [snapInterfaces]
  | cons i' lines ih =>
      have hentry : ∀ i : Interface,
          strncmpEq (i.ended done).interface i'.word interfaceLen = true ↔ i'.word = i.word :=
        fun i => strncmpEq_ofList i i'
      -- one entry at most has the name, so the search finds it or nothing
      have hone : (first.map fun i => i.ended done).Pairwise fun a b =>
          ¬ (strncmpEq a.interface i'.word interfaceLen = true ∧
            strncmpEq b.interface i'.word interfaceLen = true) := by
        rw [List.pairwise_map]
        refine (List.pairwise_map.mp hfirst).imp fun {a b} hne => ?_
        rw [hentry, hentry]
        exact fun heq => hne (heq.1.symm.trans heq.2)
      -- the name has not been read yet
      have hnew : i'.word ∉ done.map Interface.word := by
        rw [List.map_append, List.map_cons] at hlines
        exact fun hmem => (List.nodup_append.mp hlines).2.2 _ hmem _ List.mem_cons_self rfl
      have hstep : (first.map fun i => i.ended done).map (fun nic =>
          if strncmpEq nic.interface i'.word interfaceLen then { nic with s1 := i'.stats }
          else nic) = first.map fun i => i.ended (done ++ [i']) := by
        rw [List.map_map]
        refine List.map_congr_left fun i _ => ?_
        simp only [Function.comp_apply, i.ended_append_singleton i' hnew, hentry]
      have hrest := ih (done ++ [i']) (by simpa using hlines)
        fun i hi => hplain i (List.mem_cons_of_mem i' hi)
      rw [snapInterfaces] at hrest
      rw [snapInterfaces, List.foldlM_cons, snapLine_end (hplain i' List.mem_cons_self) hone,
        hstep, Option.bind_eq_bind, Option.bind_some, hrest, List.append_assoc,
        List.singleton_append]

/-- Different names have different words. -/
theorem ToldApart.nodup_word {first second : Listing} (h : ToldApart first second)
    {l : List Interface} (hl : l ⊆ first.interfaces ++ second.interfaces)
    (hnodup : (l.map Interface.name).Nodup) : (l.map Interface.word).Nodup := by
  rw [List.nodup_map_iff_inj_on (List.Nodup.of_map _ hnodup)]
  intro i hi i' hi' heq
  exact List.inj_on_of_nodup_map hnodup hi hi' (h.word i (hl hi) i' (hl hi') heq)

/-- With room for all interfaces the listings are paired. -/
theorem paired_of_le {first second : Listing} (hroom : first.interfaces.length ≤ maxNets)
    (hapart : ToldApart first second) : Paired listingColumns first second := by
  have hplain : ∀ i ∈ first.interfaces, i.Plain := fun i hi =>
    hapart.plain i (List.mem_append_left _ hi)
  have hplain' : ∀ i ∈ second.interfaces, i.Plain := fun i hi =>
    hapart.plain i (List.mem_append_right _ hi)
  have hfirst := hapart.nodup_word (List.subset_append_left ..) first.nodup
  have hsecond := hapart.nodup_word (List.subset_append_right ..) second.nodup
  have hbegin : snapInterfaces .snapBegin [] first.interfaces =
      some (first.interfaces.map Interface.begun) :=
    snapBegin_eq hplain (by rwa [List.length_nil, Nat.zero_add])
  have hend : snapInterfaces .snapEnd (first.interfaces.map Interface.begun) second.interfaces =
      some (first.interfaces.map fun i => i.ended second.interfaces) :=
    snapEnd_eq hfirst [] second.interfaces hsecond hplain'
  refine ⟨first.interfaces.map Interface.begun,
    first.interfaces.map fun i => i.ended second.interfaces, ?_, ?_, ?_⟩
  · rw [netstatSnap_text, hbegin]
    rfl
  · rw [netstatSnap_text, hend]
    rfl
  · intro k i i' hk hi' hname
    have hword : i'.word = i.word := by rw [Interface.word, Interface.word, hname]
    refine ⟨i.ended second.interfaces, by rw [List.getElem?_map, hk, Option.map_some], rfl, ?_⟩
    rw [Interface.ended_of_mem hsecond hi' hword]

end

/-- Listings that are paired have room in the array for the interfaces of the first one, and
with room for them they are paired if their names can be told apart by the words in them. -/
theorem paired_cases (initial first second : Listing) :
    ((∃ cols, netstatInit initial.text = some cols ∧ Paired cols first second) →
        first.interfaces.length ≤ maxNets) ∧
      (first.interfaces.length ≤ maxNets → ToldApart first second →
        ∃ cols, netstatInit initial.text = some cols ∧ Paired cols first second) := by
  simp only [netstatInit_text, Option.some.injEq, exists_eq_left']
  refine ⟨?_, paired_of_le⟩
  rintro ⟨begun, nics, hbegin, -⟩
  rw [netstatSnap_text] at hbegin
  obtain ⟨nics', hsnap, -⟩ := Option.map_eq_some_iff.mp hbegin
  have hlength := length_snapBegin (Nat.zero_le _) hsnap
  rwa [List.length_nil, Nat.zero_add] at hlength

/-- An interface that has a number for its name. -/
def numbered (n : Fin 257) : Interface where
  name := decimal n
  name_ne_nil := decimal_ne_nil
  length_name := (length_decimal_le (k := 3) (by norm_num) (by omega)).trans (by norm_num)
  name_bytes := by
    refine List.all_eq_true.mpr fun c hc => ?_
    have hdigit := isDigit_of_mem_decimal hc
    simp [isNameByte, ne_of_isDigit hdigit (d := 0) (by decide),
      ne_of_isDigit hdigit (d := newline) (by decide),
      ne_of_isDigit hdigit (d := ' '.toUInt8) (by decide),
      ne_of_isDigit hdigit (d := ':'.toUInt8) (by decide)]

/-- A listing with one interface too many. -/
def longListing : Listing where
  interfaces := (List.finRange 257).map numbered
  nodup := by
    rw [List.map_map]
    refine (List.nodup_finRange 257).map fun m n heq => ?_
    have hvalue := congrArg digitsValue heq
    simp only [Function.comp_apply, numbered, digitsValue_decimal] at hvalue
    exact Fin.ext hvalue

theorem not_paired_long :
    ¬ ∀ initial first second : Listing,
      ∃ cols, netstatInit initial.text = some cols ∧ Paired cols first second := by
  intro h
  obtain ⟨cols, hcols, begun, nics, hbegin, -⟩ := h longListing longListing longListing
  rw [netstatInit_text] at hcols
  cases hcols
  rw [netstatSnap_text] at hbegin
  obtain ⟨nics', hsnap, -⟩ := Option.map_eq_some_iff.mp hbegin
  have hlength := length_snapBegin (Nat.zero_le _) hsnap
  simp [longListing, maxNets] at hlength

end Netstat

end Uperf
