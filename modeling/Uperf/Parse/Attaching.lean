import Uperf.Parse.Attachable
import Uperf.Parse.Reading

/-!
# The symbols of a part of a text

`parse` puts one token after another behind the symbols so far.  What it makes of
the tokens of a part of a text depends on the symbols before it in one way only:
whether the part goes on with the last of them.
-/

namespace Uperf

open Lib

section

variable (host : Host)

/-- The tokens one after another, with the errors they add; the table of errors is left
out. -/
def attach : Symbols → List (List UInt8) → Except Fault (Symbols × List ErrorText)
  | st, [] => .ok (st, [])
  | st, token :: rest =>
      (parseStep host st token).bind fun (mid, new) =>
        (attach mid rest).bind fun (st', later) => .ok (st', new ++ later)

/-- The tokens of a text, and the error of one that is too long. -/
def attachScan (st : Symbols) (scanned : List (List UInt8) × Bool) :
    Except Fault (Symbols × List ErrorText) :=
  (attach host st scanned.1).bind fun (st', new) =>
    .ok (st', if scanned.2 then new ++ [str "token too long."] else new)

end

section

variable {host : Host} {st st' : Symbols} {token : List UInt8} {ts ts' : List (List UInt8)}
  {new errors errors' : List ErrorText} {tooLong : Bool}

theorem attach_cons_ok_iff :
    attach host st (token :: ts) = .ok (st', errors) ↔
      ∃ mid new later, parseStep host st token = .ok (mid, new) ∧
        attach host mid ts = .ok (st', later) ∧ errors = new ++ later := by
  rw [attach, bind_eq_ok_iff]
  constructor
  · rintro ⟨⟨mid, new⟩, hstep, hrest⟩
    obtain ⟨⟨st'', later⟩, hlater, heq⟩ := bind_eq_ok_iff.mp hrest
    cases heq
    exact ⟨mid, new, later, hstep, hlater, rfl⟩
  · rintro ⟨mid, new, later, hstep, hlater, rfl⟩
    exact ⟨(mid, new), hstep, bind_eq_ok_iff.mpr ⟨(st', later), hlater, rfl⟩⟩

theorem attach_append_ok_iff :
    attach host st (ts ++ ts') = .ok (st', errors) ↔
      ∃ mid new later, attach host st ts = .ok (mid, new) ∧
        attach host mid ts' = .ok (st', later) ∧ errors = new ++ later := by
  induction ts generalizing st errors with
  | nil => simp [attach]
  | cons token ts ih =>
      rw [List.cons_append, attach_cons_ok_iff]
      constructor
      · rintro ⟨mid, new, later, hstep, hrest, rfl⟩
        obtain ⟨mid', new', later', hfirst, hsecond, rfl⟩ := ih.mp hrest
        refine ⟨mid', new ++ new', later', ?_, hsecond, (List.append_assoc ..).symm⟩
        exact attach_cons_ok_iff.mpr ⟨mid, new, new', hstep, hfirst, rfl⟩
      · rintro ⟨mid', before, later', hboth, hsecond, rfl⟩
        obtain ⟨mid, new, new', hstep, hfirst, rfl⟩ := attach_cons_ok_iff.mp hboth
        refine ⟨mid, new, new' ++ later', hstep, ?_, List.append_assoc ..⟩
        exact ih.mpr ⟨mid', new', later', hfirst, hsecond, rfl⟩

theorem attachScan_ok_iff :
    attachScan host st (ts, tooLong) = .ok (st', errors) ↔
      ∃ new, attach host st ts = .ok (st', new) ∧
        errors = if tooLong then new ++ [str "token too long."] else new := by
  unfold attachScan
  rw [bind_eq_ok_iff]
  constructor
  · rintro ⟨⟨mid, new⟩, hattach, heq⟩
    simp only [Except.ok.injEq, Prod.mk.injEq] at heq
    obtain ⟨rfl, rfl⟩ := heq
    exact ⟨new, hattach, rfl⟩
  · rintro ⟨new, hattach, rfl⟩
    exact ⟨(st', new), hattach, rfl⟩

theorem attachScan_append_ok_iff :
    attachScan host st (ts ++ ts', tooLong) = .ok (st', errors) ↔
      ∃ mid new later, attach host st ts = .ok (mid, new) ∧
        attachScan host mid (ts', tooLong) = .ok (st', later) ∧ errors = new ++ later := by
  rw [attachScan_ok_iff]
  constructor
  · rintro ⟨all, hattach, rfl⟩
    obtain ⟨mid, new, later, hfirst, hsecond, rfl⟩ := attach_append_ok_iff.mp hattach
    refine ⟨mid, new, _, hfirst, attachScan_ok_iff.mpr ⟨later, hsecond, rfl⟩, ?_⟩
    cases tooLong <;> simp
  · rintro ⟨mid, new, all, hfirst, hscan, rfl⟩
    obtain ⟨later, hsecond, rfl⟩ := attachScan_ok_iff.mp hscan
    refine ⟨new ++ later, attach_append_ok_iff.mpr ⟨mid, new, later, hfirst, hsecond, rfl⟩, ?_⟩
    cases tooLong <;> simp

/-- The loop of `parse` ends if the table of errors has room for all of them. -/
theorem loop_parseToken_ok_iff (hfit : errors.length ≤ maxErrors) :
    loop (parseToken host) (st, errors) ts = .ok (st', errors') ↔
      ∃ new, attach host st ts = .ok (st', new) ∧ errors' = errors ++ new ∧
        errors'.length ≤ maxErrors := by
  induction ts generalizing st errors with
  | nil =>
      simp only [loop, attach, Except.ok.injEq, Prod.mk.injEq]
      constructor
      · rintro ⟨rfl, rfl⟩
        exact ⟨[], ⟨rfl, rfl⟩, (List.append_nil _).symm, hfit⟩
      · rintro ⟨new, ⟨rfl, rfl⟩, rfl, -⟩
        exact ⟨rfl, (List.append_nil _).symm⟩
  | cons token ts ih =>
      rw [loop, bind_eq_ok_iff]
      constructor
      · rintro ⟨⟨mid, before⟩, hstep, hrest⟩
        obtain ⟨⟨mid', new⟩, hparse, hadd⟩ := bind_eq_ok_iff.mp hstep
        obtain ⟨errors'', hadd, heq⟩ := bind_eq_ok_iff.mp hadd
        cases heq
        obtain ⟨hroom, rfl⟩ := (addErrors_ok_iff hfit).mp hadd
        obtain ⟨later, hlater, heq, hall⟩ :=
          (ih (by rwa [List.length_append])).mp hrest
        refine ⟨new ++ later, ?_, heq.trans (List.append_assoc ..), hall⟩
        exact attach_cons_ok_iff.mpr ⟨mid, new, later, hparse, hlater, rfl⟩
      · rintro ⟨all, hattach, rfl, hall⟩
        obtain ⟨mid, new, later, hparse, hlater, rfl⟩ := attach_cons_ok_iff.mp hattach
        have hroom : (errors ++ new).length ≤ maxErrors := by
          rw [← List.append_assoc] at hall
          exact (List.prefix_append _ _).length_le.trans hall
        refine ⟨(mid, errors ++ new), ?_,
          (ih hroom).mpr ⟨later, hlater, (List.append_assoc ..).symm, hall⟩⟩
        rw [List.length_append] at hroom
        exact bind_eq_ok_iff.mpr ⟨(mid, new), hparse,
          bind_eq_ok_iff.mpr ⟨_, (addErrors_ok_iff hfit).mpr ⟨hroom, rfl⟩, rfl⟩⟩

/-- `parse` gets to the end if the tokens can be put one behind the other and the table has
room for the errors. -/
theorem parse_ok_iff {text : List UInt8} {list : List Symbol} :
    parse host text = .ok (list, errors) ↔
      ∃ st, attachScan host {} (tokens text) = .ok (st, errors) ∧ list = st.list ∧
        errors.length ≤ maxErrors := by
  unfold parse
  rw [bind_eq_ok_iff]
  rcases hscan : tokens text with ⟨ts, tooLong⟩
  constructor
  · rintro ⟨⟨st, before⟩, hloop, hend⟩
    obtain ⟨new, hattach, heq, hroom⟩ := (loop_parseToken_ok_iff (Nat.zero_le _)).mp hloop
    rw [List.nil_append] at heq
    subst heq
    refine ⟨st, ?_⟩
    cases tooLong with
    | false =>
        cases hend
        exact ⟨attachScan_ok_iff.mpr ⟨_, hattach, rfl⟩, rfl, hroom⟩
    | true =>
        obtain ⟨all, hadd, heq⟩ := bind_eq_ok_iff.mp hend
        obtain ⟨hlt, rfl⟩ := addError_ok_iff.mp hadd
        cases heq
        refine ⟨attachScan_ok_iff.mpr ⟨_, hattach, rfl⟩, rfl, ?_⟩
        rw [List.length_append]
        exact hlt
  · rintro ⟨st, hscan, rfl, hroom⟩
    obtain ⟨new, hattach, rfl⟩ := attachScan_ok_iff.mp hscan
    cases tooLong with
    | false =>
        exact ⟨(st, new), (loop_parseToken_ok_iff (Nat.zero_le _)).mpr ⟨new, hattach, rfl, hroom⟩,
          rfl⟩
    | true =>
        simp only [if_true, List.length_append] at hroom
        refine ⟨(st, new), (loop_parseToken_ok_iff (Nat.zero_le _)).mpr
          ⟨new, hattach, rfl, (Nat.le_succ _).trans hroom⟩, ?_⟩
        exact bind_eq_ok_iff.mpr ⟨_, addError_ok_iff.mpr ⟨hroom, rfl⟩, rfl⟩

/-! ## One token -/

@[simp] theorem parseStep_close : parseStep host st (str ">") = .ok (st, []) := if_pos rfl

/-- A token of its own. -/
theorem parseStep_fresh (hst : st.Settled) (hclose : token ≠ str ">")
    (hhead : token.head? ≠ some '='.toUInt8) :
    parseStep host st token =
      .ok ({ earlier := st.list, curr := some (freshSymbol host token).1 },
        (freshSymbol host token).2) := by
  have hempty : ¬ (token.head? ≠ some '='.toUInt8 ∧ st.lastText = []) :=
    fun hbad => hst.ne_nil hbad.2
  have hmerge := merges_closed hst hhead
  unfold parseStep
  rw [if_neg hclose, if_neg hempty, if_neg (by simp [hmerge])]

/-- A token that begins with `=` goes on with the symbol before it. -/
theorem parseStep_equals {curr : Symbol} (hcurr : st.curr = some curr)
    (horigin : curr.origin = .token) (hhead : token.head? = some '='.toUInt8) :
    parseStep host st token =
      .ok ({ st with curr := some (mergedSymbol host curr token).1 },
        (mergedSymbol host curr token).2) := by
  have hclose : token ≠ str ">" := by
    rintro rfl
    exact absurd hhead (by decide)
  unfold parseStep
  rw [if_neg hclose, if_neg (by simp [hhead]), if_pos (by simp [merges, hhead]), hcurr]
  simp only [horigin, ne_eq, not_true_eq_false, if_false]

/-- No token can follow the last symbol: its text is not closed, and was cut out of a
token. -/
def Symbols.Stuck (st : Symbols) : Prop :=
  ∃ curr, st.curr = some curr ∧ curr.origin ≠ .token ∧ ¬ Closed curr.text

/-- Only `>` can follow then. -/
theorem Symbols.Stuck.attach_ok_iff (hst : st.Stuck) :
    attach host st ts = .ok (st', new) ↔ (∀ token ∈ ts, token = str ">") ∧ st' = st ∧ new = [] := by
  obtain ⟨curr, hcurr, horigin, hclosed⟩ := hst
  have hlast : st.lastText = curr.text := by rw [Symbols.lastText, hcurr]
  induction ts generalizing new with
  | nil => simp [attach, eq_comm]
  | cons token ts ih =>
      by_cases hclose : token = str ">"
      · subst hclose
        rw [attach_cons_ok_iff, parseStep_close, List.forall_mem_cons]
        constructor
        · rintro ⟨mid, first, later, hstep, hlater, rfl⟩
          cases hstep
          obtain ⟨hall, rfl, rfl⟩ := ih.mp hlater
          exact ⟨⟨rfl, hall⟩, rfl, rfl⟩
        · rintro ⟨⟨-, hall⟩, rfl, rfl⟩
          exact ⟨st', [], [], rfl, ih.mpr ⟨hall, rfl, rfl⟩, rfl⟩
      · rw [attach_cons_ok_iff, List.forall_mem_cons]
        refine iff_of_false ?_ fun h => hclose h.1.1
        rintro ⟨mid, first, later, hstep, -⟩
        obtain h | h : (token.head? ≠ some '='.toUInt8 ∧ st.lastText = []) ∨
            merges st.lastText token = true := by
          by_cases hhead : token.head? = some '='.toUInt8
          · exact Or.inr (by simp [merges, hhead])
          · by_cases hempty : st.lastText = []
            · exact Or.inl ⟨hhead, hempty⟩
            · right
              by_contra hmerge
              rw [hlast] at hempty hmerge
              simp only [merges, hhead, decide_false, Bool.false_or, Bool.or_eq_true,
                decide_eq_true_eq, not_or] at hmerge
              exact hclosed ⟨hempty, hmerge.1.1, hmerge.2, hmerge.1.2⟩
        · rw [parseStep, if_neg hclose, if_pos h] at hstep
          cases hstep
        · rw [parseStep, if_neg hclose] at hstep
          split at hstep
          · cases hstep
          · simp only [if_true, hcurr, horigin, ne_eq, not_false_eq_true] at hstep
            cases hstep

/-- What a token does to the symbols so far: nothing, or it is put behind them, or it goes
on with the last one. -/
inductive ParseStep (host : Host) (st : Symbols) (token : List UInt8) :
    Symbols → List ErrorText → Prop
  | close (hclose : token = str ">") : ParseStep host st token st []
  | fresh (hclose : token ≠ str ">") (hlast : st.lastText ≠ [])
      (hmerge : merges st.lastText token = false) :
      ParseStep host st token { earlier := st.list, curr := some (freshSymbol host token).1 }
        (freshSymbol host token).2
  | merged (curr : Symbol) (hclose : token ≠ str ">") (hcurr : st.curr = some curr)
      (horigin : curr.origin = .token) (hmerge : merges curr.text token = true) :
      ParseStep host st token { st with curr := some (mergedSymbol host curr token).1 }
        (mergedSymbol host curr token).2

theorem parseStep_cases (hstep : parseStep host st token = .ok (st', new)) :
    ParseStep host st token st' new := by
  unfold parseStep at hstep
  split at hstep
  · rename_i hclose
    cases hstep
    exact .close hclose
  · rename_i hclose
    split at hstep
    · cases hstep
    · rename_i hempty
      split at hstep
      · rename_i hmerge
        cases hcurr : st.curr with
        | none => rw [hcurr] at hstep; cases hstep
        | some curr =>
            rw [Symbols.lastText, hcurr] at hmerge
            rw [hcurr] at hstep
            simp only at hstep
            split at hstep
            · cases hstep
            · rename_i horigin
              cases hstep
              exact .merged curr hclose hcurr (not_not.mp horigin) hmerge
      · rename_i hmerge
        rw [Bool.not_eq_true] at hmerge
        have hhead : token.head? ≠ some '='.toUInt8 := by
          intro hhead
          simp [merges, hhead] at hmerge
        cases hstep
        exact .fresh hclose (fun hlast => hempty ⟨hhead, hlast⟩) hmerge

/-- The symbols before the last one stay. -/
theorem earlier_prefix_of_attach (hattach : attach host st ts = .ok (st', new)) :
    st.earlier <+: st'.list := by
  induction ts generalizing st new with
  | nil =>
      cases hattach
      exact List.prefix_append _ _
  | cons token ts ih =>
      obtain ⟨mid, first, later, hstep, hrest, -⟩ := attach_cons_ok_iff.mp hattach
      have hmid := ih hrest
      cases parseStep_cases hstep with
      | close => exact hmid
      | fresh => exact (List.prefix_append _ _).trans hmid
      | merged => exact hmid

/-- A symbol whose text was cut out of a token stays too. -/
theorem list_prefix_of_attach {curr : Symbol} (hcurr : st.curr = some curr)
    (horigin : curr.origin ≠ .token) (hattach : attach host st ts = .ok (st', new)) :
    st.list <+: st'.list := by
  induction ts generalizing st new with
  | nil =>
      cases hattach
      exact List.prefix_rfl
  | cons token ts ih =>
      obtain ⟨mid, first, later, hstep, hrest, -⟩ := attach_cons_ok_iff.mp hattach
      cases parseStep_cases hstep with
      | close => exact ih hcurr hrest
      | fresh => exact earlier_prefix_of_attach hrest
      | merged old _ hold htoken _ =>
          rw [hcurr] at hold
          cases hold
          exact absurd htoken horigin

theorem attach_close (hclose : ∀ token ∈ ts, token = str ">") :
    attach host st ts = .ok (st, []) := by
  induction ts with
  | nil => rfl
  | cons token ts ih =>
      rw [List.forall_mem_cons] at hclose
      rw [hclose.1]
      exact attach_cons_ok_iff.mpr ⟨st, [], [], parseStep_close, ih hclose.2, rfl⟩

/-- Symbols are never taken away. -/
theorem curr_ne_none_of_attach (hcurr : st.curr ≠ none)
    (hattach : attach host st ts = .ok (st', new)) : st'.curr ≠ none := by
  induction ts generalizing st new with
  | nil =>
      cases hattach
      exact hcurr
  | cons token ts ih =>
      obtain ⟨mid, first, later, hstep, hrest, -⟩ := attach_cons_ok_iff.mp hattach
      cases parseStep_cases hstep with
      | close => exact ih hcurr hrest
      | fresh => exact ih (Option.some_ne_none _) hrest
      | merged => exact ih (Option.some_ne_none _) hrest

/-- Before the first symbol there have only been tokens `>`. -/
theorem close_of_curr_eq_none (hattach : attach host {} ts = .ok (st', new))
    (hcurr : st'.curr = none) : ∀ token ∈ ts, token = str ">" := by
  induction ts generalizing new with
  | nil => exact fun _ => nofun
  | cons token ts ih =>
      obtain ⟨mid, first, later, hstep, hrest, -⟩ := attach_cons_ok_iff.mp hattach
      cases parseStep_cases hstep with
      | close hclose => exact List.forall_mem_cons.mpr ⟨hclose, ih hrest⟩
      | fresh => exact absurd hcurr (curr_ne_none_of_attach (Option.some_ne_none _) hrest)
      | merged _ _ hnone => cases hnone

/-- Without a symbol all tokens are `>`. -/
theorem list_eq_nil_iff_of_attach (hattach : attach host {} ts = .ok (st', new)) :
    st'.list = [] ↔ ∀ token ∈ ts, token = str ">" := by
  constructor
  · intro hnil
    apply close_of_curr_eq_none hattach
    by_contra hsome
    obtain ⟨curr, hcurr⟩ := Option.ne_none_iff_exists'.mp hsome
    simp [Symbols.list, hcurr] at hnil
  · intro hclose
    rw [attach_close hclose] at hattach
    cases hattach
    rfl

/-- The last symbol of a list is the current one. -/
theorem curr_of_getLast? (hattach : attach host {} ts = .ok (st', new)) {s : Symbol}
    (hlast : st'.list.getLast? = some s) : st'.curr = some s := by
  cases hcurr : st'.curr with
  | none =>
      have hnil := (list_eq_nil_iff_of_attach hattach).mpr (close_of_curr_eq_none hattach hcurr)
      rw [hnil] at hlast
      cases hlast
  | some curr =>
      rw [Symbols.list, hcurr] at hlast
      simpa using hlast

/-! ## A part of a text -/

/-- The same symbols behind others: at the start those are settled, and later the last
symbol is the same. -/
inductive Shifted (before : List Symbol) : Symbols → Symbols → Prop
  | start {st : Symbols} (hst : st.Settled) (hlist : st.list = before) : Shifted before {} st
  | behind (earlier : List Symbol) (curr : Symbol) :
      Shifted before { earlier := earlier, curr := some curr }
        { earlier := before ++ earlier, curr := some curr }

theorem Shifted.list {before : List Symbol} (h : Shifted before st st') :
    st'.list = before ++ st.list := by
  cases h with
  | start hst hlist => simpa [Symbols.list] using hlist
  | behind earlier curr => simp [Symbols.list]

theorem Shifted.parseStep {before : List Symbol} {st₁ : Symbols} (h : Shifted before st st₁)
    (hstep : parseStep host st token = .ok (st', new)) :
    ∃ st₁', Uperf.parseStep host st₁ token = .ok (st₁', new) ∧ Shifted before st' st₁' := by
  by_cases hclose : token = str ">"
  · subst hclose
    rw [parseStep_close] at hstep
    cases hstep
    exact ⟨st₁, parseStep_close, h⟩
  cases h with
  | start hst hlist =>
      have hhead : token.head? ≠ some '='.toUInt8 := by
        intro hhead
        simp [Uperf.parseStep, hclose, hhead, merges] at hstep
      rw [parseStep_fresh Symbols.settled_start hclose hhead] at hstep
      cases hstep
      have hfirst := @Shifted.behind before [] (freshSymbol host token).1
      rw [List.append_nil] at hfirst
      refine ⟨_, parseStep_fresh hst hclose hhead, ?_⟩
      rw [hlist]
      exact hfirst
  | behind earlier curr =>
      unfold Uperf.parseStep at hstep ⊢
      rw [if_neg hclose] at hstep ⊢
      simp only [Symbols.lastText] at hstep ⊢
      split at hstep
      · cases hstep
      · rename_i hempty
        rw [if_neg hempty]
        by_cases hmerge : merges curr.text token = true
        · by_cases horigin : curr.origin = .token
          · simp only [hmerge, if_true, horigin, ne_eq, not_true_eq_false, if_false] at hstep ⊢
            cases hstep
            exact ⟨_, rfl, .behind earlier _⟩
          · simp [hmerge, horigin] at hstep
        · simp only [hmerge, Bool.false_eq_true, if_false] at hstep ⊢
          cases hstep
          refine ⟨_, rfl, ?_⟩
          have hnext := @Shifted.behind before (earlier ++ [curr]) (freshSymbol host token).1
          rw [← List.append_assoc] at hnext
          simpa [Symbols.list] using hnext

/-- What the tokens make at the start they make behind settled symbols. -/
theorem Shifted.attach {before : List Symbol} {st₁ : Symbols} (h : Shifted before st st₁)
    (hattach : attach host st ts = .ok (st', new)) :
    ∃ st₁', Uperf.attach host st₁ ts = .ok (st₁', new) ∧ Shifted before st' st₁' := by
  induction ts generalizing st st₁ new with
  | nil =>
      cases hattach
      exact ⟨st₁, rfl, h⟩
  | cons token ts ih =>
      obtain ⟨mid, first, later, hstep, hrest, rfl⟩ := attach_cons_ok_iff.mp hattach
      obtain ⟨mid₁, hstep₁, hmid⟩ := h.parseStep hstep
      obtain ⟨st₁', hrest₁, hst'⟩ := ih hmid hrest
      exact ⟨st₁', attach_cons_ok_iff.mpr ⟨mid₁, first, later, hstep₁, hrest₁, rfl⟩, hst'⟩

/-- A text that can be read alone adds its symbols to settled ones. -/
theorem attachScan_settled {scanned : List (List UInt8) × Bool}
    (hscan : attachScan host {} scanned = .ok (st', errors)) (hst : st.Settled) :
    ∃ st₁, attachScan host st scanned = .ok (st₁, errors) ∧ st₁.list = st.list ++ st'.list := by
  obtain ⟨ts, tooLong⟩ := scanned
  obtain ⟨new, hattach, rfl⟩ := attachScan_ok_iff.mp hscan
  obtain ⟨st₁, hattach₁, hshift⟩ := (Shifted.start hst rfl).attach hattach
  exact ⟨st₁, attachScan_ok_iff.mpr ⟨new, hattach₁, rfl⟩, hshift.list⟩

end

end Uperf
