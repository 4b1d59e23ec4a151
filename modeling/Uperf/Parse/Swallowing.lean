import Uperf.Parse.Starts

/-!
# A tag that is swallowed

A tag that is glued to the one before it is part of the same token, and only the
type of the first is left.  If the second begins no object it has at most ended
one, and where nothing looks at that before the next one is begun, all is as it
would have been: the work order, the errors, and what the parser fails with.
-/

namespace Uperf

open Lib

/-! ## Tags behind one another -/

/-- A token that is a tag and has no value. -/
structure PlainTag (token : List UInt8) : Prop where
  tag : tokenType token ∈ tagTypes
  plain : '='.toUInt8 ∉ token

/-- The symbol of such a token. -/
def tagSymbol (token : List UInt8) : Symbol := ⟨tokenType token, token, .token⟩

namespace PlainTag

variable {token : List UInt8}

theorem freshSymbol (h : PlainTag token) (host : Host) :
    freshSymbol host token = (tagSymbol token, []) := by
  have hhead : token.head? ≠ some '$'.toUInt8 := by
    intro hdollar
    have htag := head?_of_tag h.tag
    rw [hdollar] at htag
    revert htag
    decide
  have hsymbol : getSymbol host token = ((token, .token), []) := by
    simp [getSymbol, afterEquals_eq_none_iff.mpr h.plain, hhead]
  unfold Uperf.freshSymbol
  split
  · rename_i herror
    exact absurd herror (tokenType_ne_error_of_tag h.tag)
  · rw [hsymbol]
    rfl

theorem closed (h : PlainTag token) : Closed token := by
  have hknown := tokenType_ne_error_of_tag h.tag
  constructor
  · rintro rfl
    exact hknown (tokenType_of_short (Nat.zero_le _))
  · exact fun hlast => h.plain (List.mem_of_getLast? hlast)
  · rintro rfl
    exact hknown rfl
  · rintro rfl
    exact hknown rfl

/-- A tag is read in the environment that the symbols behind it are read in. -/
theorem visits_cons (h : PlainTag token) (host : Host) (list : List Symbol) :
    visits host (tagSymbol token :: list) =
      (tagSymbol token).visit host :: visits host list := by
  have htag : (tagSymbol token).type ∈ tagTypes := h.tag
  rw [visits, after_tag htag]

/-- What a tag is glued to is part of it. -/
theorem append (h : PlainTag token) {token' : List UInt8} (h' : PlainTag token') :
    PlainTag (token ++ token') := by
  refine ⟨?_, ?_⟩
  · rw [tokenType_append (tokenType_ne_error_of_tag h.tag)]
    exact h.tag
  · rw [List.mem_append, not_or]
    exact ⟨h.plain, h'.plain⟩

end PlainTag

section

variable {host : Host} {st stR : Symbols} {ts gs R : List (List UInt8)} {new : List ErrorText}
  {w : Workorder}

/-- Behind settled symbols every tag is a symbol of its own. -/
theorem attach_tags (hst : st.Settled) (hgs : ∀ g ∈ gs, PlainTag g) :
    ∃ st', attach host st gs = .ok (st', []) ∧ st'.Settled ∧
      st'.list = st.list ++ gs.map tagSymbol := by
  induction gs generalizing st with
  | nil => exact ⟨st, rfl, hst, (List.append_nil _).symm⟩
  | cons g gs ih =>
      rw [List.forall_mem_cons] at hgs
      obtain ⟨hhead, hclose⟩ := ne_of_tag hgs.1.tag
      have hstep : parseStep host st g = _ := parseStep_fresh hst hclose hhead
      rw [hgs.1.freshSymbol] at hstep
      obtain ⟨st', hattach, hsettled, hlist⟩ :=
        @ih { earlier := st.list, curr := some (tagSymbol g) } hgs.1.closed hgs.2
      refine ⟨st', attach_cons_ok_iff.mpr ⟨_, [], [], hstep, hattach, rfl⟩, hsettled, ?_⟩
      rw [hlist]
      simp [Symbols.list]

/-- A text does not begin with a token that goes on with the symbol before it. -/
theorem head?_of_attach (hattach : attach host {} R = .ok (stR, new))
    (hclose : ∀ token ∈ R, token ≠ str ">") :
    ∀ token ∈ R.head?, token ≠ str ">" ∧ token.head? ≠ some '='.toUInt8 := by
  intro token htoken
  obtain ⟨R, rfl⟩ : ∃ tail, R = token :: tail := by
    cases R with
    | nil => cases htoken
    | cons first tail =>
        cases htoken
        exact ⟨tail, rfl⟩
  have hne := hclose token List.mem_cons_self
  refine ⟨hne, fun hhead => ?_⟩
  obtain ⟨mid, first, later, hstep, -⟩ := attach_cons_ok_iff.mp hattach
  simp [parseStep, hne, hhead, merges] at hstep

/-- A text with tags in it, of which the part behind them can be read alone, is accepted with
the symbols of the tags between those of the parts. -/
theorem accepts_tags_iff (hne : gs ≠ []) (hgs : ∀ g ∈ gs, PlainTag g)
    (hR : attach host {} R = .ok (stR, new)) (hclose : ∀ token ∈ R, token ≠ str ">") :
    Accepts host (ts ++ (gs ++ R)) w ↔
      new = [] ∧ ∃ mid b, attach host {} ts = .ok (mid, []) ∧ mid.Settled ∧
        run cleanStep {} (visits host (mid.list ++ (gs.map tagSymbol ++ stR.list))) = some b ∧
        w = b.workorder := by
  -- from settled symbols on, the symbols are these
  have hrest : ∀ mid : Symbols, mid.Settled → ∃ st, attach host mid (gs ++ R) = .ok (st, new) ∧
      st.list = mid.list ++ (gs.map tagSymbol ++ stR.list) := by
    intro mid hmid
    obtain ⟨st₁, htags, hsettled, hlist₁⟩ := @attach_tags host mid gs hmid hgs
    obtain ⟨st, hattach, hshift⟩ := (Shifted.start hsettled rfl).attach hR
    refine ⟨st, attach_append_ok_iff.mpr ⟨st₁, [], new, htags, hattach, rfl⟩, ?_⟩
    rw [hshift.list, hlist₁, List.append_assoc]
  constructor
  · rintro ⟨st, b, hattach, hrun, rfl⟩
    obtain ⟨mid, hmid, hlater⟩ := attach_append_ok_nil_iff.mp hattach
    -- a tag settles what is before it, or the file is not accepted
    have hsettled : mid.Settled := by
      obtain ⟨g, gs, rfl⟩ := List.exists_cons_of_ne_nil hne
      obtain ⟨next, first, later, hstep, hbehind, -⟩ := attach_cons_ok_iff.mp hlater
      refine settled_of_tag (hgs g List.mem_cons_self).tag (typed_of_attach hmid (by simp)) hstep
        ?_ hbehind (known_of_run hrun)
      cases gs with
      | nil => exact head?_of_attach hR hclose
      | cons g' gs =>
          rintro token ⟨⟩
          exact (ne_of_tag (hgs g' (by simp)).tag).symm
    obtain ⟨st', hattach', hlist⟩ := hrest mid hsettled
    rw [hlater, Except.ok.injEq, Prod.mk.injEq] at hattach'
    obtain ⟨rfl, rfl⟩ := hattach'
    rw [hlist] at hrun
    exact ⟨rfl, mid, b, hmid, hsettled, hrun, rfl⟩
  · rintro ⟨rfl, mid, b, hmid, hsettled, hrun, rfl⟩
    obtain ⟨st, hattach, hlist⟩ := hrest mid hsettled
    exact ⟨st, b, attach_append_ok_nil_iff.mpr ⟨mid, hmid, hattach⟩, hlist ▸ hrun, rfl⟩

end

/-! ## Symbols behind others -/

/-- The symbols behind others. -/
def Symbols.behind (before : List Symbol) (st : Symbols) : Symbols :=
  { st with earlier := before ++ st.earlier }

@[simp] theorem Symbols.list_behind (before : List Symbol) (st : Symbols) :
    (st.behind before).list = before ++ st.list := List.append_assoc ..

section

variable {host : Host} {before : List Symbol} {st : Symbols} {token : List UInt8}
  {ts gs R : List (List UInt8)} {errors : List ErrorText} {text : List UInt8} {tooLong : Bool}

/-- What a token does depends on the last symbol alone. -/
theorem parseStep_behind {curr : Symbol} (hcurr : st.curr = some curr) :
    parseStep host (st.behind before) token =
      (parseStep host st token).map fun r => (r.1.behind before, r.2) := by
  have hlast : (st.behind before).lastText = st.lastText := rfl
  have hsame : (st.behind before).curr = some curr := hcurr
  unfold parseStep
  rw [hlast, hcurr, hsame, st.list_behind]
  by_cases hclose : token = str ">"
  · rw [if_pos hclose, if_pos hclose]
    rfl
  · rw [if_neg hclose, if_neg hclose]
    by_cases hempty : token.head? ≠ some '='.toUInt8 ∧ st.lastText = []
    · rw [if_pos hempty, if_pos hempty]
      rfl
    · rw [if_neg hempty, if_neg hempty]
      -- a token that is merged goes to the last symbol
      by_cases hmerge : merges st.lastText token = true
      · rw [if_pos hmerge, if_pos hmerge]
        by_cases horigin : curr.origin ≠ .token
        · simp only [if_pos horigin]
          rfl
        · simp only [if_neg horigin]
          rfl
      · rw [if_neg hmerge, if_neg hmerge]
        rfl

theorem curr_of_parseStep {st' : Symbols} {new : List ErrorText} (hcurr : st.curr ≠ none)
    (hstep : parseStep host st token = .ok (st', new)) : st'.curr ≠ none := by
  cases parseStep_cases hstep with
  | close => exact hcurr
  | fresh => exact Option.some_ne_none _
  | merged => exact Option.some_ne_none _

/-- What the tokens make behind other symbols is what they make alone, behind these. -/
theorem loop_parseToken_behind (hcurr : st.curr ≠ none) :
    loop (parseToken host) (st.behind before, errors) ts =
      (loop (parseToken host) (st, errors) ts).map fun r => (r.1.behind before, r.2) := by
  induction ts generalizing st errors with
  | nil => rfl
  | cons token ts ih =>
      obtain ⟨curr, hsome⟩ := Option.ne_none_iff_exists'.mp hcurr
      rw [loop, loop, parseToken, parseToken, parseStep_behind hsome]
      cases hstep : parseStep host st token with
      | error fault => rfl
      | ok result =>
          obtain ⟨mid, new⟩ := result
          simp only [Except.map, Except.bind]
          cases addErrors errors new with
          | error fault => rfl
          | ok errors' => exact ih (curr_of_parseStep hcurr hstep)

/-- What the tokens make behind settled symbols is what they make at the start. -/
theorem loop_parseToken_settled (hst : st.Settled)
    (hnext : ∀ token ∈ ts.head?, token ≠ str ">" ∧ token.head? ≠ some '='.toUInt8) :
    (loop (parseToken host) (st, errors) ts).map (fun r => (r.1.list, r.2)) =
      (loop (parseToken host) ({}, errors) ts).map fun r => (st.list ++ r.1.list, r.2) := by
  cases ts with
  | nil =>
      have hnil : Symbols.list {} = [] := rfl
      simp only [loop, Except.map, hnil, List.append_nil]
  | cons token ts =>
      obtain ⟨hclose, hhead⟩ := hnext token rfl
      rw [loop, loop, parseToken, parseToken, parseStep_fresh hst hclose hhead,
        parseStep_fresh Symbols.settled_start hclose hhead]
      simp only [Except.bind]
      cases addErrors errors (freshSymbol host token).2 with
      | error fault => rfl
      | ok errors' =>
          -- the first token begins a symbol behind the others
          have hbehind : ({ earlier := st.list, curr := some (freshSymbol host token).1 } :
              Symbols) =
              Symbols.behind st.list
                { earlier := Symbols.list {}, curr := some (freshSymbol host token).1 } := by
            simp [Symbols.behind, Symbols.list]
          simp only [hbehind]
          rw [loop_parseToken_behind (Option.some_ne_none _)]
          cases loop (parseToken host)
              ({ earlier := Symbols.list {}, curr := some (freshSymbol host token).1 }, errors')
              ts with
          | error fault => rfl
          | ok result => simp [Except.map]

/-- The end of `parse`, with the symbols as a list. -/
def parseEnd (tooLong : Bool) (found : List Symbol × List ErrorText) :
    Except Fault (List Symbol × List ErrorText) :=
  if tooLong then
    (addError found.2 (str "token too long.")).bind fun errors => .ok (found.1, errors)
  else .ok found

/-- The symbols and errors that tokens add where some errors are recorded already. -/
def parseRest (host : Host) (errors : List ErrorText) (scanned : List (List UInt8) × Bool) :
    Except Fault (List Symbol × List ErrorText) :=
  ((loop (parseToken host) ({}, errors) scanned.1).map fun r => (r.1.list, r.2)).bind
    (parseEnd scanned.2)

theorem parseEnd_behind {found : List Symbol × List ErrorText} :
    parseEnd tooLong (before ++ found.1, found.2) =
      (parseEnd tooLong found).map fun r => (before ++ r.1, r.2) := by
  unfold parseEnd
  cases tooLong with
  | false => rfl
  | true =>
      simp only [if_true]
      cases addError found.2 (str "token too long.") <;> rfl

/-- `parse` looks at the significant tokens. -/
theorem parse_eq : parse host text = parseRest host [] (significant text) := by
  unfold parse parseRest significant
  rw [loop_parseToken_filter]
  cases loop (parseToken host) ({}, []) (tokens text).1 with
  | error fault => rfl
  | ok result =>
      simp only [Except.map, Except.bind, parseEnd]

/-- Behind settled symbols tags become symbols, and add no errors. -/
theorem loop_parseToken_tags (hst : st.Settled) (hgs : ∀ g ∈ gs, PlainTag g)
    (hfit : errors.length ≤ maxErrors) :
    ∃ st', loop (parseToken host) (st, errors) gs = .ok (st', errors) ∧ st'.Settled ∧
      st'.list = st.list ++ gs.map tagSymbol := by
  obtain ⟨st', hattach, hsettled, hlist⟩ := @attach_tags host st gs hst hgs
  refine ⟨st', ?_, hsettled, hlist⟩
  exact (loop_parseToken_ok_iff hfit).mpr ⟨[], hattach, (List.append_nil _).symm, hfit⟩

/-- The symbols of a text with tags in it that stand for themselves: those of the tokens before,
those of the tags and those of the tokens behind. -/
theorem parse_tags (hgs : ∀ g ∈ gs, PlainTag g)
    (hsignificant : significant text = (ts ++ (gs ++ R), tooLong))
    (hsettled : ∀ st new, attach host {} ts = .ok (st, new) → st.Settled)
    (hnext : ∀ token ∈ R.head?, token ≠ str ">" ∧ token.head? ≠ some '='.toUInt8) :
    parse host text =
      (loop (parseToken host) ({}, []) ts).bind fun first =>
        (parseRest host first.2 (R, tooLong)).map fun rest =>
          (first.1.list ++ (gs.map tagSymbol ++ rest.1), rest.2) := by
  rw [parse_eq, hsignificant, parseRest]
  simp only [loop_append]
  cases hfirst : loop (parseToken host) ({}, []) ts with
  | error fault => rfl
  | ok first =>
      obtain ⟨st, errors⟩ := first
      obtain ⟨new, hattach, -, hfit⟩ := (loop_parseToken_ok_iff (Nat.zero_le _)).mp hfirst
      obtain ⟨st', htags, hst', hlist⟩ :=
        @loop_parseToken_tags host st gs errors (hsettled st new hattach) hgs hfit
      simp only [Except.bind, htags]
      rw [loop_parseToken_settled hst' hnext, parseRest]
      cases loop (parseToken host) ({}, errors) R with
      | error fault => rfl
      | ok rest =>
          simp only [Except.map, Except.bind, hlist, List.append_assoc]
          have hend := @parseEnd_behind (st.list ++ gs.map tagSymbol) tooLong (rest.1.list, rest.2)
          rw [List.append_assoc] at hend
          rw [hend]
          cases parseEnd tooLong (rest.1.list, rest.2) with
          | error fault => rfl
          | ok found => simp [Except.map]

/-- What can be read where some errors are recorded already can be read alone. -/
theorem parse_of_parseRest {found : List Symbol × List ErrorText}
    (hfit : errors.length ≤ maxErrors)
    (hrest : parseRest host errors (significant text) = .ok found) :
    ∃ new, parse host text = .ok (found.1, new) := by
  rw [parse_eq]
  unfold parseRest at hrest ⊢
  cases hloop : loop (parseToken host) ({}, errors) (significant text).1 with
  | error fault => rw [hloop] at hrest; cases hrest
  | ok mid =>
      obtain ⟨st, errors'⟩ := mid
      obtain ⟨new, hattach, rfl, hall⟩ := (loop_parseToken_ok_iff hfit).mp hloop
      -- there is more room alone
      rw [List.length_append] at hall
      have halone : loop (parseToken host) ({}, []) (significant text).1 = .ok (st, new) :=
        (loop_parseToken_ok_iff (Nat.zero_le _)).mpr ⟨new, hattach, rfl, by omega⟩
      rw [hloop] at hrest
      rw [halone]
      simp only [Except.map, Except.bind, parseEnd] at hrest ⊢
      by_cases htooLong : (significant text).2 = true
      · rw [if_pos htooLong] at hrest ⊢
        obtain ⟨errors', hadd, heq⟩ := bind_eq_ok_iff.mp hrest
        obtain ⟨hroom, -⟩ := addError_ok_iff.mp hadd
        rw [List.length_append] at hroom
        cases heq
        exact ⟨_, bind_eq_ok_iff.mpr ⟨_, addError_ok_iff.mpr ⟨by omega, rfl⟩, rfl⟩⟩
      · rw [if_neg htooLong] at hrest ⊢
        cases hrest
        exact ⟨new, rfl⟩

end

/-! ## What a tag has ended -/

/-- The builder behind a tag that begins no object. -/
def Builder.ended (b : Builder) : TokenType → Builder
  | .groupEnd => { b with inGroup := false }
  | .txnEnd => { b with inTxn := false }
  | _ => b

/-- The symbols whose branches look at what the tag has ended. -/
def heedful : TokenType → List TokenType
  | .groupEnd => [.name, .txnStart, .nthreads, .nprocesses]
  | .txnEnd => [.flowopStart, .iterations, .rate, .duration]
  | _ => []

/-- The tags behind which it makes no difference any more. -/
def resetting : TokenType → List TokenType
  | .groupEnd => [.groupStart, .groupEnd]
  | .txnEnd => [.txnStart, .txnEnd]
  | _ => []

/-- No symbol looks at what the tag has ended. -/
def Unheeded (tag : TokenType) (types : List TokenType) : Prop :=
  ∀ t ∈ types.takeWhile fun t => decide (t ∉ resetting tag), t ∉ heedful tag

/-- No name stands before the next tag of a group. -/
def Unnamed (types : List TokenType) : Prop :=
  TokenType.name ∉ types.takeWhile fun t => decide (t ∉ resetting .groupEnd)

section

variable {b : Builder} {s : Visit} {tag : TokenType} {errors : List ErrorText}

theorem Builder.workorder_ended : (b.ended tag).workorder = b.workorder := by
  cases tag <;> rfl

@[simp] theorem Builder.currFlowop_ended : (b.ended tag).currFlowop = b.currFlowop := by
  cases tag <;> rfl

/-- What a branch does to a builder in which an object has been ended. -/
def BuildResult.ended (tag : TokenType) (result : BuildResult) : BuildResult :=
  result.map fun r => (r.1.map (·.ended tag), r.2)

theorem onTxn_groupEnd (change : Txn → Txn) :
    onTxn (b.ended .groupEnd) change errors = (onTxn b change errors).ended .groupEnd := by
  unfold onTxn
  by_cases htxn : b.inTxn = true
  · have hsame : (b.ended .groupEnd).inTxn = true := htxn
    have hcurr : (b.ended .groupEnd).currTxn = b.currTxn := rfl
    rw [if_neg (not_not.mpr htxn), if_neg (not_not.mpr hsame), hcurr]
    cases b.currTxn <;> rfl
  · have hsame : ¬ (b.ended .groupEnd).inTxn = true := htxn
    rw [if_pos htxn, if_pos hsame]
    rfl

theorem onGroup_txnEnd (change : Group → Group) :
    onGroup (b.ended .txnEnd) change errors = (onGroup b change errors).ended .txnEnd := by
  unfold onGroup
  by_cases hgroup : b.inGroup = true
  · have hsame : (b.ended .txnEnd).inGroup = true := hgroup
    have hcurr : (b.ended .txnEnd).currGrp = b.currGrp := rfl
    rw [if_neg (not_not.mpr hgroup), if_neg (not_not.mpr hsame), hcurr]
    cases b.currGrp <;> rfl
  · have hsame : ¬ (b.ended .txnEnd).inGroup = true := hgroup
    rw [if_pos hgroup, if_pos hsame]
    rfl

/-- The branches of a flowop look at neither flag. -/
theorem flowopSetType_ended (text : List UInt8) :
    flowopSetType (b.ended tag) text = (flowopSetType b text).ended tag := by
  unfold flowopSetType
  rw [b.currFlowop_ended]
  cases b.currFlowop with
  | none => rfl
  | some f =>
      simp only
      split
      · rfl
      · cases tag <;> rfl

theorem flowopSetOptions_ended (host : Host) (text : List UInt8) :
    flowopSetOptions (b.ended tag) host text = (flowopSetOptions b host text).ended tag := by
  unfold flowopSetOptions
  rw [b.currFlowop_ended]
  cases b.currFlowop with
  | none => rfl
  | some f =>
      simp only
      cases flowopParseOptions host text with
      | error fault => rfl
      | ok set => cases tag <;> rfl

theorem flowopStart_groupEnd :
    flowopStart (b.ended .groupEnd) = (flowopStart b).ended .groupEnd := by
  unfold flowopStart
  by_cases htxn : b.inTxn = true
  · have hsame : (b.ended .groupEnd).inTxn = true := htxn
    have hcurr : (b.ended .groupEnd).currTxn = b.currTxn := rfl
    rw [if_neg (not_not.mpr htxn), if_neg (not_not.mpr hsame), hcurr]
    cases b.currTxn <;> rfl
  · have hsame : ¬ (b.ended .groupEnd).inTxn = true := htxn
    rw [if_pos htxn, if_pos hsame]
    rfl

theorem txnStart_txnEnd : txnStart (b.ended .txnEnd) = txnStart b := by
  unfold txnStart
  by_cases hgroup : b.inGroup = true
  · have hsame : (b.ended .txnEnd).inGroup = true := hgroup
    have hcurr : (b.ended .txnEnd).currGrp = b.currGrp := rfl
    rw [if_neg (not_not.mpr hgroup), if_neg (not_not.mpr hsame), hcurr]
    cases b.currGrp <;> rfl
  · have hsame : ¬ (b.ended .txnEnd).inGroup = true := hgroup
    rw [if_pos hgroup, if_pos hsame]

theorem groupStart_txnEnd : groupStart (b.ended .txnEnd) = (groupStart b).ended .txnEnd := by
  have hgrp : (b.ended .txnEnd).grp = b.grp := rfl
  unfold groupStart
  rw [hgrp]
  split <;> rfl

theorem setName_txnEnd (text : List UInt8) :
    setName (b.ended .txnEnd) text = (setName b text).ended .txnEnd := by
  have hsame : (b.ended .txnEnd).inGroup = b.inGroup := rfl
  unfold setName
  rw [hsame]
  split
  · exact onGroup_txnEnd _
  · rfl

/-- Most tags end nothing. -/
theorem BuildResult.ended_self (hself : ∀ b : Builder, b.ended tag = b) (result : BuildResult) :
    result.ended tag = result := by
  unfold BuildResult.ended
  cases result with
  | error fault => rfl
  | ok r => simp [Except.map, hself]

/-- A round that does not look at what has been ended leads to the same, with that ended. -/
theorem buildStep_ended (hheed : s.type ∉ heedful tag) (hreset : s.type ∉ resetting tag) :
    buildStep (b.ended tag) s = (buildStep b s).ended tag := by
  cases htag : tag with
  | groupEnd =>
      subst htag
      unfold buildStep
      cases hs : s.type with
      | name | txnStart | nthreads | nprocesses => simp [hs, heedful] at hheed
      | groupStart | groupEnd => simp [hs, resetting] at hreset
      | profileStart | profileEnd | xmlEnd | txnEnd => rfl
      | flowopStart => exact flowopStart_groupEnd
      | iterations | rate | duration => exact onTxn_groupEnd _
      | type => exact flowopSetType_ended _
      | options => exact flowopSetOptions_ended _ _
      | error => rfl
  | txnEnd =>
      subst htag
      unfold buildStep
      cases hs : s.type with
      | flowopStart | iterations | rate | duration => simp [hs, heedful] at hheed
      | txnStart | txnEnd => simp [hs, resetting] at hreset
      | profileStart | profileEnd | xmlEnd | groupEnd => rfl
      | groupStart => exact groupStart_txnEnd
      | nthreads | nprocesses => exact onGroup_txnEnd _
      | name => exact setName_txnEnd _
      | type => exact flowopSetType_ended _
      | options => exact flowopSetOptions_ended _ _
      | error => rfl
  | _ => exact (BuildResult.ended_self (fun _ => rfl) _).symm

/-- A round that begins or ends such an object itself leads to the same. -/
theorem buildStep_resetting (hreset : s.type ∈ resetting tag) :
    buildStep (b.ended tag) s = buildStep b s := by
  cases htag : tag with
  | groupEnd =>
      rw [htag] at hreset
      simp only [resetting, List.mem_cons, List.not_mem_nil, or_false] at hreset
      unfold buildStep
      obtain hs | hs := hreset
      · rw [hs]
        rfl
      · rw [hs]
        rfl
  | txnEnd =>
      rw [htag] at hreset
      simp only [resetting, List.mem_cons, List.not_mem_nil, or_false] at hreset
      unfold buildStep
      obtain hs | hs := hreset
      · rw [hs]
        exact txnStart_txnEnd
      · rw [hs]
        rfl
  | _ => rfl

/-- A tag that begins no object ends what it may end. -/
theorem buildStep_endTag (htag : s.type ∈ tagTypes) (hstart : s.type ∉ startTypes) :
    buildStep b s = .ok (some (b.ended s.type), []) := by
  unfold buildStep
  cases hs : s.type with
  | profileStart | profileEnd | groupEnd | txnEnd | xmlEnd => rfl
  | _ => simp [hs, tagTypes, startTypes] at htag hstart

/-- A symbol that looks at what has been ended is rejected, unless it is a name. -/
theorem cleanStep_heedful (hheed : s.type ∈ heedful tag) (hname : s.type ≠ .name) :
    cleanStep (b.ended tag) s = none := by
  -- each of them tests the flag that is not set
  have hreject : ∃ text, buildStep (b.ended tag) s = reject text := by
    cases htag : tag with
    | groupEnd =>
        simp only [htag, heedful, List.mem_cons, List.not_mem_nil, or_false] at hheed
        unfold buildStep
        rcases hheed.resolve_left hname with hs | hs | hs <;> rw [hs] <;> exact ⟨_, rfl⟩
    | txnEnd =>
        simp only [htag, heedful, List.mem_cons, List.not_mem_nil, or_false] at hheed
        unfold buildStep
        rcases hheed with hs | hs | hs | hs <;> rw [hs] <;> exact ⟨_, rfl⟩
    | _ => simp [htag, heedful] at hheed
  obtain ⟨text, htext⟩ := hreject
  unfold cleanStep
  rw [htext]
  rfl

/-- In an accepted profile only names look at what has been ended. -/
theorem unheeded_of_run {list : List Visit} {c : Builder}
    (hnames : tag = .groupEnd → Unnamed (list.map (·.type)))
    (hrun : run cleanStep (b.ended tag) list = some c) : Unheeded tag (list.map (·.type)) := by
  induction list generalizing b with
  | nil => exact fun _ => nofun
  | cons s rest ih =>
      by_cases hreset : s.type ∈ resetting tag
      · rw [Unheeded, List.map_cons, List.takeWhile_cons_of_neg (by simpa using hreset)]
        exact fun _ => nofun
      · obtain ⟨mid, hstep, hrest⟩ := run_cons.mp hrun
        have hheed : s.type ∉ heedful tag := by
          intro hheed
          have hname : s.type = .name := by
            by_contra hname
            rw [cleanStep_heedful hheed hname] at hstep
            cases hstep
          -- a name is not rejected, but there is none
          have htag : tag = .groupEnd := by
            rw [hname] at hheed
            revert hheed
            cases tag <;> simp [heedful]
          subst htag
          refine hnames rfl ?_
          rw [List.map_cons, List.takeWhile_cons_of_pos (by simpa using hreset), hname]
          exact List.mem_cons_self
        rw [Unheeded, List.map_cons, List.takeWhile_cons_of_pos (by simpa using hreset),
          List.forall_mem_cons]
        refine ⟨hheed, ?_⟩
        -- the next builder has the same ended
        obtain ⟨b', rfl⟩ : ∃ b' : Builder, mid = b'.ended tag := by
          rw [cleanStep_eq_some_iff, buildStep_ended hheed hreset, BuildResult.ended] at hstep
          cases hbuild : buildStep b s with
          | error fault => rw [hbuild] at hstep; cases hstep
          | ok r =>
              rw [hbuild] at hstep
              simp only [Except.map, Except.ok.injEq, Prod.mk.injEq, Option.map_eq_some_iff]
                at hstep
              obtain ⟨⟨b', -, rfl⟩, -⟩ := hstep
              exact ⟨b', rfl⟩
        refine ih (fun htag => ?_) hrest
        have hunnamed := hnames htag
        subst htag
        rw [Unnamed, List.map_cons, List.takeWhile_cons_of_pos (by simpa using hreset),
          List.mem_cons, not_or] at hunnamed
        exact hunnamed.2

/-! ## The work order -/

/-- What `parse_app_profile` returns at the end, with the errors recorded. -/
def returned (result : Option Builder × List ErrorText) : Option Workorder × List ErrorText :=
  (if result.2 = [] then result.1.map Builder.workorder else none, result.2)

theorem parseAppProfile_eq {host : Host} {file : List UInt8} (hfile : file ≠ []) :
    parseAppProfile host file = (parse host (profileText file)).bind fun found =>
      (buildWorklist host found.2 found.1).map returned := by
  unfold parseAppProfile
  rw [if_neg hfile]
  cases parse host (profileText file) with
  | error fault => rfl
  | ok found =>
      simp only [Except.bind]
      cases buildWorklist host found.2 found.1 <;> rfl

theorem returned_ended :
    returned (some (b.ended tag), errors) = returned (some b, errors) := by
  simp only [returned, Option.map_some, b.workorder_ended]

/-- One round, with its errors recorded. -/
theorem buildSymbol_ended (hheed : s.type ∉ heedful tag) (hreset : s.type ∉ resetting tag) :
    buildSymbol (some (b.ended tag), errors) s =
      (buildSymbol (some b, errors) s).map fun r => (r.1.map (·.ended tag), r.2) := by
  unfold buildSymbol
  simp only [buildStep_ended hheed hreset, BuildResult.ended]
  cases buildStep b s with
  | error fault => rfl
  | ok r =>
      simp only [Except.map, Except.bind]
      cases addErrors errors r.2 <;> rfl

/-- Where nothing looks at what has been ended, the same is returned. -/
theorem loop_ended {list : List Visit} (hlist : Unheeded tag (list.map (·.type))) :
    (loop buildSymbol (some (b.ended tag), errors) list).map returned =
      (loop buildSymbol (some b, errors) list).map returned := by
  induction list generalizing b errors with
  | nil => exact congrArg Except.ok returned_ended
  | cons s rest ih =>
      rw [loop, loop]
      by_cases hreset : s.type ∈ resetting tag
      · have hsame : buildSymbol (some (b.ended tag), errors) s =
            buildSymbol (some b, errors) s := by
          unfold buildSymbol
          simp only [buildStep_resetting hreset]
        rw [hsame]
      · rw [Unheeded, List.map_cons, List.takeWhile_cons_of_pos (by simpa using hreset),
          List.forall_mem_cons] at hlist
        obtain ⟨hheed, hrest⟩ := hlist
        rw [buildSymbol_ended hheed hreset]
        cases buildSymbol (some b, errors) s with
        | error fault => rfl
        | ok r =>
            obtain ⟨next, errors'⟩ := r
            cases next with
            | none => rfl
            | some c => exact ih hrest

/-- Behind a tag that is there in either case, one that is swallowed makes no difference if
nothing looks at what it ends. -/
theorem buildWorklist_swallowed {host : Host} {list rest : List Symbol}
    {token token' glued : List UInt8} (htoken : PlainTag token) (htoken' : PlainTag token')
    (hglued : PlainTag glued) (htype : tokenType glued = tokenType token)
    (hstart : tokenType token' ∉ startTypes)
    (hrest : Unheeded (tokenType token') (rest.map Symbol.type)) :
    (buildWorklist host errors (list ++ ([token, token'].map tagSymbol ++ rest))).map returned =
      (buildWorklist host errors (list ++ ([glued].map tagSymbol ++ rest))).map returned := by
  unfold buildWorklist
  rw [@visits_append host list, @visits_append host list, loop_append, loop_append]
  generalize behind host list = now
  simp only [List.map_cons, List.map_nil, List.cons_append, List.nil_append,
    htoken.visits_cons, htoken'.visits_cons, hglued.visits_cons]
  cases loop buildSymbol (some {}, errors) (visits host list) with
  | error fault => rfl
  | ok mid =>
      obtain ⟨next, errors'⟩ := mid
      cases next with
      | none =>
          simp only [Except.bind, loop_buildSymbol_none]
      | some b =>
          -- the glued token does what the first tag does
          have hsame : buildSymbol (some b, errors') ((tagSymbol glued).visit now) =
              buildSymbol (some b, errors') ((tagSymbol token).visit now) := by
            have hstep : buildStep b ((tagSymbol glued).visit now) =
                buildStep b ((tagSymbol token).visit now) := buildStep_tag htoken.tag htype
            unfold buildSymbol
            simp only [hstep]
          simp only [Except.bind]
          rw [loop, loop, hsame]
          cases buildSymbol (some b, errors') ((tagSymbol token).visit now) with
          | error fault => rfl
          | ok mid' =>
              obtain ⟨next', errors''⟩ := mid'
              cases next' with
              | none => simp only [Except.bind, loop_buildSymbol_none]
              | some c =>
                  -- the second tag ends what it ends
                  have hend : buildSymbol (some c, errors'') ((tagSymbol token').visit now) =
                      .ok (some (c.ended (tokenType token')), errors'') := by
                    have hstep : buildStep c ((tagSymbol token').visit now) =
                        .ok (some (c.ended (tokenType token')), []) :=
                      buildStep_endTag htoken'.tag hstart
                    unfold buildSymbol
                    simp only [hstep]
                    rfl
                  simp only [Except.bind]
                  rw [loop_cons_ok hend]
                  exact loop_ended (by rwa [map_type_visits])

end

end Uperf
