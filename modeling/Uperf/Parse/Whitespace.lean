import Uperf.Parse.Lexemes
import Uperf.Parse.Swallowing

/-!
# White space between tags

A token ends at a separator or a quoted part, and not at the `>` of a tag.  So any
separators between two tags are as good as any others, but without any the second
tag is read as a part of the token that ends with the first.
-/

namespace Uperf

open Lib

/-- The separators at a place of a file make no difference. -/
def Insignificant (host : Host) (file : List UInt8 → List UInt8) : Prop :=
  ∀ gap gap' : List UInt8, (∀ c ∈ gap ++ gap', isSeperator c = true) →
    outcome host (file gap) = outcome host (file gap')

/-! ## Any separators -/

section

variable {host : Host} {p w y gap gap' : List UInt8} {ts : List (List UInt8)} {stopped : Bool}

/-- The text in the buffer, of a file in two parts. -/
theorem profileText_append (x : List UInt8) (hy : y ≠ []) :
    profileText (x ++ y) =
      if (0 : UInt8) ∈ x then x.takeWhile (· ≠ 0) else x ++ profileText y := by
  unfold profileText
  rw [List.dropLast_append_of_ne_nil hy, List.takeWhile_append]
  by_cases hzero : (0 : UInt8) ∈ x
  · have hlt : (x.takeWhile (· ≠ 0)).length ≠ x.length := by
      intro hlength
      have hall := (List.takeWhile_prefix (· ≠ (0 : UInt8))).eq_of_length hlength
      rw [← hall] at hzero
      simpa using List.mem_takeWhile_imp hzero
    rw [if_neg hlt, if_pos hzero]
  · have hall : x.takeWhile (· ≠ 0) = x := by
      rw [List.takeWhile_eq_self_iff]
      intro c hc
      simp only [decide_eq_true_eq]
      rintro rfl
      exact hzero hc
    rw [if_neg hzero, hall, if_pos rfl]

theorem zero_not_mem_separators (hgap : ∀ c ∈ gap, isSeperator c = true) : (0 : UInt8) ∉ gap :=
  fun hzero => absurd (hgap 0 hzero) (by decide)

/-- Two files that differ in their separators only. -/
theorem outcome_congr_gap {x : List UInt8} (hy : y ≠ [])
    (hgap : ∀ c ∈ gap, isSeperator c = true) (hgap' : ∀ c ∈ gap', isSeperator c = true)
    (htokens : tokens (x ++ (gap ++ profileText y)) = tokens (x ++ (gap' ++ profileText y))) :
    outcome host (x ++ (gap ++ y)) = outcome host (x ++ (gap' ++ y)) := by
  apply outcome_congr
  · simp [hy]
  · simp [hy]
  · rw [profileText_append x (by simp [hy]), profileText_append x (by simp [hy])]
    split
    · rfl
    · -- separators have no NUL, so both texts go on behind them
      rw [profileText_append gap hy, profileText_append gap' hy,
        if_neg (zero_not_mem_separators hgap), if_neg (zero_not_mem_separators hgap'), significant,
        htokens, significant]

/-- Behind a comment, or any other complete piece, no separators are as good as some. -/
theorem insignificant_of_lexed (hlexed : Lexed p ts stopped) (hy : y ≠ []) :
    Insignificant host fun gap => p ++ (gap ++ y) := by
  intro gap gap' hseparators
  obtain ⟨hgap, hgap'⟩ := List.forall_mem_append.mp hseparators
  apply outcome_congr_gap hy hgap hgap'
  rw [hlexed.tokens_append, hlexed.tokens_append, tokens_separators hgap, tokens_separators hgap']

/-- A word that separators follow. -/
theorem tokens_word_gap (hw : WordText w) (hgap : ∀ c ∈ gap, isSeperator c = true)
    (hne : gap ≠ []) (rest : List UInt8) :
    tokens (w ++ (gap ++ rest)) =
      if w = [] then tokens rest
      else if w.length < symbolSize then (w.map tolower :: (tokens rest).1, (tokens rest).2)
      else ([], true) := by
  split
  · rename_i hnil
    rw [hnil, List.nil_append, tokens_separators hgap]
  · rename_i hword
    split
    · rename_i hfits
      have hhead := head?_separators hgap hne rest
      rw [tokens_eq (nextToken_plain _ hw hword hfits hhead), tokens_separators hgap]
    · rename_i hlong
      exact tokens_of_tooLong (nextToken_long _ hw (not_lt.mp hlong))

/-- Behind a word any separators are as good as any others. -/
theorem outcome_gap (hlexed : Lexed p ts stopped) (hw : WordText w) (hy : y ≠ [])
    (hgap : ∀ c ∈ gap, isSeperator c = true) (hgap' : ∀ c ∈ gap', isSeperator c = true)
    (hne : gap ≠ []) (hne' : gap' ≠ []) :
    outcome host (p ++ w ++ (gap ++ y)) = outcome host (p ++ w ++ (gap' ++ y)) := by
  apply outcome_congr_gap hy hgap hgap'
  rw [List.append_assoc, List.append_assoc, hlexed.tokens_append, hlexed.tokens_append]
  rw [tokens_word_gap hw hgap hne, tokens_word_gap hw hgap' hne']

end

/-! ## A place between two tags -/

/-- A word of a text that is a tag. -/
structure TagWord (w : List UInt8) : Prop where
  word : WordText w
  tag : PlainTag (w.map tolower)
  fits : w.length < symbolSize

/-- A place in a file: a word that ends a tag stands before it, or a `>` alone, and the next
tag begins behind it. -/
structure Place where
  before : List UInt8
  closing : List UInt8
  opening : List UInt8
  behind : List UInt8
  lexed : ∃ ts, Lexed before ts false
  closes : closing = str ">" ∨ TagWord closing
  opens : TagWord opening
  unended : (0 : UInt8) ∉ before ++ closing ++ opening
  apart : ∀ c ∈ (profileText behind).head?, isSeperator c = true
  lastByte : behind ≠ []

theorem TagWord.ne_nil {w : List UInt8} (h : TagWord w) : w ≠ [] := by
  rintro rfl
  exact tokenType_ne_error_of_tag h.tag.tag (tokenType_of_short (Nat.zero_le _))

namespace Place

variable (p : Place)

/-- The file, with these separators at the place. -/
def file (gap : List UInt8) : List UInt8 :=
  p.before ++ p.closing ++ (gap ++ (p.opening ++ p.behind))

/-- The significant tokens before the tags. -/
def tokensBefore : List (List UInt8) := (tokens p.before).1.filter (· ≠ str ">")

/-- The significant tokens behind the tags. -/
def tokensBehind : List (List UInt8) :=
  (tokens (profileText p.behind)).1.filter (· ≠ str ">")

/-- The token that the two tags make without separators between them. -/
def glued : List UInt8 := p.closing.map tolower ++ p.opening.map tolower

/-- The separated tokens of the tags. -/
def tags : List (List UInt8) :=
  if p.closing = str ">" then [p.opening.map tolower]
  else [p.closing.map tolower, p.opening.map tolower]

theorem closing_word : WordText p.closing ∧ p.closing ≠ [] ∧ p.closing.length < symbolSize := by
  obtain hclose | htag := p.closes
  · rw [hclose]
    refine ⟨.of_head? ?_ ?_, ?_, ?_⟩ <;> decide +kernel
  · exact ⟨htag.word, htag.ne_nil, htag.fits⟩

theorem glued_word : WordText (p.closing ++ p.opening) := by
  have hchars : ∀ c ∈ p.closing ++ p.opening, wordChar c = true := by
    intro c hc
    rcases List.mem_append.mp hc with hc | hc
    · exact p.closing_word.1.wordChar c hc
    · exact p.opens.word.wordChar c hc
  have hhead : (p.closing ++ p.opening).head? = p.closing.head? :=
    List.head?_append_of_ne_nil _ p.closing_word.2.1
  by_cases hopen : p.closing.head? = some '<'.toUInt8
  · -- a tag that begins with `<` is too long for the beginning of a comment
    have hlong : 4 ≤ p.closing.length := by
      obtain hclose | htag := p.closes
      · rw [hclose] at hopen
        exact absurd hopen (by decide)
      · obtain ⟨entry, hentry, hbegins, htype⟩ :=
          exists_entry (tokenType_ne_error_of_tag htag.tag.tag)
        have hall : ∀ entry ∈ tlist, entry.1 ∈ tagTypes → str entry.2 ≠ [] ∧
            ((str entry.2).head? = some '<'.toUInt8 → 4 ≤ (str entry.2).length) := by
          decide +kernel
        obtain ⟨hne, hlong⟩ := hall entry hentry (htype ▸ htag.tag.tag)
        have hlength := hbegins.length_le
        rw [List.length_map] at hlength
        refine (hlong ?_).trans hlength
        obtain ⟨tail, htail⟩ := hbegins
        rw [← List.head?_append_of_ne_nil _ hne, htail, List.head?_map, hopen]
        rfl
    obtain ⟨hcomment, hjunk⟩ := p.closing_word.1.append_of_long hlong p.opening
    exact ⟨hchars, hcomment, hjunk⟩
  · exact .of_head? hchars (hhead ▸ hopen)

theorem profileText_file {gap : List UInt8} (hgap : ∀ c ∈ gap, isSeperator c = true) :
    profileText (p.file gap) =
      p.before ++ (p.closing ++ (gap ++ (p.opening ++ profileText p.behind))) := by
  have hzero := p.unended
  rw [List.mem_append, not_or] at hzero
  have hrest : p.opening ++ p.behind ≠ [] := by simp [p.lastByte]
  rw [file, profileText_append _ (by simp [p.lastByte]), if_neg hzero.1,
    profileText_append _ hrest, if_neg (zero_not_mem_separators hgap),
    profileText_append _ p.lastByte, if_neg hzero.2, List.append_assoc]

theorem tokens_opening :
    tokens (p.opening ++ profileText p.behind) =
      (p.opening.map tolower :: (tokens (profileText p.behind)).1,
        (tokens (profileText p.behind)).2) :=
  tokens_eq (nextToken_plain _ p.opens.word p.opens.ne_nil p.opens.fits p.apart)

theorem significant_gap {gap : List UInt8} (hgap : ∀ c ∈ gap, isSeperator c = true)
    (hne : gap ≠ []) :
    significant (profileText (p.file gap)) =
      (p.tokensBefore ++ (p.tags ++ p.tokensBehind), (tokens (profileText p.behind)).2) := by
  obtain ⟨ts, hlexed⟩ := p.lexed
  obtain ⟨hword, hnil, hfits⟩ := p.closing_word
  have hopen : p.opening.map tolower ≠ str ">" := (ne_of_tag p.opens.tag.tag).2
  have hbefore : (tokens p.before).1 = ts := by rw [hlexed.tokens_eq]
  rw [significant, p.profileText_file hgap, hlexed.tokens_append, tokens_word_gap hword hgap hne,
    if_neg hnil, if_pos hfits, p.tokens_opening]
  simp only [Bool.false_eq_true, if_false, List.filter_append, tokensBefore, tokensBehind, tags,
    hbefore]
  -- a lone `>` is not significant
  by_cases hclose : p.closing = str ">"
  · have hlow : (str ">").map tolower = str ">" := by decide
    rw [hclose, hlow, if_pos rfl, List.filter_cons_of_neg (by simp),
      List.filter_cons_of_pos (by simpa using hopen)]
    rfl
  · have htag := p.closes.resolve_left hclose
    have hclosing : p.closing.map tolower ≠ str ">" := (ne_of_tag htag.tag.tag).2
    rw [if_neg hclose, List.filter_cons_of_pos (by simpa using hclosing),
      List.filter_cons_of_pos (by simpa using hopen)]
    rfl

theorem length_glued : 2 ≤ p.glued.length := by
  have hclosing := List.length_pos_iff.mpr p.closing_word.2.1
  have hopening := List.length_pos_iff.mpr p.opens.ne_nil
  rw [glued, List.length_append, List.length_map, List.length_map]
  omega

theorem glued_ne_close : p.glued ≠ str ">" := by
  intro heq
  have hlength := p.length_glued
  rw [heq] at hlength
  exact absurd hlength (by decide)

/-- Without separators the two tags are one token, if it is not too long. -/
theorem significant_glued :
    significant (profileText (p.file [])) =
      if p.closing.length + p.opening.length < symbolSize then
        (p.tokensBefore ++ (p.glued :: p.tokensBehind), (tokens (profileText p.behind)).2)
      else (p.tokensBefore, true) := by
  obtain ⟨ts, hlexed⟩ := p.lexed
  have hbefore : (tokens p.before).1 = ts := by rw [hlexed.tokens_eq]
  have htext : p.closing ++ ([] ++ (p.opening ++ profileText p.behind)) =
      (p.closing ++ p.opening) ++ profileText p.behind := by
    simp
  have hword : p.closing ++ p.opening ≠ [] := by simp [p.opens.ne_nil]
  rw [significant, p.profileText_file (by simp), hlexed.tokens_append, htext]
  by_cases hfits : p.closing.length + p.opening.length < symbolSize
  · rw [if_pos hfits]
    rw [← List.length_append] at hfits
    rw [tokens_eq (nextToken_plain _ p.glued_word hword hfits p.apart), List.map_append]
    simp only [Bool.false_eq_true, if_false, List.filter_append, tokensBefore, tokensBehind,
      hbefore]
    rw [← glued, List.filter_cons_of_pos (by simpa using p.glued_ne_close)]
  · rw [if_neg hfits]
    rw [not_lt, ← List.length_append] at hfits
    rw [tokens_of_tooLong (nextToken_long _ p.glued_word hfits)]
    simp [tokensBefore, hbefore]

theorem tags_ne_nil : p.tags ≠ [] := by
  unfold tags
  split <;> simp

theorem plainTag_tags : ∀ g ∈ p.tags, PlainTag g := by
  unfold tags
  split
  · exact List.forall_mem_singleton.mpr p.opens.tag
  · rename_i hclose
    have hclosing := (p.closes.resolve_left hclose).tag
    exact List.forall_mem_cons.mpr ⟨hclosing, List.forall_mem_singleton.mpr p.opens.tag⟩

theorem tokensBehind_ne : ∀ token ∈ p.tokensBehind, token ≠ str ">" := by
  intro token htoken
  simpa using List.of_mem_filter htoken

/-- The symbols of the rest of the file, where it is parsed alone. -/
theorem attach_behind {host : Host} {list : List Symbol} {errors : List ErrorText}
    (hparse : parse host (profileText p.behind) = .ok (list, errors)) :
    ∃ stR new, attach host {} p.tokensBehind = .ok (stR, new) ∧ stR.list = list := by
  obtain ⟨stR, hscan, hlist, -⟩ := parse_ok_iff.mp hparse
  obtain ⟨new, hR, -⟩ : ∃ new, attach host {} (tokens (profileText p.behind)).1 = .ok (stR, new) ∧
      errors = if (tokens (profileText p.behind)).2 then new ++ [str "token too long."] else new :=
    attachScan_ok_iff.mp hscan
  rw [← attach_filter] at hR
  exact ⟨stR, new, hR, hlist.symm⟩

theorem closing_ne (hclosing : TagWord p.closing) : p.closing ≠ str ">" := by
  intro hclose
  have htag := hclosing.tag.tag
  rw [hclose] at htag
  exact absurd htag (by decide)

/-- The first tag keeps its type in the token of both. -/
theorem glued_tag (hclosing : TagWord p.closing) :
    p.tags = [p.closing.map tolower, p.opening.map tolower] ∧ PlainTag p.glued ∧
      tokenType p.glued = tokenType (p.closing.map tolower) := by
  refine ⟨if_neg (p.closing_ne hclosing), hclosing.tag.append p.opens.tag, ?_⟩
  exact tokenType_append (tokenType_ne_error_of_tag hclosing.tag.tag) _

/-- The file can do without the second tag: it begins no object, nothing looks at what it
ends, and it makes a tag with the first and with nothing else. -/
structure Expendable (host : Host) : Prop where
  closing : p.closing ≠ str ">"
  opening : tokenType (p.opening.map tolower) ∉ startTypes
  fits : p.closing.length + p.opening.length < symbolSize
  apart : ∀ st new, attach host {} p.tokensBefore = .ok (st, new) → st.Settled
  next : ∀ token ∈ p.tokensBehind.head?, token.head? ≠ some '='.toUInt8
  unheeded : ∀ list errors, parse host (profileText p.behind) = .ok (list, errors) →
    Unheeded (tokenType (p.opening.map tolower)) (list.map Symbol.type)

/-- Then the two tags in one token lead to what they lead to with separators between them. -/
theorem Expendable.outcome_glued {host : Host} {p : Place} (h : p.Expendable host)
    {gap : List UInt8} (hgap : ∀ c ∈ gap, isSeperator c = true) (hne : gap ≠ []) :
    outcome host (p.file gap) = outcome host (p.file []) := by
  have hclosing : TagWord p.closing := p.closes.resolve_left h.closing
  obtain ⟨htags, hplain, htype⟩ := p.glued_tag hclosing
  have hfile : ∀ gap, p.file gap ≠ [] := by simp [file, p.lastByte]
  have hnext : ∀ token ∈ p.tokensBehind.head?,
      token ≠ str ">" ∧ token.head? ≠ some '='.toUInt8 := fun token htoken =>
    ⟨p.tokensBehind_ne token (List.mem_of_mem_head? htoken), h.next token htoken⟩
  have hsep := parse_tags p.plainTag_tags (p.significant_gap hgap hne) h.apart hnext
  have hglued : significant (profileText (p.file [])) = (p.tokensBefore ++
      ([p.glued] ++ p.tokensBehind), (tokens (profileText p.behind)).2) := by
    rw [p.significant_glued, if_pos h.fits]
    rfl
  have hone := parse_tags (List.forall_mem_singleton.mpr hplain) hglued h.apart hnext
  unfold outcome
  rw [parseAppProfile_eq (hfile gap), parseAppProfile_eq (hfile []), hsep, hone, htags]
  -- both files come to the first tag with the same symbols
  cases hfirst : loop (parseToken host) ({}, []) p.tokensBefore with
  | error fault => rfl
  | ok first =>
      obtain ⟨new, -, -, hroom⟩ := (loop_parseToken_ok_iff (Nat.zero_le _)).mp hfirst
      simp only [Except.bind]
      cases hrest : parseRest host first.2
          (p.tokensBehind, (tokens (profileText p.behind)).2) with
      | error fault => rfl
      | ok rest =>
          obtain ⟨later, halone⟩ := parse_of_parseRest hroom hrest
          exact congrArg (Except.map Prod.fst) (buildWorklist_swallowed hclosing.tag p.opens.tag
            hplain htype h.opening (h.unheeded rest.1 later halone))

theorem Expendable.insignificant {host : Host} {p : Place} (h : p.Expendable host) :
    Insignificant host p.file := by
  have hall : ∀ gap, (∀ c ∈ gap, isSeperator c = true) →
      outcome host (p.file gap) = outcome host (p.file []) := by
    intro gap hgap
    by_cases hne : gap = []
    · rw [hne]
    · exact h.outcome_glued hgap hne
  intro gap gap' hgaps
  obtain ⟨hgap, hgap'⟩ := List.forall_mem_append.mp hgaps
  rw [hall gap hgap, hall gap' hgap']

section

variable {host : Host} {stR : Symbols} {new : List ErrorText} {w w' : Workorder}

/-- A tag behind a `>` in the same token is an unknown symbol. -/
theorem not_accepts_glued_close (hclose : p.closing = str ">")
    (hR : attach host {} p.tokensBehind = .ok (stR, new))
    (h : Accepts host (p.tokensBefore ++ (p.tags ++ p.tokensBehind)) w) :
    ¬ Accepts host (p.tokensBefore ++ (p.glued :: p.tokensBehind)) w' := by
  have hglued : p.glued = '>'.toUInt8 :: p.opening.map tolower := by
    rw [glued, hclose]
    rfl
  have hhead : p.glued.head? = some '>'.toUInt8 := by rw [hglued]; rfl
  have hunknown : tokenType p.glued = .error := by
    rw [hglued]
    exact tokenType_close _
  -- nothing is merged with it
  have hclosed : Closed p.glued := by
    constructor
    · intro hnil
      rw [hnil] at hhead
      cases hhead
    · intro hlast
      have hmem := List.mem_of_getLast? hlast
      rw [hglued, List.mem_cons] at hmem
      obtain h | h := hmem
      · exact absurd h (by decide)
      · exact p.opens.tag.plain h
    · intro hopen
      rw [hopen] at hhead
      exact absurd hhead (by decide)
    · intro hslash
      rw [hslash] at hhead
      exact absurd hhead (by decide)
  obtain ⟨-, mid, -, hmid, hsettled, -⟩ :=
    (accepts_tags_iff p.tags_ne_nil p.plainTag_tags hR p.tokensBehind_ne).mp h
  rintro ⟨st, b, hattach, hrun, -⟩
  obtain ⟨mid', hmid', hlater⟩ := attach_append_ok_nil_iff.mp hattach
  cases hmid.symm.trans hmid'
  obtain ⟨next, first, later, hstep, hbehind, -⟩ := attach_cons_ok_iff.mp hlater
  have hfresh : freshSymbol host p.glued = (⟨.error, p.glued, .token⟩, []) := by
    unfold freshSymbol
    rw [hunknown]
  have hequals : p.glued.head? ≠ some '='.toUInt8 := by
    rw [hhead]
    decide
  rw [parseStep_fresh hsettled p.glued_ne_close hequals, hfresh] at hstep
  cases hstep
  -- the symbol stays, and is rejected
  have hnext : Symbols.Settled
      { earlier := mid.list, curr := some ⟨.error, p.glued, .token⟩ } := hclosed
  have hbegins :=
    list_prefix_of_settled hnext (head?_of_attach hR p.tokensBehind_ne) hbehind
  exact known_of_run hrun ⟨.error, p.glued, .token⟩
    (hbegins.subset (by simp [Symbols.list])) rfl

/-- Two tags in one token are not as good as both if the second begins an object. -/
theorem not_start_of_glued (hclosing : TagWord p.closing)
    (hR : attach host {} p.tokensBehind = .ok (stR, new))
    (h : Accepts host (p.tokensBefore ++ (p.tags ++ p.tokensBehind)) w)
    (hglued : Accepts host (p.tokensBefore ++ (p.glued :: p.tokensBehind)) w) :
    tokenType (p.opening.map tolower) ∉ startTypes := by
  obtain ⟨htags, hplain, htype⟩ := p.glued_tag hclosing
  obtain ⟨-, mid, b, hmid, -, hrun, rfl⟩ :=
    (accepts_tags_iff p.tags_ne_nil p.plainTag_tags hR p.tokensBehind_ne).mp h
  rw [← List.singleton_append, accepts_tags_iff (List.cons_ne_nil _ _)
    (List.forall_mem_singleton.mpr hplain) hR p.tokensBehind_ne] at hglued
  obtain ⟨-, mid', b', hmid', -, hrun', heq⟩ := hglued
  cases hmid.symm.trans hmid'
  intro hstart
  -- the work orders have different numbers of objects
  have hcount := objects_of_visits hrun
  rw [heq, objects_of_visits hrun', htags] at hcount
  simp only [List.countP_append, List.map_cons, List.map_nil, List.countP_cons, List.countP_nil,
    tagSymbol, htype, hstart, decide_true, if_true] at hcount
  omega

/-- A file that is accepted can do without a tag that begins no object. -/
theorem expendable_of_accepts (hclose : p.closing ≠ str ">")
    (hstart : tokenType (p.opening.map tolower) ∉ startTypes)
    (hfits : p.closing.length + p.opening.length < symbolSize)
    (hR : attach host {} p.tokensBehind = .ok (stR, new))
    (hnames : tokenType (p.opening.map tolower) = .groupEnd → Unnamed (stR.list.map Symbol.type))
    (h : Accepts host (p.tokensBefore ++ (p.tags ++ p.tokensBehind)) w) : p.Expendable host := by
  have hclosing : TagWord p.closing := p.closes.resolve_left hclose
  obtain ⟨htags, -, -⟩ := p.glued_tag hclosing
  obtain ⟨-, mid, b, hmid, hsettled, hrun, -⟩ :=
    (accepts_tags_iff p.tags_ne_nil p.plainTag_tags hR p.tokensBehind_ne).mp h
  refine ⟨hclose, hstart, hfits, fun st later hattach => ?_, fun token htoken => ?_,
    fun list errors hparse => ?_⟩
  · cases hmid.symm.trans hattach
    exact hsettled
  · exact (head?_of_attach hR p.tokensBehind_ne token htoken).2
  · -- the symbols behind are those of the run behind the tag
    obtain ⟨st, later, hattach, rfl⟩ := p.attach_behind hparse
    cases hR.symm.trans hattach
    rw [htags] at hrun
    simp only [List.map_cons, List.map_nil, List.cons_append, List.nil_append, visits_append,
      hclosing.tag.visits_cons, p.opens.tag.visits_cons] at hrun
    rw [run_append] at hrun
    obtain ⟨first, -, hrest⟩ := Option.bind_eq_some_iff.mp hrun
    obtain ⟨second, -, hopening⟩ := run_cons.mp hrest
    obtain ⟨third, hthird, hlater⟩ := run_cons.mp hopening
    rw [cleanStep_eq_some_iff, buildStep_endTag p.opens.tag.tag hstart] at hthird
    cases hthird
    have hunheeded := unheeded_of_run (fun htag => by
      rw [map_type_visits]
      exact hnames htag) hlater
    rwa [map_type_visits] at hunheeded

/-- Where the file is accepted with separators at the place, they make no difference exactly
if the first tag ends in a word that is a tag, the second one begins no object, and the two
make a token that is not too long. -/
theorem insignificant_iff {gap : List UInt8} {list : List Symbol} {errors : List ErrorText}
    (hgap : ∀ c ∈ gap, isSeperator c = true) (hne : gap ≠ [])
    (haccepts : outcome host (p.file gap) = .ok (some w))
    (hbehind : parse host (profileText p.behind) = .ok (list, errors))
    (hnames : tokenType (p.opening.map tolower) = .groupEnd → Unnamed (list.map Symbol.type)) :
    Insignificant host p.file ↔
      p.closing ≠ str ">" ∧ tokenType (p.opening.map tolower) ∉ startTypes ∧
        p.closing.length + p.opening.length < symbolSize := by
  obtain ⟨stR, new, hR, rfl⟩ := p.attach_behind hbehind
  have hfile : ∀ gap, p.file gap ≠ [] := by simp [file, p.lastByte]
  obtain ⟨-, htooLong, hsep⟩ := outcome_eq_some_iff.mp haccepts
  rw [p.significant_gap hgap hne] at htooLong hsep
  -- what it takes to be accepted without separators
  have hnil : ∀ w', outcome host (p.file []) = .ok (some w') ↔
      p.closing.length + p.opening.length < symbolSize ∧
        Accepts host (p.tokensBefore ++ (p.glued :: p.tokensBehind)) w' := by
    intro w'
    rw [outcome_eq_some_iff, p.significant_glued, and_iff_right (hfile [])]
    split
    · rename_i hfits
      exact and_congr_left' (iff_of_true htooLong hfits)
    · rename_i hlong
      exact iff_of_false (fun h => Bool.noConfusion h.1) fun h => hlong h.1
  constructor
  · intro hsame
    have hglued := (hsame [] gap (by simpa using hgap)).trans haccepts
    obtain ⟨hfits, hglued⟩ := (hnil w).mp hglued
    have hclose : p.closing ≠ str ">" := fun hclose =>
      p.not_accepts_glued_close hclose hR hsep hglued
    exact ⟨hclose, p.not_start_of_glued (p.closes.resolve_left hclose) hR hsep hglued, hfits⟩
  · rintro ⟨hclose, hstart, hfits⟩
    exact (p.expendable_of_accepts hclose hstart hfits hR hnames hsep).insignificant

end

end Place

theorem tagWord_of {w : List UInt8} (hchars : ∀ c ∈ w, wordChar c = true)
    (hcomment : (str "<!--").isPrefixOf w = false) (hjunk : (str "<?").isPrefixOf w = false)
    (htag : tokenType (w.map tolower) ∈ tagTypes) (hplain : '='.toUInt8 ∉ w.map tolower)
    (hfits : w.length < symbolSize) : TagWord w :=
  ⟨⟨hchars, hcomment, hjunk⟩, ⟨htag, hplain⟩, hfits⟩

/-- Between the tags of a profile without groups. -/
def profilePlace : Place where
  before := []
  closing := str "<profile>"
  opening := str "</profile>"
  behind := str "\n"
  lexed := ⟨[], .nil⟩
  closes := Or.inr (by apply tagWord_of <;> decide +kernel)
  opens := by apply tagWord_of <;> decide +kernel
  unended := by decide +kernel
  apart := by decide +kernel
  lastByte := by decide

/-- What is read of the first flowop. -/
theorem lexed_flowop :
    ∃ ts, Lexed (str "<group> <transaction> <flowop type=\"read\"") ts false := by
  have htype : Lexed (str "type=\"read\"") [str "type=read"] false := by
    refine .quoted (w := str "type=") (q := str "read") ⟨?_, ?_, ?_⟩ ?_ ?_ .nil <;> decide +kernel
  have hword : ∀ {w p : List UInt8} {ts : List (List UInt8)}, TagWord w → Lexed p ts false →
      Lexed (w ++ 32 :: p) (w.map tolower :: ts) false := fun hw hp =>
    .word hw.word hw.ne_nil hw.fits ⟨32, _, rfl, rfl⟩ (.separator rfl hp)
  have hflowop : TagWord (str "<flowop") := by apply tagWord_of <;> decide +kernel
  have htxn : TagWord (str "<transaction>") := by apply tagWord_of <;> decide +kernel
  have hgroup : TagWord (str "<group>") := by apply tagWord_of <;> decide +kernel
  exact ⟨_, hword hgroup (hword htxn (hword hflowop htype))⟩

/-- Between two flowops. -/
def flowopPlace : Place where
  before := str "<group> <transaction> <flowop type=\"read\""
  closing := str "/>"
  opening := str "<flowop"
  behind := str " type=\"write\" />\n"
  lexed := lexed_flowop
  closes := Or.inr (by apply tagWord_of <;> decide +kernel)
  opens := by apply tagWord_of <;> decide +kernel
  unended := by decide +kernel
  apart := by decide +kernel
  lastByte := by decide +kernel

end Uperf
