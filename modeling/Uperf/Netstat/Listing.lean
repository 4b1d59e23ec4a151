import Uperf.Parse.Numbers
import Mathlib.Tactic.NormNum

/-!
# The listing of the interfaces

On Linux uperf reads the statistics of the interfaces from `/proc/net/dev`.  The lines are
read into a buffer of 1024 bytes and cut into tokens, and the header says at which token
`netstat_parse` finds its four numbers.

The second half of this file is the listing as the kernel prints it.  Its header gives the
columns 1, 2, 9 and 10 (`netstatInit_text`), and there the line of an interface has its own
numbers (`netstatParse_line`), unless bars cut its name into several words or leave none.
-/

namespace Uperf

open Lib

namespace Netstat

/-! ## Lines and tokens -/

/-- The byte of a newline. -/
def newline : UInt8 := 10

/-- `fgets (buffer, size, f)`: the string in the buffer and the rest of the file, where that
is not at its end. -/
def fgets (size : ℕ) (file : List UInt8) : Option (List UInt8 × List UInt8) :=
  if file = [] then none
  else
    let most := file.take (size - 1)
    let line := most.takeWhile (· ≠ newline)
    let buffer := if newline ∈ most then line ++ [newline] else most
    some (buffer.takeWhile (· ≠ 0), file.drop buffer.length)

/-- The buffers that `while (fgets (buffer, 1024, f) != NULL)` reads, up to `most` of them. -/
def readLines : ℕ → List UInt8 → List (List UInt8)
  | 0, _ => []
  | most + 1, file =>
      match fgets 1024 file with
      | none => []
      | some (buffer, rest) => buffer :: readLines most rest

/-- A character of `NETSTAT_SEP`. -/
def isSep (c : UInt8) : Bool := c = ' '.toUInt8 || c = '|'.toUInt8 || c = ':'.toUInt8

/-- The tokens that `strtok` finds one after the other. -/
def tokens (line : List UInt8) : List (List UInt8) := (line.splitOnP isSep).filter (· ≠ [])

/-! ## The columns -/

/-- `i_rbytes`, `i_rpkts`, `i_tbytes` and `i_tpkts`. -/
structure Columns where
  rbytes : ℕ := 0
  rpkts : ℕ := 0
  tbytes : ℕ := 0
  tpkts : ℕ := 0
deriving DecidableEq

/-- A round of the loop of `netstat_init`, with `index`. -/
def headerToken (st : Columns × ℕ) (token : List UInt8) : Columns × ℕ :=
  let (cols, index) := st
  let cols :=
    if token = str "packets" then
      if cols.rpkts = 0 then { cols with rpkts := index } else { cols with tpkts := index }
    else if token = str "bytes" then
      if cols.rbytes = 0 then { cols with rbytes := index } else { cols with tbytes := index }
    else cols
  (cols, index + 1)

/-- The columns of a header. -/
def headerColumns (header : List UInt8) : Columns := ((tokens header).foldl headerToken ({}, 0)).1

/-- `netstat_init` of a listing. -/
def netstatInit (file : List UInt8) : Option Columns := do
  let (_, file) ← fgets 1024 file
  let (buffer, _) ← fgets 1024 file
  let cols := headerColumns buffer
  if cols.rpkts = cols.tpkts ∨ cols.rbytes = cols.tbytes then none else some cols

/-- `struct packet_stats` without its time. -/
structure PacketStats where
  txPkts : UInt64 := 0
  rxPkts : UInt64 := 0
  txBytes : UInt64 := 0
  rxBytes : UInt64 := 0
deriving DecidableEq

/-- `strtoull (token, NULL, 10)`. -/
def strtoull (token : List UInt8) : UInt64 :=
  let text := token.dropWhile isSpace
  let signed := text.head? = some '-'.toUInt8 ∨ text.head? = some '+'.toUInt8
  let n := digitsValue ((if signed then text.tail else text).takeWhile isDigit)
  if 2 ^ 64 ≤ n then .ofNat (2 ^ 64 - 1)
  else if text.head? = some '-'.toUInt8 then -.ofNat n else .ofNat n

/-- A round of the loop of `netstat_parse`, with `index`. -/
def parseToken (cols : Columns) (st : PacketStats × ℕ) (token : List UInt8) : PacketStats × ℕ :=
  let (ps, index) := st
  let ps :=
    if index = cols.rbytes then { ps with rxBytes := strtoull token }
    else if index = cols.tbytes then { ps with txBytes := strtoull token }
    else if index = cols.tpkts then { ps with txPkts := strtoull token }
    else if index = cols.rpkts then { ps with rxPkts := strtoull token }
    else ps
  (ps, index + 1)

/-- `netstat_parse`. -/
def netstatParse (cols : Columns) (line : List UInt8) : PacketStats :=
  ((tokens line).foldl (parseToken cols) ({}, 0)).1

/-! ## The listing -/

/-- The first line above the interfaces. -/
def interHeader : List UInt8 :=
  str ("Inter-|   Receive                            " ++ "                    |  Transmit")

/-- The second line above the interfaces, which names the columns. -/
def faceHeader : List UInt8 :=
  str (" face |bytes    packets errs drop fifo frame " ++
    "compressed multicast|bytes    packets errs " ++ "drop fifo colls carrier compressed")

/-- The byte of a bar, which a name may have and `NETSTAT_SEP` too. -/
def bar : UInt8 := '|'.toUInt8

/-- A byte that can be part of the name of an interface: Linux allows all but slashes, colons
and white space. -/
def isNameByte (c : UInt8) : Bool :=
  c ≠ 0 && c ≠ newline && c ≠ ' '.toUInt8 && c ≠ ':'.toUInt8

/-- An interface with its numbers.  A name has 15 bytes at most on Linux, and the array for it
in uperf has 32. -/
structure Interface where
  name : List UInt8
  rxBytes : UInt64 := 0
  rxPackets : UInt64 := 0
  rxErrs : UInt64 := 0
  rxDrop : UInt64 := 0
  rxFifo : UInt64 := 0
  rxFrame : UInt64 := 0
  rxCompressed : UInt64 := 0
  rxMulticast : UInt64 := 0
  txBytes : UInt64 := 0
  txPackets : UInt64 := 0
  txErrs : UInt64 := 0
  txDrop : UInt64 := 0
  txFifo : UInt64 := 0
  txColls : UInt64 := 0
  txCarrier : UInt64 := 0
  txCompressed : UInt64 := 0
  name_ne_nil : name ≠ []
  length_name : name.length ≤ 32
  name_bytes : name.all isNameByte = true

/-- A text set to the right in a column. -/
def padLeft (width : ℕ) (text : List UInt8) : List UInt8 :=
  List.replicate (width - text.length) ' '.toUInt8 ++ text

/-- The numbers of a line, with the widths of their columns. -/
def fieldsText : List (ℕ × UInt64) → List UInt8
  | [] => []
  | (width, n) :: rest => ' '.toUInt8 :: (padLeft width (decimal n.toNat) ++ fieldsText rest)

namespace Interface

/-- The numbers in the order of the columns. -/
def fields (i : Interface) : List (ℕ × UInt64) :=
  [(7, i.rxBytes), (7, i.rxPackets), (4, i.rxErrs), (4, i.rxDrop), (4, i.rxFifo), (5, i.rxFrame),
    (10, i.rxCompressed), (9, i.rxMulticast), (8, i.txBytes), (7, i.txPackets), (4, i.txErrs),
    (4, i.txDrop), (4, i.txFifo), (5, i.txColls), (7, i.txCarrier), (10, i.txCompressed)]

/-- The first word of the name between its bars. -/
def word (i : Interface) : List UInt8 := (i.name.dropWhile (· = bar)).takeWhile (· ≠ bar)

/-- There is one word in the name, and bars only around it. -/
structure Plain (i : Interface) : Prop where
  ne_nil : i.word ≠ []
  behind : ∀ c ∈ (i.name.dropWhile (· = bar)).dropWhile (· ≠ bar), c = bar

/-- The line of the interface. -/
def line (i : Interface) : List UInt8 := padLeft 6 i.name ++ ':'.toUInt8 :: fieldsText i.fields

/-- The numbers that uperf keeps of the interface. -/
def stats (i : Interface) : PacketStats where
  txPkts := i.txPackets
  rxPkts := i.rxPackets
  txBytes := i.txBytes
  rxBytes := i.rxBytes

end Interface

/-- `/proc/net/dev`: the interfaces, which have different names. -/
structure Listing where
  interfaces : List Interface
  nodup : (interfaces.map Interface.name).Nodup

/-- Lines with a newline behind each. -/
def linesText (lines : List (List UInt8)) : List UInt8 := lines.flatMap (· ++ [newline])

/-- The text of the listing. -/
def Listing.text (l : Listing) : List UInt8 :=
  linesText (interHeader :: faceHeader :: l.interfaces.map Interface.line)

/-- A line that fits the buffer, with the newline behind it. -/
structure IsLine (line : List UInt8) : Prop where
  bytes : line.all (fun c => c ≠ 0 && c ≠ newline) = true
  length_lt : line.length < 1023

section

variable {line rest : List UInt8}

/-! ## Reading lines -/

theorem fgets_line (hline : IsLine line) (rest : List UInt8) :
    fgets 1024 (line ++ newline :: rest) = some (line ++ [newline], rest) := by
  have hlength := hline.length_lt
  have hbytes := List.all_eq_true.mp hline.bytes
  have htake : (line ++ newline :: rest).take 1023 =
      line ++ newline :: rest.take (1022 - line.length) := by
    rw [List.take_append, List.take_of_length_le (by omega),
      show 1023 - line.length = (1022 - line.length) + 1 by omega, List.take_succ_cons]
  -- `fgets` stops at the end of the line, and there is no NUL before
  have hcut : (line ++ newline :: rest.take (1022 - line.length)).takeWhile (· ≠ newline) =
      line := by
    rw [List.takeWhile_append_of_pos fun c hc => by simpa using (by simpa using hbytes c hc :
      c ≠ 0 ∧ c ≠ newline).2]
    simp
  have hstring : (line ++ [newline]).takeWhile (· ≠ 0) = line ++ [newline] := by
    rw [List.takeWhile_eq_self_iff]
    intro c hc
    obtain hc | hc := List.mem_append.mp hc
    · simpa using (by simpa using hbytes c hc : c ≠ 0 ∧ c ≠ newline).1
    · rw [List.mem_singleton.mp hc]
      decide
  rw [fgets, if_neg (by simp)]
  simp only [show 1024 - 1 = 1023 from rfl, htake, hcut]
  rw [if_pos (by simp), hstring]
  simp

theorem linesText_cons (line : List UInt8) (lines : List (List UInt8)) :
    linesText (line :: lines) = line ++ newline :: linesText lines := by
  simp [linesText]

/-- The loop reads all lines. -/
theorem readLines_linesText {lines : List (List UInt8)} (hlines : ∀ line ∈ lines, IsLine line)
    {most : ℕ} (hmost : lines.length ≤ most) :
    readLines most (linesText lines) = lines.map (· ++ [newline]) := by
  induction lines generalizing most with
  | nil => cases most <;> rfl
  | cons line lines ih =>
      obtain ⟨most, rfl⟩ := Nat.exists_eq_succ_of_ne_zero (Nat.ne_zero_of_lt hmost)
      have hfirst := fgets_line (hlines line List.mem_cons_self) (linesText lines)
      have hrest := ih (fun l hl => hlines l (List.mem_cons_of_mem line hl))
        (Nat.le_of_succ_le_succ hmost)
      rw [linesText_cons, readLines, hfirst]
      simp only
      rw [hrest, List.map_cons]

theorem length_le_linesText (lines : List (List UInt8)) :
    lines.length ≤ (linesText lines).length := by
  induction lines with
  | nil => exact Nat.zero_le _
  | cons line lines ih =>
      rw [linesText_cons, List.length_cons, List.length_append, List.length_cons]
      omega

/-! ## Cutting a line into tokens -/

/-- What is in front of a separator without one is a token. -/
theorem tokens_cons {word : List UInt8} (hne : word ≠ []) (hword : ∀ c ∈ word, isSep c = false)
    {sep : UInt8} (hsep : isSep sep = true) (rest : List UInt8) :
    tokens (word ++ sep :: rest) = word :: tokens rest := by
  rw [tokens, List.splitOnP_append_cons_of_forall_mem hword sep hsep, List.filter_cons]
  simp [hne, tokens]

/-- Without a separator all is one token. -/
theorem tokens_word {word : List UInt8} (hne : word ≠ []) (hword : ∀ c ∈ word, isSep c = false) :
    tokens word = [word] := by
  rw [tokens, List.splitOnP_eq_singleton hword]
  simp [hne]

/-- Separators in front of a text are skipped. -/
theorem tokens_sep {sep : UInt8} (hsep : isSep sep = true) (rest : List UInt8) :
    tokens (sep :: rest) = tokens rest := by
  have hnone : ∀ c ∈ ([] : List UInt8), isSep c = false := by simp
  have hsplit := List.splitOnP_append_cons_of_forall_mem hnone sep hsep rest
  rw [List.nil_append] at hsplit
  rw [tokens, hsplit, List.filter_cons]
  simp [tokens]

theorem tokens_seps {seps : List UInt8} (hseps : ∀ c ∈ seps, isSep c = true)
    (rest : List UInt8) : tokens (seps ++ rest) = tokens rest := by
  induction seps with
  | nil => rfl
  | cons c seps ih =>
      rw [List.cons_append, tokens_sep (hseps c List.mem_cons_self),
        ih fun d hd => hseps d (List.mem_cons_of_mem c hd)]

theorem tokens_padLeft (width : ℕ) (text rest : List UInt8) :
    tokens (padLeft width text ++ rest) = tokens (text ++ rest) := by
  rw [padLeft, List.append_assoc]
  refine tokens_seps (fun c hc => ?_) _
  rw [List.eq_of_mem_replicate hc]
  decide

theorem isSep_of_isDigit {c : UInt8} (hc : isDigit c = true) : isSep c = false := by
  simp only [isSep, Bool.or_eq_false_iff, decide_eq_false_iff_not]
  exact ⟨⟨ne_of_isDigit hc (by decide), ne_of_isDigit hc (by decide)⟩, ne_of_isDigit hc (by decide)⟩

/-- The numbers of a line are tokens, the last of them with the newline. -/
theorem tokens_fieldsText (fields : List (ℕ × UInt64)) (last : ℕ × UInt64) :
    tokens (fieldsText (fields ++ [last]) ++ [newline]) =
      fields.map (fun field => decimal field.2.toNat) ++ [decimal last.2.toNat ++ [newline]] := by
  have hdigits : ∀ n, ∀ c ∈ decimal n, isSep c = false := fun n c hc =>
    isSep_of_isDigit (isDigit_of_mem_decimal hc)
  induction fields with
  | nil =>
      have hlast : ∀ c ∈ decimal last.2.toNat ++ [newline], isSep c = false := by
        intro c hc
        obtain hc | hc := List.mem_append.mp hc
        · exact hdigits _ c hc
        · rw [List.mem_singleton.mp hc]
          decide
      rw [List.nil_append, fieldsText, fieldsText, List.append_nil, List.cons_append,
        tokens_sep (by decide), tokens_padLeft, tokens_word (by simp) hlast]
      rfl
  | cons field fields ih =>
      obtain ⟨width, n⟩ := field
      rw [List.cons_append, fieldsText, List.cons_append, tokens_sep (by decide),
        List.append_assoc, tokens_padLeft]
      -- the next number begins with a separator
      obtain ⟨tail, htail⟩ : ∃ tail, fieldsText (fields ++ [last]) ++ [newline] =
          ' '.toUInt8 :: tail := by
        cases fields with
        | nil => exact ⟨_, rfl⟩
        | cons next fields => exact ⟨_, rfl⟩
      rw [htail, tokens_sep (by decide)] at ih
      rw [htail, tokens_cons decimal_ne_nil (hdigits _) (by decide), ih]
      rfl

theorem strtoull_decimal (n : UInt64) : strtoull (decimal n.toNat) = n := by
  obtain ⟨c, digits, hcons, hc⟩ := decimal_eq_cons n.toNat
  have hminus : c ≠ '-'.toUInt8 := ne_of_isDigit hc (by decide)
  have hplus : c ≠ '+'.toUInt8 := ne_of_isDigit hc (by decide)
  have hhead : (decimal n.toNat).head? = some c := by rw [hcons]; rfl
  have hlt : ¬ 2 ^ 64 ≤ n.toNat := not_le.mpr n.toNat_lt
  simp only [strtoull, dropWhile_isSpace_decimal, hhead, Option.some.injEq, hminus, hplus, or_self,
    if_false, takeWhile_isDigit_decimal, digitsValue_decimal, hlt, UInt64.ofNat_toNat]

namespace Interface

/-- The name from its first word on, and what is behind the word. -/
theorem name_eq (i : Interface) :
    i.name = i.name.takeWhile (· = bar) ++
      (i.word ++ (i.name.dropWhile (· = bar)).dropWhile (· ≠ bar)) := by
  rw [word, List.takeWhile_append_dropWhile, List.takeWhile_append_dropWhile]

theorem mem_name_of_mem_word {i : Interface} {c : UInt8} (hc : c ∈ i.word) : c ∈ i.name := by
  rw [i.name_eq]
  exact List.mem_append_right _ (List.mem_append_left _ hc)

theorem length_word_le (i : Interface) : i.word.length ≤ 32 := by
  have hlength := i.length_name
  rw [i.name_eq, List.length_append, List.length_append] at hlength
  omega

theorem isSep_word (i : Interface) : ∀ c ∈ i.word, isSep c = false := by
  intro c hc
  have hbyte := List.all_eq_true.mp i.name_bytes c (mem_name_of_mem_word hc)
  have hbar : c ≠ bar := by simpa using List.mem_takeWhile_imp hc
  unfold bar at hbar
  simp only [isNameByte, Bool.and_eq_true, decide_eq_true_eq] at hbyte
  simp [isSep, hbyte.1.2, hbyte.2, hbar]

/-- The tokens of a line are the word of the name and the numbers. -/
theorem Plain.tokens_line {i : Interface} (h : i.Plain) :
    tokens (i.line ++ [newline]) =
      i.word :: (i.fields.dropLast.map fun field => decimal field.2.toNat) ++
        [decimal i.txCompressed.toNat ++ [newline]] := by
  have hfields : i.fields = i.fields.dropLast ++ [(10, i.txCompressed)] := rfl
  have hbar : ∀ c, c = bar → isSep c = true := by
    rintro c rfl
    decide
  have hbefore : ∀ c ∈ i.name.takeWhile (· = bar), isSep c = true := fun c hc =>
    hbar c (by simpa using List.mem_takeWhile_imp hc)
  have hword : tokens (i.name ++ ':'.toUInt8 :: (fieldsText i.fields ++ [newline])) =
      i.word :: tokens (fieldsText i.fields ++ [newline]) := by
    rw [i.name_eq, List.append_assoc, tokens_seps hbefore, List.append_assoc]
    -- the word ends at a bar, or at the colon
    have hbehind := h.behind
    generalize (i.name.dropWhile (· = bar)).dropWhile (· ≠ bar) = behind at hbehind
    cases behind with
    | nil => rw [List.nil_append, tokens_cons h.ne_nil i.isSep_word (by decide)]
    | cons c behind =>
        rw [List.cons_append, tokens_cons h.ne_nil i.isSep_word
          (hbar c (hbehind c List.mem_cons_self)),
          tokens_seps fun d hd => hbar d (hbehind d (List.mem_cons_of_mem c hd)),
          tokens_sep (by decide)]
  rw [line, List.append_assoc, tokens_padLeft, List.cons_append, hword, hfields,
    tokens_fieldsText]
  rfl

end Interface

/-- The columns that the header names. -/
def listingColumns : Columns := ⟨1, 2, 9, 10⟩

/-- At these columns a line has the numbers of its interface. -/
theorem netstatParse_line {i : Interface} (h : i.Plain) :
    netstatParse listingColumns (i.line ++ [newline]) = i.stats := by
  rw [netstatParse, h.tokens_line]
  simp [Interface.fields, parseToken, listingColumns, strtoull_decimal, Interface.stats]

/-! ## The text of a listing -/

theorem length_padLeft (width : ℕ) (text : List UInt8) :
    (padLeft width text).length = max width text.length := by
  simp only [padLeft, List.length_append, List.length_replicate]
  omega

/-- A line has room for its numbers. -/
theorem length_fieldsText_le {fields : List (ℕ × UInt64)}
    (hfields : ∀ field ∈ fields, field.1 ≤ 20) :
    (fieldsText fields).length ≤ 21 * fields.length := by
  induction fields with
  | nil => exact Nat.zero_le _
  | cons field fields ih =>
      obtain ⟨width, n⟩ := field
      have hwidth : width ≤ 20 := hfields (width, n) List.mem_cons_self
      have hrest := ih fun f hf => hfields f (List.mem_cons_of_mem _ hf)
      have hnumber : (decimal n.toNat).length ≤ 20 :=
        length_decimal_le (by norm_num) (n.toNat_lt.trans (by norm_num))
      rw [fieldsText, List.length_cons, List.length_append, length_padLeft, List.length_cons]
      omega

theorem all_padLeft {p : UInt8 → Bool} (hspace : p ' '.toUInt8 = true) {width : ℕ}
    {text : List UInt8} (htext : text.all p = true) : (padLeft width text).all p = true := by
  simp [padLeft, List.all_replicate, hspace, htext]

theorem all_fieldsText {p : UInt8 → Bool} (hspace : p ' '.toUInt8 = true)
    (hdigits : ∀ c, isDigit c = true → p c = true) (fields : List (ℕ × UInt64)) :
    (fieldsText fields).all p = true := by
  induction fields with
  | nil => rfl
  | cons field fields ih =>
      obtain ⟨width, n⟩ := field
      have hnumber : (decimal n.toNat).all p = true :=
        List.all_eq_true.mpr fun c hc => hdigits c (isDigit_of_mem_decimal hc)
      rw [fieldsText, List.all_cons, List.all_append, hspace, all_padLeft hspace hnumber, ih]
      rfl

theorem Interface.isLine (i : Interface) : IsLine i.line where
  bytes := by
    have hdigits : ∀ c, isDigit c = true → (c ≠ 0 && c ≠ newline) = true := by
      intro c hc
      simp [ne_of_isDigit hc (d := 0) (by decide), ne_of_isDigit hc (d := newline) (by decide)]
    have hname : i.name.all (fun c => c ≠ 0 && c ≠ newline) = true := by
      refine List.all_eq_true.mpr fun c hc => ?_
      have hbyte := List.all_eq_true.mp i.name_bytes c hc
      simp only [isNameByte, Bool.and_eq_true] at hbyte ⊢
      exact hbyte.1.1
    rw [line, List.all_append, List.all_cons, all_padLeft (by decide) hname,
      all_fieldsText (by decide) hdigits]
    decide
  length_lt := by
    have hfields : ∀ field ∈ i.fields, field.1 ≤ 20 := by simp [fields]
    have hnumbers := length_fieldsText_le hfields
    have hcount : i.fields.length = 16 := rfl
    have hname := i.length_name
    rw [line, List.length_append, List.length_cons, length_padLeft]
    omega

theorem isLine_interHeader : IsLine interHeader := ⟨by decide +kernel, by decide +kernel⟩

theorem isLine_faceHeader : IsLine faceHeader := ⟨by decide +kernel, by decide +kernel⟩

/-- The first line of a listing. -/
theorem Listing.fgets_text (l : Listing) :
    fgets 1024 l.text = some (interHeader ++ [newline],
      linesText (faceHeader :: l.interfaces.map Interface.line)) := by
  rw [text, linesText_cons, fgets_line isLine_interHeader]

/-- The second line of a listing. -/
theorem Listing.fgets_faceHeader (l : Listing) :
    fgets 1024 (linesText (faceHeader :: l.interfaces.map Interface.line)) =
      some (faceHeader ++ [newline], linesText (l.interfaces.map Interface.line)) := by
  rw [linesText_cons, fgets_line isLine_faceHeader]

theorem headerColumns_faceHeader : headerColumns (faceHeader ++ [newline]) = listingColumns := by
  decide +kernel

/-- Every listing has the same columns. -/
theorem netstatInit_text (l : Listing) : netstatInit l.text = some listingColumns := by
  rw [netstatInit, l.fgets_text]
  simp only [Option.bind_eq_bind, Option.bind_some, l.fgets_faceHeader, headerColumns_faceHeader]
  exact if_neg (by decide)

end

end Netstat

end Uperf
