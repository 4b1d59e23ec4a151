import Mathlib.Algebra.BigOperators.Group.Finset.Basic
import Mathlib.Algebra.Order.BigOperators.Group.Finset
import Uperf.CString

/-!
# Sending files in chunks

`sendfile_init` opens the files of a directory and records their sizes; `do_sendfile` sends one
of them, in chunks, until the offset has reached the recorded size.  On Linux its loop returns
when `sendfile` fails, but goes on when it sends nothing.

At the end of a file `sendfile` sends nothing for ever.  So a file that has become shorter since
its directory was scanned is sent without end; `returns_iff_advances` says when `do_sendfile`
returns.
-/

namespace Uperf

/-! ## The files -/

/-- `file_list_t`. -/
structure FileList where
  size : ℕ
  fd : Int32
deriving DecidableEq, Repr

/-- `PATHMAX`. -/
abbrev pathMax : ℕ := 128

/-- `sfv_list_t`, with the files in `flist`; `nfiles` is their number. -/
structure SfvList where
  dir : CharArray pathMax
  flist : List FileList
  nonempty : flist ≠ []
deriving DecidableEq

/-- `find_sfv_list`. -/
def findSfvList (sfvList : List SfvList) (dir : List UInt8) : Option SfvList :=
  sfvList.find? fun s => strncmpEq s.dir dir pathMax

/-- The file whose index `select_file` returns. -/
def selectFile (s : SfvList) (rand : ℕ) : FileList :=
  s.flist.get ⟨rand % s.flist.length, Nat.mod_lt _ (List.length_pos_iff.mpr s.nonempty)⟩

/-- `sendfile_init`, given the files that `ftw` finds, where it does not fail, and whether
`calloc` does; without a result there are no files, which `assert` excludes. -/
def sendfileInit (ftw : Option (List FileList)) (calloc : Bool) (dir : List UInt8)
    (sfvList : List SfvList) : Option (Int32 × List SfvList) :=
  if (findSfvList sfvList dir).isSome then some (0, sfvList)
  else
    match ftw with
    | none => some (-1, sfvList)
    | some files =>
        if hfiles : files = [] then none
        else if calloc = false then some (-1, sfvList)
        else
          let s : SfvList := ⟨strlcpy (.zero _) dir, files, hfiles⟩
          match sfvList with
          | [] => some (0, [s])
          | first :: rest => some (0, first :: s :: rest)

/-! ## The loop -/

/-- What a call of `sendfile` returns: it fails, or sends a number of bytes and advances the
offset by that. -/
inductive SendfileResult where
  | failed
  | sent (n : ℕ)
deriving DecidableEq, Repr

/-- By how much a call advances the offset. -/
def SendfileResult.count : SendfileResult → ℕ
  | .failed => 0
  | .sent n => n

/-- The offset before the `i`-th call. -/
def offsetAt (results : ℕ → SendfileResult) (i : ℕ) : ℕ := ∑ j ∈ Finset.range i, (results j).count

/-- The loop of `do_sendfile` from the `i`-th call on; without a result it needs more calls. -/
def sendfileLoop (size : ℕ) (results : ℕ → SendfileResult) : ℕ → ℕ → ℕ → Option ℤ
  | 0, off, _ => if off < size then none else some size
  | fuel + 1, off, i =>
      if off < size then
        match results i with
        | .failed => some (-1)
        | .sent n => sendfileLoop size results fuel (off + n) (i + 1)
      else some size

/-- `do_sendfile` on Linux, with at most `fuel` calls in its loop; also without a result if the
directory has not been scanned, which `assert` excludes. -/
def doSendfile (sfvList : List SfvList) (dir : List UInt8) (rand : ℕ) (chunkSize : Int32)
    (results : ℕ → SendfileResult) (fuel : ℕ) : Option ℤ :=
  match findSfvList sfvList dir with
  | none => none
  | some s =>
      if chunkSize = 0 then
        match results 0 with
        | .failed => some (-1)
        | .sent n => some n
      else sendfileLoop (selectFile s rand).size results fuel 0 0

/-- `do_sendfile` returns after finitely many calls. -/
def SendfileReturns (sfvList : List SfvList) (dir : List UInt8) (rand : ℕ) (chunkSize : Int32)
    (results : ℕ → SendfileResult) : Prop :=
  ∃ fuel n, doSendfile sfvList dir rand chunkSize results fuel = some n

/-- The results of `sendfile` for chunks of that size and a file that ends there: no call sends
more than a chunk or beyond the end, and at the end nothing is sent. -/
structure FileEnds (chunk currentEnd : ℕ) (results : ℕ → SendfileResult) : Prop where
  le_chunk : ∀ i, (results i).count ≤ chunk
  le_end : ∀ i, offsetAt results i ≤ currentEnd
  at_end : ∀ i, offsetAt results i = currentEnd → results i = .sent 0

/-- As long as the offset is below the size, some later call sends something. -/
def Advances (size : ℕ) (results : ℕ → SendfileResult) : Prop :=
  ∀ i, offsetAt results i < size → ∃ j, i ≤ j ∧ 0 < (results j).count

section

variable {size fuel off i : ℕ} {results : ℕ → SendfileResult}

theorem offsetAt_succ (results : ℕ → SendfileResult) (i : ℕ) :
    offsetAt results (i + 1) = offsetAt results i + (results i).count :=
  Finset.sum_range_succ _ _

theorem offsetAt_mono (results : ℕ → SendfileResult) : Monotone (offsetAt results) :=
  monotone_nat_of_le_succ fun i => by rw [offsetAt_succ]; exact Nat.le_add_right _ _

/-! ## When the loop ends -/

/-- The loop ends with a failure, or where the offset has reached the size. -/
theorem sendfileLoop_eq_some (k i : ℕ)
    (hends : results (i + k) = .failed ∨ size ≤ offsetAt results (i + k)) :
    ∃ n, sendfileLoop size results (k + 1) (offsetAt results i) i = some n := by
  induction k generalizing i with
  | zero =>
      rw [sendfileLoop]
      split
      · rename_i hbelow
        obtain hfailed | hreached := hends
        · rw [Nat.add_zero] at hfailed
          exact ⟨-1, by rw [hfailed]⟩
        · exact absurd hbelow (not_lt.mpr hreached)
      · exact ⟨size, rfl⟩
  | succ k ih =>
      rw [sendfileLoop]
      split
      · cases hresult : results i with
        | failed => exact ⟨-1, rfl⟩
        | sent n =>
            have hnext := offsetAt_succ results i
            rw [hresult, SendfileResult.count] at hnext
            rw [show i + (k + 1) = i + 1 + k by omega] at hends
            simp only
            rw [← hnext]
            exact ih (i + 1) hends
      · exact ⟨size, rfl⟩

/-- Without either it goes on. -/
theorem sendfileLoop_eq_none (hsent : ∀ i, results i ≠ .failed)
    (hbelow : ∀ i, offsetAt results i < size) (fuel i : ℕ) :
    sendfileLoop size results fuel (offsetAt results i) i = none := by
  induction fuel generalizing i with
  | zero => rw [sendfileLoop, if_pos (hbelow i)]
  | succ fuel ih =>
      rw [sendfileLoop, if_pos (hbelow i)]
      cases hresult : results i with
      | failed => exact absurd hresult (hsent i)
      | sent n =>
          have hnext := offsetAt_succ results i
          rw [hresult, SendfileResult.count] at hnext
          simp only
          rw [← hnext]
          exact ih (i + 1)

/-- The offset reaches the size exactly if it goes on advancing below it. -/
theorem exists_le_offsetAt_iff : (∃ k, size ≤ offsetAt results k) ↔ Advances size results := by
  constructor
  · rintro ⟨k, hk⟩ i hi
    by_contra! hnone
    have hstill : ∀ d, offsetAt results (i + d) = offsetAt results i := by
      intro d
      induction d with
      | zero => rfl
      | succ d ih =>
          have hcount := hnone (i + d) (Nat.le_add_right i d)
          rw [← Nat.add_assoc, offsetAt_succ, ih]
          omega
    have hle := offsetAt_mono results (Nat.le_add_left k i)
    rw [hstill] at hle
    omega
  · intro hadvances
    -- the offset passes one number after another
    have hpasses : ∀ m ≤ size, ∃ k, m ≤ offsetAt results k := by
      intro m
      induction m with
      | zero => exact fun _ => ⟨0, Nat.zero_le _⟩
      | succ m ih =>
          intro hm
          obtain ⟨k, hk⟩ := ih (Nat.le_of_succ_le hm)
          by_cases hpassed : m + 1 ≤ offsetAt results k
          · exact ⟨k, hpassed⟩
          · obtain ⟨j, hj, hcount⟩ := hadvances k (by omega)
            have hle := offsetAt_mono results hj
            refine ⟨j + 1, ?_⟩
            rw [offsetAt_succ]
            omega
    exact hpasses size le_rfl

variable {sfvList : List SfvList} {dir : List UInt8} {s : SfvList} {rand : ℕ} {chunkSize : Int32}

/-- What `do_sendfile` does with chunks. -/
theorem sendfileReturns_iff (hscanned : findSfvList sfvList dir = some s) (hchunk : 0 < chunkSize) :
    SendfileReturns sfvList dir rand chunkSize results ↔
      ∃ i, results i = .failed ∨ (selectFile s rand).size ≤ offsetAt results i := by
  have hne : chunkSize ≠ 0 := by
    rintro rfl
    exact absurd hchunk (by decide)
  have hrun : ∀ fuel, doSendfile sfvList dir rand chunkSize results fuel =
      sendfileLoop (selectFile s rand).size results fuel (offsetAt results 0) 0 := by
    intro fuel
    rw [doSendfile, hscanned]
    exact if_neg hne
  unfold SendfileReturns
  simp only [hrun]
  constructor
  · rintro ⟨fuel, n, hreturns⟩
    by_contra! hgoes
    rw [sendfileLoop_eq_none (fun i => (hgoes i).1) (fun i => (hgoes i).2)] at hreturns
    cases hreturns
  · rintro ⟨i, hends⟩
    rw [← Nat.zero_add i] at hends
    exact ⟨i + 1, sendfileLoop_eq_some i 0 hends⟩

/-- Where no call below the end of the file sends nothing, only the length of the file matters. -/
theorem sendfileReturns_iff_of_sends {currentEnd : ℕ} (hscanned : findSfvList sfvList dir = some s)
    (hchunk : 0 < chunkSize) (hends : FileEnds chunkSize.toInt.toNat currentEnd results)
    (hsends : ∀ i, offsetAt results i < currentEnd → results i ≠ .sent 0) :
    SendfileReturns sfvList dir rand chunkSize results ↔
      (∃ i, results i = .failed) ∨ (selectFile s rand).size ≤ currentEnd := by
  rw [sendfileReturns_iff hscanned hchunk, exists_or]
  constructor
  · rintro (hfailed | ⟨i, hi⟩)
    · exact .inl hfailed
    · exact .inr (hi.trans (hends.le_end i))
  · rintro (hfailed | hlong)
    · exact .inl hfailed
    · refine or_iff_not_imp_left.mpr fun hsent => ?_
      rw [exists_le_offsetAt_iff]
      intro i hi
      refine ⟨i, le_rfl, ?_⟩
      have hsomething := hsends i (hi.trans_le hlong)
      cases hresult : results i with
      | failed => exact absurd ⟨i, hresult⟩ hsent
      | sent n =>
          rw [hresult] at hsomething
          exact Nat.pos_of_ne_zero fun hzero => hsomething (congrArg _ hzero)

/-! ## The directories -/

/-- A directory that `sendfile_init` has scanned is found again. -/
theorem isSome_findSfvList_of_sendfileInit {ftw : Option (List FileList)} {calloc : Bool}
    {sfvList' : List SfvList} (hdir : ∀ byte ∈ dir, byte ≠ 0) (hfits : dir.length < pathMax)
    (hinit : sendfileInit ftw calloc dir sfvList = some (0, sfvList')) :
    (findSfvList sfvList' dir).isSome := by
  have hsame : ∀ files hfiles, strncmpEq
      (SfvList.mk (strlcpy (.zero _) dir) files hfiles).dir dir pathMax = true := by
    intro files hfiles
    rw [strncmpEq, cstr_strlcpy _ hdir, List.take_of_length_le (Nat.le_of_lt_succ hfits)]
    exact beq_self_eq_true _
  unfold sendfileInit at hinit
  split at hinit
  · rename_i hbefore
    cases hinit
    exact hbefore
  · cases ftw with
    | none => cases hinit
    | some files =>
        simp only at hinit
        split_ifs at hinit with hfiles hcalloc
        · cases hinit
        rw [findSfvList, List.find?_isSome]
        cases sfvList with
        | nil =>
            cases hinit
            exact ⟨_, List.mem_singleton_self _, hsame files hfiles⟩
        | cons first rest =>
            cases hinit
            exact ⟨_, List.mem_cons_of_mem _ List.mem_cons_self, hsame files hfiles⟩

end

/-- `do_sendfile` with chunks returns exactly if a call fails, or the file is still as long as
recorded and the offset goes on advancing up to there. -/
theorem returns_iff_advances {sfvList : List SfvList} {dir : List UInt8} {s : SfvList} {rand : ℕ}
    {chunkSize : Int32} {currentEnd : ℕ} {results : ℕ → SendfileResult}
    (hscanned : findSfvList sfvList dir = some s) (hchunk : 0 < chunkSize)
    (hends : FileEnds chunkSize.toInt.toNat currentEnd results) :
    SendfileReturns sfvList dir rand chunkSize results ↔
      (∃ i, results i = .failed) ∨
        (selectFile s rand).size ≤ currentEnd ∧ Advances (selectFile s rand).size results := by
  rw [sendfileReturns_iff hscanned hchunk, exists_or, exists_le_offsetAt_iff]
  refine or_congr_right (and_iff_right_of_imp fun hadvances => ?_).symm
  obtain ⟨k, hk⟩ := exists_le_offsetAt_iff.mpr hadvances
  exact hk.trans (hends.le_end k)

/-! ## A file that has become shorter -/

/-- A file of a hundred bytes in `/tmp`. -/
def scannedFile : SfvList := ⟨strlcpy (.zero _) (str "/tmp"), [⟨100, 3⟩], by simp⟩

/-- Fifty bytes of it are left, and are sent by the first call. -/
def shortResults : ℕ → SendfileResult
  | 0 => .sent 50
  | _ + 1 => .sent 0

theorem offsetAt_shortResults (i : ℕ) : offsetAt shortResults (i + 1) = 50 := by
  induction i with
  | zero => rfl
  | succ i ih => rw [offsetAt_succ, ih]; rfl

theorem fileEnds_shortResults : FileEnds 50 50 shortResults := by
  refine ⟨fun i => ?_, fun i => ?_, fun i hi => ?_⟩
  · cases i with
    | zero => exact le_rfl
    | succ i => exact Nat.zero_le _
  · cases i with
    | zero => exact Nat.zero_le _
    | succ i => exact (offsetAt_shortResults i).le
  · cases i with
    | zero => cases hi
    | succ i => rfl

theorem findSfvList_scannedFile : findSfvList [scannedFile] (str "/tmp") = some scannedFile := by
  decide +kernel

theorem returns_iff_shortResults :
    SendfileReturns [scannedFile] (str "/tmp") 0 50 shortResults ↔
      (∃ i, shortResults i = .failed) ∨
        (selectFile scannedFile 0).size ≤ 50 ∧
          Advances (selectFile scannedFile 0).size shortResults :=
  returns_iff_advances findSfvList_scannedFile (by decide) fileEnds_shortResults

/-- `do_sendfile` goes on for ever. -/
theorem not_returns_shortResults :
    ¬ ∀ (sfvList : List SfvList) (dir : List UInt8) (s : SfvList) (rand : ℕ) (chunkSize : Int32)
      (currentEnd : ℕ) (results : ℕ → SendfileResult),
      findSfvList sfvList dir = some s → 0 < chunkSize →
        FileEnds chunkSize.toInt.toNat currentEnd results →
          SendfileReturns sfvList dir rand chunkSize results := by
  intro hall
  have hreturns := hall [scannedFile] (str "/tmp") scannedFile 0 50 50 shortResults
    findSfvList_scannedFile (by decide) fileEnds_shortResults
  obtain ⟨i, hi⟩ := (sendfileReturns_iff findSfvList_scannedFile (by decide)).mp hreturns
  cases i with
  | zero => obtain hi | hi := hi <;> cases hi
  | succ i =>
      obtain hi | hi := hi
      · cases hi
      · rw [offsetAt_shortResults] at hi
        exact absurd hi (by decide)

end Uperf
