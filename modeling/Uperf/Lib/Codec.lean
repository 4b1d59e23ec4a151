import Uperf.Lib.Bytes

/-!
# Fixed-size record images

A `Codec α` says how a value of `α` lies in memory on a machine of either byte
order: its size, its bytes, how they are read back, and what a machine of the
*other* byte order reads from them (`swap`).  Words, byte arrays, pairs and
reindexings (`iso`) are codecs, so the image of a record is the codec of the
tuple of its fields and nothing is proved again for it.
-/

namespace Uperf.Lib

/-- The image of `α` in memory, on machines of both byte orders. -/
structure Codec (α : Type*) where
  /-- The number of bytes. -/
  size : ℕ
  /-- The image of a value. -/
  put : Endian → α → List UInt8
  /-- The value that an image of `size` bytes holds. -/
  get : Endian → List UInt8 → α
  /-- The value read by a machine of the other byte order. -/
  swap : α → α
  length_put : ∀ e a, (put e a).length = size
  get_put : ∀ e a, get e (put e a) = a
  get_put_of_ne : ∀ {e e'} a, e ≠ e' → get e' (put e a) = swap a

namespace Codec

variable {α β : Type*}

attribute [simp] length_put get_put

/-- A word of `w` bytes, given as its value and the word of a value. -/
def word (w : ℕ) (toNat : α → ℕ) (ofNat : ℕ → α) (hlt : ∀ a, toNat a < 256 ^ w)
    (hof : ∀ a, ofNat (toNat a) = a) : Codec α where
  size := w
  put e a := e.arrange (bytesLE w (toNat a))
  get e bytes := ofNat (ofBytesLE (e.arrange bytes))
  swap a := ofNat (reverseBytes w (toNat a))
  length_put e a := by simp
  get_put e a := by
    rw [Endian.arrange_arrange, ofBytesLE_bytesLE_of_lt (hlt a), hof]
  get_put_of_ne a hne := by
    rw [Endian.arrange_arrange_of_ne hne, reverseBytes]

/-- Two fields, one after the other. -/
def pair (first : Codec α) (second : Codec β) : Codec (α × β) where
  size := first.size + second.size
  put e a := first.put e a.1 ++ second.put e a.2
  get e bytes := (first.get e (bytes.take first.size), second.get e (bytes.drop first.size))
  swap a := (first.swap a.1, second.swap a.2)
  length_put e a := by simp
  get_put e a := by
    rw [List.take_left' (first.length_put e a.1), List.drop_left' (first.length_put e a.1),
      get_put, get_put]
  get_put_of_ne {e e'} a hne := by
    rw [List.take_left' (first.length_put e a.1), List.drop_left' (first.length_put e a.1),
      first.get_put_of_ne a.1 hne, second.get_put_of_ne a.2 hne]

/-- The image of `β` through its representation by `α`. -/
def iso (codec : Codec α) (rep : β → α) (ofRep : α → β)
    (hrep : ∀ b, ofRep (rep b) = b) : Codec β where
  size := codec.size
  put e b := codec.put e (rep b)
  get e bytes := ofRep (codec.get e bytes)
  swap b := ofRep (codec.swap (rep b))
  length_put e b := by simp
  get_put e b := by rw [get_put, hrep]
  get_put_of_ne b hne := by rw [codec.get_put_of_ne (rep b) hne]

@[simp] theorem swap_pair (first : Codec α) (second : Codec β) (a : α × β) :
    (first.pair second).swap a = (first.swap a.1, second.swap a.2) := rfl

@[simp] theorem swap_iso (codec : Codec α) (rep : β → α) (ofRep : α → β)
    (hrep : ∀ b, ofRep (rep b) = b) (b : β) :
    (codec.iso rep ofRep hrep).swap b = ofRep (codec.swap (rep b)) := rfl

/-- What a machine of order `e'` reads from the image of a machine of order `e`. -/
def seen (codec : Codec α) (e e' : Endian) (a : α) : α := codec.get e' (codec.put e a)

@[simp] theorem seen_same (codec : Codec α) (e : Endian) (a : α) : codec.seen e e a = a :=
  codec.get_put e a

theorem seen_of_ne (codec : Codec α) {e e' : Endian} (hne : e ≠ e') (a : α) :
    codec.seen e e' a = codec.swap a :=
  codec.get_put_of_ne a hne

/-- What the other machine writes back is read as the original. -/
theorem swap_swap_word (w : ℕ) (toNat : α → ℕ) (ofNat : ℕ → α) (hlt : ∀ a, toNat a < 256 ^ w)
    (hof : ∀ a, ofNat (toNat a) = a) (hto : ∀ n < 256 ^ w, toNat (ofNat n) = n) (a : α) :
    (word w toNat ofNat hlt hof).swap ((word w toNat ofNat hlt hof).swap a) = a := by
  show ofNat (reverseBytes w (toNat (ofNat (reverseBytes w (toNat a))))) = a
  rw [hto _ (reverseBytes_lt w _), reverseBytes_reverseBytes (hlt a), hof]

/-! ## The three word sizes -/

/-- `uint16_t`. -/
def u16 : Codec UInt16 :=
  word 2 UInt16.toNat UInt16.ofNat (fun a => a.toNat_lt) fun _ => UInt16.ofNat_toNat

/-- `uint32_t`. -/
def u32 : Codec UInt32 :=
  word 4 UInt32.toNat UInt32.ofNat (fun a => a.toNat_lt) fun _ => UInt32.ofNat_toNat

/-- `uint64_t`. -/
def u64 : Codec UInt64 :=
  word 8 UInt64.toNat UInt64.ofNat (fun a => a.toNat_lt) fun _ => UInt64.ofNat_toNat

/-- `int`, the word of its two's complement. -/
def i32 : Codec Int32 := u32.iso Int32.toUInt32 UInt32.toInt32 fun _ => rfl

@[simp] theorem u16_swap_swap (a : UInt16) : u16.swap (u16.swap a) = a :=
  swap_swap_word _ _ _ _ _ (fun _ hn => UInt16.toNat_ofNat_of_lt hn) a

@[simp] theorem u32_swap_swap (a : UInt32) : u32.swap (u32.swap a) = a :=
  swap_swap_word _ _ _ _ _ (fun _ hn => UInt32.toNat_ofNat_of_lt hn) a

@[simp] theorem u64_swap_swap (a : UInt64) : u64.swap (u64.swap a) = a :=
  swap_swap_word _ _ _ _ _ (fun _ hn => UInt64.toNat_ofNat_of_lt hn) a

@[simp] theorem i32_swap_swap (a : Int32) : i32.swap (i32.swap a) = a := by
  show (u32.swap (u32.swap a.toUInt32)).toInt32 = a
  rw [u32_swap_swap]
  rfl

/-! ## Arrays -/

/-- The `i`-th of several images of the same size. -/
theorem take_drop_flatMap {size : ℕ} {image : α → List UInt8}
    (hsize : ∀ a, (image a).length = size) (items : List α) (i : ℕ) (hi : i < items.length) :
    ((items.flatMap image).drop (i * size)).take size = image items[i] := by
  induction items generalizing i with
  | nil => simp at hi
  | cons a rest ih =>
      cases i with
      | zero =>
          rw [Nat.zero_mul, List.drop_zero, List.flatMap_cons]
          exact List.take_left' (hsize a)
      | succ i =>
          rw [List.flatMap_cons, Nat.succ_mul, Nat.add_comm, ← List.drop_drop,
            List.drop_left' (hsize a), List.getElem_cons_succ]
          exact ih i (Nat.lt_of_succ_lt_succ hi)

theorem length_flatMap_put (codec : Codec α) (e : Endian) (items : List α) :
    (items.flatMap (codec.put e)).length = items.length * codec.size := by
  induction items with
  | nil => simp
  | cons a rest ih => simp [ih, Nat.succ_mul, Nat.add_comm]

/-- The `i`-th entry of an array that fills `bytes`. -/
def entry (codec : Codec α) (e : Endian) (bytes : List UInt8) (i : ℕ) : α :=
  codec.get e ((bytes.drop (i * codec.size)).take codec.size)

theorem entry_flatMap_put (codec : Codec α) (e e' : Endian) (items : List α) {i : ℕ}
    (hi : i < items.length) :
    codec.entry e' (items.flatMap (codec.put e)) i = codec.seen e e' items[i] := by
  rw [entry, take_drop_flatMap (codec.length_put e) items i hi, seen]

/-- An array of `n` entries. -/
def vector (codec : Codec α) (n : ℕ) : Codec (Vector α n) where
  size := n * codec.size
  put e v := v.toList.flatMap (codec.put e)
  get e bytes := Vector.ofFn fun i => codec.entry e bytes i
  swap v := v.map codec.swap
  length_put e v := by rw [length_flatMap_put, Vector.length_toList]
  get_put e v := by
    ext i hi
    rw [Vector.getElem_ofFn, entry_flatMap_put codec e e _ (by simpa using hi), seen_same]
    simp
  get_put_of_ne {e e'} v hne := by
    ext i hi
    rw [Vector.getElem_ofFn, entry_flatMap_put codec e e' _ (by simpa using hi),
      seen_of_ne _ hne, Vector.getElem_map]
    simp

@[simp] theorem swap_vector (codec : Codec α) {n : ℕ} (v : Vector α n) :
    (codec.vector n).swap v = v.map codec.swap := rfl

end Codec

end Uperf.Lib
