import Mathlib.Tactic

/-!
# Packed little-endian types

`Wire α` gives a type its object representation: `size α` bytes, and the value such
bytes stand for. Integers are little endian; a packed record is the sequence of its
fields, so its instance is the one of the tuple of the fields (`Wire.ofEquiv`).

`memcpy x src` is the object `x` after its first `src.length` bytes were overwritten
by `src`. Bytes past the end of the object are dropped.
-/

/-- The number that little-endian bytes spell. -/
def leNat : List UInt8 → ℕ
  | [] => 0
  | b :: bs => b.toNat + 256 * leNat bs

/-- The low `n` bytes of a number, least significant first. -/
def leBytes : ℕ → ℕ → List UInt8
  | 0, _ => []
  | n + 1, v => UInt8.ofNat v :: leBytes n (v / 256)

@[simp] theorem leBytes_length (n v : ℕ) : (leBytes n v).length = n := by
  induction n generalizing v with
  | zero => rfl
  | succ n ih => simp [leBytes, ih]

theorem leNat_leBytes (n v : ℕ) : leNat (leBytes n v) = v % 256 ^ n := by
  induction n generalizing v with
  | zero => simp [leBytes, leNat, Nat.mod_one]
  | succ n ih =>
    have hb : (UInt8.ofNat v).toNat = v % 256 := UInt8.toNat_ofNat'
    rw [leBytes, leNat, ih, hb, Nat.pow_succ, Nat.mul_comm (256 ^ n) 256, Nat.mod_mul]

theorem leNat_lt (bs : List UInt8) : leNat bs < 256 ^ bs.length := by
  induction bs with
  | nil => exact Nat.one_pos
  | cons b bs ih =>
    have := b.toNat_lt
    rw [leNat, List.length_cons, Nat.pow_succ]
    omega

theorem leBytes_leNat (bs : List UInt8) : leBytes bs.length (leNat bs) = bs := by
  induction bs with
  | nil => rfl
  | cons b bs ih =>
    have hlt := b.toNat_lt
    have hb : UInt8.ofNat (leNat (b :: bs)) = b := by
      rw [← UInt8.toNat_inj, UInt8.toNat_ofNat', leNat]
      omega
    have hrest : leNat (b :: bs) / 256 = leNat bs := by rw [leNat]; omega
    rw [List.length_cons, leBytes, hb, hrest, ih]

/-- A type with a packed object representation of a fixed size. -/
class Wire (α : Type) where
  size : ℕ
  encode : α → List UInt8
  decode : List UInt8 → α
  encode_length : ∀ x, (encode x).length = size
  decode_encode : ∀ x, decode (encode x) = x

namespace Wire

attribute [simp] encode_length decode_encode

variable {α β : Type}

/-- An integer type of `n` bytes, from its value as a number. -/
@[reducible] def ofNat (n : ℕ) (toNat : α → ℕ) (ofNat : ℕ → α) (hlt : ∀ x, toNat x < 256 ^ n)
    (h : ∀ x, ofNat (toNat x) = x) : Wire α where
  size := n
  encode x := leBytes n (toNat x)
  decode bs := ofNat (leNat bs)
  encode_length _ := leBytes_length _ _
  decode_encode x := by rw [leNat_leBytes, Nat.mod_eq_of_lt (hlt x), h]

instance : Wire UInt8 :=
  ofNat 1 UInt8.toNat UInt8.ofNat (fun x => x.toNat_lt) fun _ => UInt8.ofNat_toNat

instance : Wire UInt16 :=
  ofNat 2 UInt16.toNat UInt16.ofNat (fun x => x.toNat_lt) fun _ => UInt16.ofNat_toNat

instance : Wire UInt32 :=
  ofNat 4 UInt32.toNat UInt32.ofNat (fun x => x.toNat_lt) fun _ => UInt32.ofNat_toNat

instance : Wire UInt64 :=
  ofNat 8 UInt64.toNat UInt64.ofNat (fun x => x.toNat_lt) fun _ => UInt64.ofNat_toNat

/-- A type with the representation of another. -/
@[reducible] def ofEquiv (e : α ≃ β) [Wire β] : Wire α where
  size := size β
  encode x := encode (e x)
  decode bs := e.symm (decode bs)
  encode_length _ := encode_length _
  decode_encode x := by rw [decode_encode, e.symm_apply_apply]

instance : Wire Int32 := ofEquiv ⟨Int32.toUInt32, UInt32.toInt32, fun _ => rfl, fun _ => rfl⟩

instance : Wire Int64 := ofEquiv ⟨Int64.toUInt64, UInt64.toInt64, fun _ => rfl, fun _ => rfl⟩

/-- Two fields, packed. -/
instance [Wire α] [Wire β] : Wire (α × β) where
  size := size α + size β
  encode x := encode x.1 ++ encode x.2
  decode bs := (decode (bs.take (size α)), decode (bs.drop (size α)))
  encode_length x := by simp
  decode_encode x := by
    rw [List.take_left' (encode_length x.1), List.drop_left' (encode_length x.1)]
    simp

/-- The object `x` after `src` was copied over its first bytes. -/
def memcpy [Wire α] (x : α) (src : List UInt8) : α :=
  decode (src.take (size α) ++ (encode x).drop src.length)

/-- A byte is what stands first, or zero. -/
theorem decode_uInt8 (bs : List UInt8) : (decode bs : UInt8) = bs.getD 0 0 := by
  cases bs with
  | nil => rfl
  | cons b bs =>
    rw [← UInt8.toNat_inj]
    change (UInt8.ofNat (b.toNat + 256 * leNat bs)).toNat = b.toNat
    have := b.toNat_lt
    rw [UInt8.toNat_ofNat']
    omega

/-- Copying a whole object. -/
theorem memcpy_of_length [Wire α] (x : α) {src : List UInt8} (h : src.length = size α) :
    memcpy x src = decode src := by
  unfold memcpy
  rw [List.take_of_length_le h.le, List.drop_of_length_le (by simp [h]), List.append_nil]

/-- Copying a part of an object over zeros. -/
theorem memcpy_zeros [Wire α] {x : α} (h0 : encode x = List.replicate (size α) 0) {src : List UInt8}
    (h : src.length ≤ size α) :
    memcpy x src = decode (src ++ List.replicate (size α - src.length) 0) := by
  rw [memcpy, h0, List.take_of_length_le h, List.drop_replicate]

@[simp] theorem memcpy_encode [Wire α] (x y : α) : memcpy x (encode y) = y := by
  rw [memcpy_of_length x (encode_length y), decode_encode]

/-! ## Types of all bytes -/

/-- Any bytes of the right number are the representation of a value. -/
class Exact (α : Type) [Wire α] : Prop where
  encode_decode : ∀ bs : List UInt8, bs.length = size α → encode (decode bs : α) = bs

/-- An integer type that has all the values of its bytes. -/
theorem exact_ofNat {n : ℕ} {toNat : α → ℕ} {ofNat : ℕ → α} (hlt : ∀ x, toNat x < 256 ^ n)
    (h : ∀ x, ofNat (toNat x) = x) (hmod : ∀ v, toNat (ofNat v) = v % 256 ^ n) :
    @Exact α (Wire.ofNat n toNat ofNat hlt h) := by
  let _ := Wire.ofNat n toNat ofNat hlt h
  refine ⟨fun bs hbs => ?_⟩
  change leBytes n (toNat (ofNat (leNat bs))) = bs
  have hbs' : bs.length = n := hbs
  rw [hmod, ← hbs', Nat.mod_eq_of_lt (leNat_lt bs), leBytes_leNat]

instance : Exact UInt8 :=
  exact_ofNat (fun x => x.toNat_lt) (fun _ => UInt8.ofNat_toNat) fun _ => UInt8.toNat_ofNat'

instance : Exact UInt16 :=
  exact_ofNat (fun x => x.toNat_lt) (fun _ => UInt16.ofNat_toNat) fun _ => UInt16.toNat_ofNat'

instance : Exact UInt32 :=
  exact_ofNat (fun x => x.toNat_lt) (fun _ => UInt32.ofNat_toNat) fun _ => UInt32.toNat_ofNat'

instance : Exact UInt64 :=
  exact_ofNat (fun x => x.toNat_lt) (fun _ => UInt64.ofNat_toNat) fun _ => UInt64.toNat_ofNat'

instance exact_ofEquiv (e : α ≃ β) [Wire β] [Exact β] : @Exact α (.ofEquiv e) := by
  let _ : Wire α := .ofEquiv e
  refine ⟨fun bs hbs => ?_⟩
  change encode (e (e.symm (decode bs))) = bs
  rw [e.apply_symm_apply]
  exact Exact.encode_decode bs hbs

instance [Wire α] [Wire β] [Exact α] [Exact β] : Exact (α × β) where
  encode_decode bs hbs := by
    have hbs' : bs.length = size α + size β := hbs
    change encode (decode (bs.take (size α)) : α) ++ encode (decode (bs.drop (size α)) : β) = bs
    rw [Exact.encode_decode _ (by rw [List.length_take]; omega),
      Exact.encode_decode _ (by rw [List.length_drop]; omega), List.take_append_drop]

end Wire
