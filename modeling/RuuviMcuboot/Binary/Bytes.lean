/-
Byte strings: reading a range, writing over a range, little-endian numbers.

`slice` reads as a file does, short at the end of the data.  `overlay` writes as
a memory does, in place and without changing the length.
-/
import Mathlib.Algebra.BigOperators.Group.List.Basic

namespace Binary

abbrev Bytes := List UInt8

/-- The `len` bytes at `off`, fewer where the data ends. -/
def slice (d : Bytes) (off len : Nat) : Bytes := (d.drop off).take len

/-- `d` with the bytes from `off` on replaced by `b`, as far as `d` extends. -/
def overlay (d : Bytes) (off : Nat) (b : Bytes) : Bytes :=
  d.take off ++ b.take (d.length - off) ++ d.drop (off + b.length)

/-- The erased value of a byte. -/
def blank (n : Nat) : Bytes := List.replicate n 0xFF

/-- The number a little-endian byte string denotes. -/
def leNat : Bytes → Nat
  | [] => 0
  | b :: rest => b.toNat + 256 * leNat rest

/-- `n` as `k` little-endian bytes. -/
def leBytes : Nat → Nat → Bytes
  | 0, _ => []
  | k + 1, n => UInt8.ofNat n :: leBytes k (n / 256)

/-- The 16-bit field at `off`.  Bytes past the end count as zero. -/
def le16 (d : Bytes) (off : Nat) : UInt16 := UInt16.ofNat (leNat (slice d off 2))

/-- The 32-bit field at `off`.  Bytes past the end count as zero. -/
def le32 (d : Bytes) (off : Nat) : UInt32 := UInt32.ofNat (leNat (slice d off 4))

/-! ## Reading -/

@[simp] theorem slice_length (d : Bytes) (off len : Nat) :
    (slice d off len).length = min len (d.length - off) := by
  simp [slice]

theorem slice_length_of_le {d : Bytes} {off len : Nat} (h : off + len ≤ d.length) :
    (slice d off len).length = len := by
  rw [slice_length]
  omega

@[simp] theorem slice_zero_len (d : Bytes) (off : Nat) : slice d off 0 = [] := by
  simp [slice]

theorem slice_zero_off (d : Bytes) (len : Nat) : slice d 0 len = d.take len := by
  simp [slice]

/-- A range that starts behind `a` is a range of what follows. -/
theorem slice_append_right (a b : Bytes) (off len : Nat) :
    slice (a ++ b) (a.length + off) len = slice b off len := by
  simp only [slice]
  rw [← List.drop_drop, List.drop_left]

/-- A range inside `a` does not see what follows. -/
theorem slice_append_left {a : Bytes} (b : Bytes) {off len : Nat} (h : off + len ≤ a.length) :
    slice (a ++ b) off len = slice a off len := by
  simp only [slice]
  rw [List.drop_append_of_le_length (by omega), List.take_append_of_le_length (by simp; omega)]

/-- A range of a prefix is a range of the whole. -/
theorem slice_take {d : Bytes} {off len n : Nat} (h : off + len ≤ n) :
    slice (d.take n) off len = slice d off len := by
  unfold slice
  rw [List.drop_take, List.take_take, Nat.min_eq_left (by omega)]

/-- The middle of three parts, read at its own place. -/
theorem slice_middle (a b c : Bytes) : slice (a ++ (b ++ c)) a.length b.length = b := by
  have h := slice_append_right a (b ++ c) 0 b.length
  rw [Nat.add_zero] at h
  rw [h, slice_append_left c (by omega), slice_zero_off, List.take_length]

theorem slice_append_slice (d : Bytes) (off m n : Nat) :
    slice d off m ++ slice d (off + m) n = slice d off (m + n) := by
  simp only [slice]
  rw [← List.drop_drop, List.take_add]

theorem take_append_slice (d : Bytes) (m n : Nat) : d.take m ++ slice d m n = d.take (m + n) := by
  have h := slice_append_slice d 0 m n
  rwa [slice_zero_off, slice_zero_off, Nat.zero_add] at h

/-! ## Writing -/

@[simp] theorem overlay_length (d : Bytes) (off : Nat) (b : Bytes) :
    (overlay d off b).length = d.length := by
  simp only [overlay, List.length_append, List.length_take, List.length_drop]
  omega

@[simp] theorem overlay_nil (d : Bytes) (off : Nat) : overlay d off [] = d := by
  simp [overlay]

@[simp] theorem blank_length (n : Nat) : (blank n).length = n := by
  simp [blank]

/-- Writing the whole range replaces it. -/
theorem overlay_all {d b : Bytes} (h : b.length = d.length) : overlay d 0 b = b := by
  simp [overlay, ← h]

/-- Writing from the start on leaves what is behind the written bytes. -/
theorem overlay_start {d b : Bytes} (h : b.length ≤ d.length) :
    overlay d 0 b = b ++ d.drop b.length := by
  simp only [overlay, List.take_zero, List.nil_append, Nat.sub_zero, Nat.zero_add]
  rw [List.take_of_length_le h]

/-- A range in front of the written bytes is as it was. -/
theorem slice_overlay_before {d b : Bytes} {o off len : Nat} (ho : o ≤ d.length)
    (h : off + len ≤ o) : slice (overlay d o b) off len = slice d off len := by
  have htake : (d.take o).length = o := by
    rw [List.length_take]
    omega
  unfold overlay
  rw [List.append_assoc, slice_append_left _ (by omega), slice_take h]
/-- Writing a padded block where the blank part starts: the written prefix grows
by the block and the padding is blank already. -/
theorem overlay_blank {a b : Bytes} {pad n : Nat} (h : b.length + pad ≤ n) :
    overlay (a ++ blank n) a.length (b ++ blank pad) = a ++ b ++ blank (n - b.length) := by
  have htake : (b ++ blank pad).take (a.length + n - a.length) = b ++ blank pad := by
    apply List.take_of_length_le
    simp only [List.length_append, blank_length]
    omega
  have hdrop : (a ++ blank n).drop (a.length + (b ++ blank pad).length) =
      blank (n - (b.length + pad)) := by
    rw [← List.drop_drop, List.drop_left]
    simp [blank]
  have hblank : blank pad ++ blank (n - (b.length + pad)) = blank (n - b.length) := by
    rw [blank, blank, blank, List.replicate_append_replicate]
    congr 1
    omega
  simp only [overlay, List.length_append, blank_length, List.take_left] at htake hdrop ⊢
  rw [htake, hdrop, List.append_assoc, List.append_assoc, hblank, List.append_assoc]

/-! ## Little-endian fields -/

@[simp] theorem leBytes_length (k n : Nat) : (leBytes k n).length = k := by
  induction k generalizing n with
  | zero => rfl
  | succ k ih => simp [leBytes, ih]

theorem leNat_leBytes (k n : Nat) : leNat (leBytes k n) = n % 256 ^ k := by
  induction k generalizing n with
  | zero => simp [leBytes, leNat, Nat.mod_one]
  | succ k ih =>
    have hb : (UInt8.ofNat n).toNat = n % 256 := by simp
    rw [leBytes, leNat, ih, hb, Nat.pow_succ', Nat.mod_mul]

/-- Two numbers side by side in one. -/
theorem shift_or {a b : Nat} (i : Nat) (hb : b < 2 ^ i) : a <<< i ||| b = 2 ^ i * a + b := by
  rw [Nat.shiftLeft_eq, Nat.mul_comm, Nat.two_pow_add_eq_or_of_lt hb]

/-- A 16-bit value written at `off` is read back. -/
theorem le16_leBytes (a c : Bytes) (x : UInt16) :
    le16 (a ++ (leBytes 2 x.toNat ++ c)) a.length = x := by
  have h := slice_middle a (leBytes 2 x.toNat) c
  rw [leBytes_length] at h
  rw [le16, h, leNat_leBytes]
  have hx := x.toNat_lt
  rw [Nat.mod_eq_of_lt (by simpa using hx)]
  simp

end Binary
