/-!
This module contains the byte strings of the library and the few operations on them that files,
pages and buffers need: resizing, overwriting a range, and words in little-endian order.
-/

namespace AttrTree

abbrev Bytes := List UInt8

namespace Bytes

def resize (bytes : Bytes) (n : Nat) : Bytes :=
  (bytes.take n).rightpad n 0

@[simp]
theorem length_resize (bytes : Bytes) (n : Nat) : (resize bytes n).length = n := by
  simp only [resize, List.rightpad, List.length_append, List.length_take, List.length_replicate]
  omega

/-- Move the first `n` bytes to `front`, the last of them first. -/
def unwind : (bytes : Bytes) → (n : Nat) → (front : Bytes) → Bytes × Bytes
  | b :: bytes, n + 1, front => unwind bytes n (b :: front)
  | bytes, _, front => (front, bytes)

theorem unwind_eq (bytes : Bytes) (n : Nat) (front : Bytes) :
    unwind bytes n front = ((bytes.take n).reverse ++ front, bytes.drop n) := by
  induction bytes generalizing n front with
  | nil => simp [unwind]
  | cons b bytes ih =>
    cases n with
    | zero => simp [unwind]
    | succ n => simp [unwind, ih]

def overlay (bytes : Bytes) (start : Nat) (data : Bytes) : Bytes :=
  let (front, rest) := unwind bytes start []
  front.reverseAux (data ++ rest.drop data.length)

theorem overlay_eq (bytes : Bytes) (start : Nat) (data : Bytes) :
    overlay bytes start data =
      bytes.take start ++ (data ++ bytes.drop (start + data.length)) := by
  simp [overlay, unwind_eq, List.reverseAux_eq]

theorem length_overlay {bytes data : Bytes} {start : Nat}
    (h : start + data.length ≤ bytes.length) :
    (overlay bytes start data).length = bytes.length := by
  simp only [overlay_eq, List.length_append, List.length_take, List.length_drop]
  omega

@[simp]
theorem overlay_nil (bytes : Bytes) (start : Nat) : overlay bytes start [] = bytes := by
  simp [overlay_eq]

def window (bytes : Bytes) (start n : Nat) : Bytes :=
  resize (bytes.drop start) n

@[simp]
theorem length_window (bytes : Bytes) (start n : Nat) : (window bytes start n).length = n := by
  simp [window]

def write (bytes : Bytes) (start : Nat) (data : Bytes) : Bytes :=
  let stop := start + data.length
  overlay (if bytes.length < stop then resize bytes stop else bytes) start data

@[simp]
theorem length_write (bytes : Bytes) (start : Nat) (data : Bytes) :
    (write bytes start data).length = max bytes.length (start + data.length) := by
  unfold write
  rw [length_overlay] <;> split
  . rw [length_resize]
    omega
  . omega
  . apply Nat.le_of_eq
    symm
    apply length_resize
  . omega

def chunks (bytes : Bytes) (size : Nat) : List Bytes :=
  if _h : bytes = [] ∨ size = 0 then
    []
  else
    bytes.take size :: chunks (bytes.drop size) size
termination_by bytes.length
decreasing_by
  have : bytes.length ≠ 0 := by simp_all
  simp only [List.length_drop]
  omega

theorem flatten_chunks (bytes : Bytes) {size : Nat} (hsize : size ≠ 0) :
    (chunks bytes size).flatten = bytes := by
  fun_induction chunks bytes size with
  | case1 bytes h => simp_all
  | case2 bytes h ih => simp [ih]

theorem length_le_of_mem_chunks {bytes chunk : Bytes} {size : Nat}
    (h : chunk ∈ chunks bytes size) : chunk.length ≤ size := by
  fun_induction chunks bytes size with
  | case1 => simp at h
  | case2 bytes _ ih =>
    simp only [List.mem_cons] at h
    cases h with
    | inl h =>
      rw [h, List.length_take]
      omega
    | inr h => exact ih h

def littleEndian : (width : Nat) → Nat → Bytes
  | 0, _ => []
  | width + 1, n => UInt8.ofNat n :: littleEndian width (n / 256)

def toNat : Bytes → Nat
  | [] => 0
  | b :: bytes => b.toNat + 256 * toNat bytes

@[simp]
theorem length_littleEndian (width n : Nat) : (littleEndian width n).length = width := by
  induction width generalizing n with
  | zero => rfl
  | succ width ih => simp [littleEndian, ih]

theorem littleEndian_toNat (bytes : Bytes) : littleEndian bytes.length (toNat bytes) = bytes := by
  induction bytes with
  | nil => rfl
  | cons b bytes ih =>
    have hb := b.toNat_lt
    have hdiv : (b.toNat + 256 * toNat bytes) / 256 = toNat bytes := by omega
    have hmod : UInt8.ofNat (b.toNat + 256 * toNat bytes) = b := by
      apply UInt8.toNat_inj.mp
      simp
    simp [littleEndian, toNat, hdiv, hmod, ih]

end Bytes

end AttrTree
