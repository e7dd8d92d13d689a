import AttrTree.Bytes.Checksum
import Mathlib.Algebra.GroupWithZero.Nat
import Mathlib.Data.Nat.Bitwise

/-!
This module contains why the checksum tells payloads apart that differ in four consecutive bytes at most.
The remainder of a division by the polynomial can be shifted back, so what is fed behind the difference
does not lose it. Four bytes are as many as a remainder has, so none of them is lost either.

A payload that arrives in pieces has the checksum that it has at once, wherever it was cut.
-/

namespace AttrTree

theorem Bytes.toNat_lt (bytes : Bytes) : toNat bytes < 256 ^ bytes.length := by
  induction bytes with
  | nil => simp [toNat]
  | cons b bytes ih =>
    have hb := b.toNat_lt
    simp only [toNat, List.length_cons, Nat.pow_succ]
    omega

namespace Checksum

variable {r r' : UInt32} {bytes bytes' : Bytes}

theorem low_bit (r : UInt32) : r &&& 1 = 1 ↔ r.toBitVec[0] = true := by
  rw [← UInt32.toBitVec_inj, UInt32.toBitVec_and]
  constructor
  . intro h
    have hbit := congrArg (·[0]) h
    simpa using hbit
  . intro h
    apply BitVec.eq_of_getElem_eq
    intro i hi
    cases i with
    | zero => simpa using h
    | succ i => simp [BitVec.getElem_one]

theorem toBitVec_shift (r : UInt32) :
    (shift r).toBitVec = r.toBitVec >>> 1 ^^^ if r.toBitVec[0] then polynomial.toBitVec else 0 := by
  unfold shift
  split
  . next h => simp [(low_bit r).mp h]
  . next h =>
    rw [low_bit, Bool.not_eq_true] at h
    simp [h]

theorem shift_injective : Function.Injective shift := by
  -- The polynomial has the highest bit, so this bit tells what was shifted out.
  intro r r' h
  have hbits := congrArg UInt32.toBitVec h
  rw [toBitVec_shift, toBitVec_shift] at hbits
  have hlow : r.toBitVec[0] = r'.toBitVec[0] := by
    have htop := congrArg (·[31]) hbits
    have hpolynomial : polynomial.toBitVec[31] = true := by decide
    cases hr : r.toBitVec[0] <;> cases hr' : r'.toBitVec[0] <;> simp [hr, hr', hpolynomial] at htop ⊢
  rw [hlow] at hbits
  have hrest := (BitVec.xor_left_inj _).mp hbits
  apply UInt32.toBitVec_inj.mp
  apply BitVec.eq_of_getElem_eq
  intro i hi
  cases i with
  | zero => exact hlow
  | succ i =>
    have hbit := congrArg (·.getLsbD i) hrest
    simpa [BitVec.getLsbD_eq_getElem hi, Nat.add_comm 1 i] using hbit

theorem shift_xor (r r' : UInt32) : shift (r ^^^ r') = shift r ^^^ shift r' := by
  apply UInt32.toBitVec_inj.mp
  simp only [UInt32.toBitVec_xor, toBitVec_shift, BitVec.ushiftRight_xor_distrib, BitVec.getElem_xor]
  apply BitVec.eq_of_getElem_eq
  intro i hi
  cases r.toBitVec[0] <;> cases r'.toBitVec[0] <;> simp [Bool.xor_left_comm, Bool.xor_comm]

theorem shifts_injective (n : Nat) : Function.Injective (shifts n) := by
  induction n with
  | zero => exact Function.injective_id
  | succ n ih => exact ih.comp shift_injective

theorem shifts_xor (n : Nat) (r r' : UInt32) : shifts n (r ^^^ r') = shifts n r ^^^ shifts n r' := by
  induction n generalizing r r' with
  | zero => rfl
  | succ n ih => rw [shifts, shift_xor, ih, shifts, shifts]

theorem shifts_add (m n : Nat) (r : UInt32) : shifts (m + n) r = shifts n (shifts m r) := by
  induction m generalizing r with
  | zero => rw [Nat.zero_add, shifts]
  | succ m ih => rw [Nat.add_right_comm, shifts, ih, shifts]

theorem shift_even (h : r.toNat % 2 = 0) : (shift r).toNat = r.toNat / 2 := by
  have hlow : ¬ r &&& 1 = 1 := by
    intro hlow
    have hbit := congrArg UInt32.toNat hlow
    rw [UInt32.toNat_and, UInt32.toNat_one, Nat.and_one_is_mod] at hbit
    omega
  rw [shift, if_neg hlow, UInt32.toNat_shiftRight]
  simp [Nat.shiftRight_one]

theorem shifts_eq (n : Nat) (h : r.toNat = 2 ^ n * r'.toNat) : shifts n r = r' := by
  induction n generalizing r with
  | zero =>
    rw [Nat.pow_zero, Nat.one_mul] at h
    exact UInt32.toNat_inj.mp h
  | succ n ih =>
    rw [Nat.pow_succ, Nat.mul_right_comm] at h
    apply ih
    rw [shift_even (by omega)]
    omega

theorem add_eq_xor {low : Nat} (h : low < 2 ^ 8) (high : Nat) :
    low + 2 ^ 8 * high = low ^^^ (2 ^ 8 * high) := by
  apply Nat.eq_of_testBit_eq
  intro i
  rw [Nat.add_comm, Nat.testBit_two_pow_mul_add _ h, Nat.testBit_xor, Nat.testBit_two_pow_mul]
  by_cases hi : i < 8
  . simp [hi, Nat.not_le.mpr hi]
  . have hlow : low.testBit i = false :=
      Nat.testBit_lt_two_pow (Nat.lt_of_lt_of_le h (Nat.pow_le_pow_right (by decide) (by omega)))
    simp [hi, Nat.le_of_not_lt hi, hlow]

def word (bytes : Bytes) : UInt32 :=
  UInt32.ofNat (Bytes.toNat bytes)

theorem toNat_word (h : bytes.length ≤ 4) : (word bytes).toNat = Bytes.toNat bytes := by
  have hlt := Bytes.toNat_lt bytes
  have hle : 256 ^ bytes.length ≤ 256 ^ 4 := Nat.pow_le_pow_right (by decide) h
  rw [word, UInt32.toNat_ofNat']
  omega

theorem word_inj (h : bytes.length ≤ 4) (hlength : bytes'.length = bytes.length)
    (hword : word bytes' = word bytes) : bytes' = bytes := by
  have hnat := congrArg UInt32.toNat hword
  rw [toNat_word (by omega), toNat_word h] at hnat
  rw [← Bytes.littleEndian_toNat bytes', hnat, hlength, Bytes.littleEndian_toNat]

theorem word_cons (b : UInt8) (h : bytes.length ≤ 3) :
    shifts 8 (word (b :: bytes)) = shifts 8 b.toUInt32 ^^^ word bytes := by
  have hlt := Bytes.toNat_lt bytes
  have hle : 256 ^ bytes.length ≤ 256 ^ 3 := Nat.pow_le_pow_right (by decide) h
  have hhigh : (UInt32.ofNat (2 ^ 8 * Bytes.toNat bytes)).toNat = 2 ^ 8 * (word bytes).toNat := by
    rw [UInt32.toNat_ofNat', toNat_word (by omega)]
    omega
  have hsplit : word (b :: bytes) = b.toUInt32 ^^^ UInt32.ofNat (2 ^ 8 * Bytes.toNat bytes) := by
    apply UInt32.toNat_inj.mp
    rw [@toNat_word (b :: bytes) (Nat.succ_le_succ h), UInt32.toNat_xor, hhigh, toNat_word (by omega),
      UInt8.toNat_toUInt32]
    exact add_eq_xor b.toNat_lt _
  rw [hsplit, shifts_xor, shifts_eq 8 hhigh]

theorem feed_eq_shifts (r : UInt32) (h : bytes.length ≤ 4) :
    feed r bytes = shifts (8 * bytes.length) (r ^^^ word bytes) := by
  -- Four bytes at most can be fed at once.
  induction bytes generalizing r with
  | nil => simp [shifts, word, Bytes.toNat]
  | cons b bytes ih =>
    have hlength : bytes.length ≤ 3 := Nat.le_of_succ_le_succ h
    have hcons := word_cons b hlength
    calc
      feed r (b :: bytes) = feed (feedByte r b) bytes := rfl
      _ = shifts (8 * bytes.length) (shifts 8 (r ^^^ b.toUInt32) ^^^ word bytes) := ih _ (by omega)
      _ = shifts (8 * bytes.length) (shifts 8 (r ^^^ word (b :: bytes))) := by
        rw [shifts_xor 8, shifts_xor 8, UInt32.xor_assoc, ← hcons]
      _ = shifts (8 * (b :: bytes).length) (r ^^^ word (b :: bytes)) := by
        rw [← shifts_add, List.length_cons]
        congr 1
        omega

theorem feedByte_injective (b : UInt8) : Function.Injective (feedByte · b) := by
  intro r r' h
  exact (UInt32.xor_left_inj _).mp (shifts_injective 8 h)

theorem feed_injective (bytes : Bytes) : Function.Injective (feed · bytes) := by
  induction bytes with
  | nil => exact Function.injective_id
  | cons b bytes ih => exact ih.comp (feedByte_injective b)

theorem feed_inj_of_short (h : bytes.length ≤ 4) (hlength : bytes'.length = bytes.length)
    (hfeed : feed r bytes' = feed r bytes) : bytes' = bytes := by
  rw [feed_eq_shifts r h, feed_eq_shifts r (by omega), hlength] at hfeed
  exact word_inj h hlength ((UInt32.xor_right_inj _).mp (shifts_injective _ hfeed))

theorem crc32_inj_of_short {front rest : Bytes} (h : bytes.length ≤ 4)
    (hlength : bytes'.length = bytes.length)
    (hsum : crc32 (front ++ bytes' ++ rest) = crc32 (front ++ bytes ++ rest)) : bytes' = bytes := by
  have hfeed := (UInt32.xor_left_inj _).mp hsum
  simp only [feed_append] at hfeed
  exact feed_inj_of_short h hlength (feed_injective rest hfeed)

end Checksum

theorem checksum_eq (payload : Bytes) :
    checksum payload = if payload = [] then 0 else Checksum.crc32 payload := by
  simp [checksum]

namespace RunningChecksum

variable {payload : Bytes} {pieces : List Bytes}

theorem foldl_feed (pieces : List Bytes) (sum : RunningChecksum) :
    pieces.foldl feed sum = sum.feed pieces.flatten := by
  -- What is kept of the pieces does not tell where they were cut.
  induction pieces generalizing sum with
  | nil => simp
  | cons piece pieces ih => rw [List.foldl_cons, ih, List.flatten_cons, feed_append]

theorem finish_pieces (hcut : pieces.flatten = payload) :
    (pieces.foldl feed start).finish = checksum payload ∧
      checksum payload = if payload = [] then 0 else Checksum.crc32 payload := by
  constructor
  . rw [foldl_feed, hcut, finish_feed_start]
  . exact checksum_eq payload

theorem finish_pieces_digits :
    let payload : Bytes := [0x31, 0x32, 0x33, 0x34, 0x35, 0x36, 0x37, 0x38, 0x39]
    let pieces : List Bytes := [[0x31, 0x32, 0x33, 0x34], [], [0x35], [0x36, 0x37, 0x38, 0x39]]
    pieces.flatten = payload ∧ (pieces.foldl feed start).finish = 0xCBF43926 ∧
      (pieces.foldl feed start).finish = checksum payload := by
  intro payload pieces
  have hcut : pieces.flatten = payload := rfl
  have hfinish := finish_pieces hcut
  have hcrc : Checksum.crc32 payload = 0xCBF43926 := by decide +kernel
  exact ⟨hcut, by rw [hfinish.1, hfinish.2, if_neg (by simp [payload]), hcrc], hfinish.1⟩

end RunningChecksum

end AttrTree
