import AttrTree.Proofs.Directory
import Mathlib.Data.List.Basic

/-!
This module contains what is known of the text of a key: the two numbers can be read back from it, so no
two keys have the same text, and it is a valid name of a directory.
-/

namespace AttrTree

def keyAlphabet : List Char :=
  "0123456789ABCDEF.".toList

theorem hexDigit_mem_keyAlphabet {n : Nat} (h : n < 16) :
    hexDigit n ∈ keyAlphabet ∧ hexDigit n ≠ '.' := by
  revert n
  decide

theorem hexDigits_of_lt {n : Nat} (h : n < 16) : hexDigits n = [hexDigit n] := by
  rw [hexDigits, if_pos h]

theorem mem_hexDigits {n : Nat} {c : Char} (h : c ∈ hexDigits n) : c ∈ keyAlphabet ∧ c ≠ '.' := by
  fun_induction hexDigits n with
  | case1 n hlt =>
    rw [List.mem_singleton] at h
    exact h ▸ hexDigit_mem_keyAlphabet hlt
  | case2 n _ ih =>
    rw [List.mem_append, List.mem_singleton] at h
    rcases h with h | h
    . exact ih h
    . exact h ▸ hexDigit_mem_keyAlphabet (Nat.mod_lt n (by decide))

theorem length_hexDigits_le {n k : Nat} (h : n < 16 ^ k) (hk : 0 < k) :
    (hexDigits n).length ≤ k := by
  fun_induction hexDigits n generalizing k with
  | case1 => exact hk
  | case2 n hlarge ih =>
    obtain ⟨k, rfl⟩ := Nat.exists_eq_succ_of_ne_zero (Nat.ne_of_gt hk)
    have hk' : 0 < k := by
      rcases Nat.eq_zero_or_pos k with rfl | hpos
      . exact absurd (by simpa using h) hlarge
      . exact hpos
    have hdiv : n / 16 < 16 ^ k := by
      rw [Nat.div_lt_iff_lt_mul (by decide), ← Nat.pow_succ]
      exact h
    rw [List.length_append, List.length_singleton]
    exact Nat.succ_le_succ (ih hdiv hk')

def hexDigitValue (c : Char) : Nat :=
  if c.toNat < 58 then c.toNat - 48 else c.toNat - 55

def hexValue (digits : List Char) : Nat :=
  digits.foldl (fun n c => 16 * n + hexDigitValue c) 0

theorem hexDigitValue_hexDigit {n : Nat} (h : n < 16) : hexDigitValue (hexDigit n) = n := by
  revert n
  decide

theorem hexValue_hexDigits (n : Nat) : hexValue (hexDigits n) = n := by
  fun_induction hexDigits n with
  | case1 n hlt => simp [hexValue, hexDigitValue_hexDigit hlt]
  | case2 n _ ih =>
    have hlast := hexDigitValue_hexDigit (Nat.mod_lt n (show 0 < 16 by decide))
    have hfront : (hexDigits (n / 16)).foldl (fun n c => 16 * n + hexDigitValue c) 0 = n / 16 := ih
    rw [hexValue, List.foldl_append, List.foldl_cons, List.foldl_nil, hfront, hlast]
    exact Nat.div_add_mod n 16

theorem hexDigits_injective {m n : Nat} (h : hexDigits m = hexDigits n) : m = n := by
  rw [← hexValue_hexDigits m, h, hexValue_hexDigits]

structure IsHexNumeral (digits : List Char) : Prop where
  ne_nil : digits ≠ []
  mem : ∀ c ∈ digits, c ∈ "0123456789ABCDEF".toList
  front : digits.head? = some '0' → digits = ['0']

theorem head?_hexDigits {n : Nat} (h : n ≠ 0) : (hexDigits n).head? ≠ some '0' := by
  fun_induction hexDigits n with
  | case1 n hlt =>
    intro hhead
    injection hhead with hhead
    have hvalue := hexDigitValue_hexDigit hlt
    rw [hhead] at hvalue
    exact h hvalue.symm
  | case2 n hlarge ih =>
    rw [List.head?_append_of_ne_nil _ (hexDigits_ne_nil _)]
    exact ih (by omega)

theorem isHexNumeral_hexDigits (n : Nat) : IsHexNumeral (hexDigits n) where
  ne_nil := hexDigits_ne_nil n
  mem c hc := by
    have hkey : keyAlphabet = "0123456789ABCDEF".toList ++ ['.'] := by decide
    obtain ⟨hmem, hdot⟩ := mem_hexDigits hc
    rw [hkey, List.mem_append, List.mem_singleton] at hmem
    exact hmem.resolve_right hdot
  front hhead := by
    by_cases hn : n = 0
    . rw [hn, hexDigits_of_lt (by decide)]
      rfl
    . exact absurd hhead (head?_hexDigits hn)

namespace ObjectKey

theorem text_injective {key key' : ObjectKey} (h : key.text = key'.text) : key = key' := by
  have hlist := String.ofList_injective h
  have hdot (n : Nat) : '.' ∉ hexDigits n := fun hmem => (mem_hexDigits hmem).2 rfl
  obtain ⟨hid, _, hgeneration⟩ :=
    (List.append_cons_inj_of_notMem (hdot _) (hdot _)).mp hlist
  have hgeneration := UInt32.toNat_inj.mp (hexDigits_injective hgeneration)
  have hid := hexDigits_injective hid
  cases key
  cases key'
  simp_all

def IsWritten (key : ObjectKey) (text : String) : Prop :=
  ∃ id generation : List Char, text.toList = id ++ '.' :: generation
    ∧ (IsHexNumeral id ∧ hexValue id = key.id)
    ∧ IsHexNumeral generation ∧ hexValue generation = key.generation.toNat

theorem isWritten_text (key : ObjectKey) : key.IsWritten key.text :=
  ⟨hexDigits key.id, hexDigits key.generation.toNat, String.toList_ofList,
    ⟨isHexNumeral_hexDigits _, hexValue_hexDigits _⟩, isHexNumeral_hexDigits _, hexValue_hexDigits _⟩

theorem isDots_text (key : ObjectKey) : EntryName.isDots key.text = false := by
  have hid := hexDigits_ne_nil key.id
  have hgeneration := hexDigits_ne_nil key.generation.toNat
  have hlength : 2 < key.text.length := by
    simp only [text, String.length_ofList, List.length_append, List.length_cons]
    have := List.length_pos_iff.mpr hid
    have := List.length_pos_iff.mpr hgeneration
    omega
  have hne {name : String} (h : name.length ≤ 2) : (key.text == name) = false := by
    rw [beq_eq_false_iff_ne]
    rintro rfl
    omega
  rw [EntryName.isDots, hne (by decide), hne (by decide)]
  rfl

theorem mem_text {key : ObjectKey} {c : Char} (h : c ∈ key.text.toList) : c ∈ keyAlphabet := by
  rw [text, String.toList_ofList, List.mem_append, List.mem_cons] at h
  rcases h with h | rfl | h
  . exact (mem_hexDigits h).1
  . decide
  . exact (mem_hexDigits h).1

theorem utf8EncodeChar_of_mem {c : Char} (h : c ∈ keyAlphabet) :
    (String.utf8EncodeChar c).length = 1
      ∧ ∀ b ∈ String.utf8EncodeChar c, b ≠ 0x2f ∧ b ≠ 0 := by
  -- Every character of a key is one byte, and none is a separator.
  have hall : keyAlphabet.all (fun c => (String.utf8EncodeChar c).length == 1
      && (String.utf8EncodeChar c).all fun b => b != 0x2f && b != 0) = true := by
    decide
  have hc := List.all_eq_true.mp hall c h
  simp only [Bool.and_eq_true, beq_iff_eq, List.all_eq_true, bne_iff_ne] at hc
  exact hc

theorem bytes_text (key : ObjectKey) :
    EntryName.bytes key.text = key.text.toList.flatMap String.utf8EncodeChar := by
  rw [EntryName.bytes, ← String.ofList_toList (s := key.text), String.toByteArray_ofList]
  simp [List.utf8Encode]

theorem size_text (key : ObjectKey) : EntryName.size key.text = key.text.toList.length := by
  have hlength {chars : List Char} (h : ∀ c ∈ chars, c ∈ keyAlphabet) :
      (chars.flatMap String.utf8EncodeChar).length = chars.length := by
    induction chars with
    | nil => rfl
    | cons c chars ih =>
      rw [List.flatMap_cons, List.length_append, (utf8EncodeChar_of_mem (h c (by simp))).1,
        ih fun c' hc' => h c' (List.mem_cons_of_mem _ hc'), List.length_cons, Nat.add_comm]
  rw [← EntryName.length_bytes, bytes_text, hlength fun _ => mem_text]

theorem isValidName_text {key : ObjectKey} (h : key.id < 2 ^ 64) :
    MemStore.isValidName key.text = true := by
  have hid : (hexDigits key.id).length ≤ 16 :=
    length_hexDigits_le (Nat.lt_of_lt_of_le h (by decide)) (by decide)
  have hgeneration : (hexDigits key.generation.toNat).length ≤ 8 :=
    length_hexDigits_le (Nat.lt_of_lt_of_le key.generation.toNat_lt (by decide)) (by decide)
  have hempty : key.text.isEmpty = false := by
    rw [Bool.eq_false_iff, ne_eq, String.isEmpty_iff, text, String.ofList_eq_empty_iff]
    simp
  have hsize : ¬ EntryName.maxSize < EntryName.size key.text := by
    rw [size_text, text, String.toList_ofList, List.length_append, List.length_cons]
    simp only [EntryName.maxSize]
    omega
  have hseparator : EntryName.hasSeparator key.text = false := by
    rw [EntryName.hasSeparator, bytes_text, List.any_eq_false]
    intro b hb
    obtain ⟨c, hc, hb⟩ := List.mem_flatMap.mp hb
    have := (utf8EncodeChar_of_mem (mem_text hc)).2 b hb
    simp [this.1, this.2]
  simp [MemStore.isValidName, hempty, key.isDots_text, hsize, hseparator]

end ObjectKey

end AttrTree
