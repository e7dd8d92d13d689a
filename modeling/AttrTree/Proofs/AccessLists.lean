import AttrTree.Proofs.Failure
import Mathlib.Data.Finset.Card
import Mathlib.Data.Finset.Range

/-!
This module contains the grammar of access control lists and what the check of a list makes of it. The
grammar looks at the bytes by their positions, knows nothing of how the check reads them, and says of
every tag how many entries may have it.
-/

namespace AttrTree

theorem Bytes.chunks_eq_map_range (bytes : Bytes) {size n : Nat} (hsize : 0 < size)
    (hlength : bytes.length = size * n) :
    chunks bytes size = (List.range n).map fun i => (bytes.drop (size * i)).take size := by
  induction n generalizing bytes with
  | zero =>
    rw [Bytes.chunks, dif_pos]
    . rfl
    . left
      apply List.eq_nil_of_length_eq_zero
      omega
  | succ n ih =>
    rw [Nat.mul_succ] at hlength
    have hnil : ¬ (bytes = [] ∨ size = 0) := by
      rintro (rfl | hzero)
      . simp only [List.length_nil] at hlength
        omega
      . omega
    rw [Bytes.chunks, dif_neg hnil, ih (bytes.drop size) (by rw [List.length_drop]; omega),
      List.range_succ_eq_map, List.map_cons, List.map_map]
    congr 1
    apply List.map_congr_left
    intro i _
    simp only [Function.comp_apply, List.drop_drop, Nat.mul_succ, Nat.add_comm]

theorem Bytes.chunks_flatten {pieces : List Bytes} {size : Nat} (hsize : 0 < size)
    (h : ∀ piece ∈ pieces, piece.length = size) : chunks pieces.flatten size = pieces := by
  induction pieces with
  | nil =>
    rw [Bytes.chunks, dif_pos (.inl List.flatten_nil)]
  | cons piece pieces ih =>
    obtain ⟨hpiece, hpieces⟩ := List.forall_mem_cons.1 h
    have hnil : ¬ ((piece :: pieces).flatten = [] ∨ size = 0) := by
      rintro (hnil | hzero)
      . have hlength := congrArg List.length hnil
        simp only [List.flatten_cons, List.length_append, List.length_nil] at hlength
        omega
      . omega
    rw [Bytes.chunks, dif_neg hnil, List.flatten_cons, List.take_left' hpiece,
      List.drop_left' hpiece, ih hpieces]

theorem countP_range_eq_card (p : Nat → Bool) (n : Nat) :
    (List.range n).countP p = ((Finset.range n).filter (p ·)).card := by
  simp only [List.countP_eq_length_filter, Finset.card_def, Finset.filter_val, Finset.range_val,
    Multiset.range, Multiset.filter_coe, Multiset.coe_card, Bool.decide_eq_true]

theorem countP_range_eq_one_iff (p : Nat → Bool) (n : Nat) :
    (List.range n).countP p = 1 ↔ ∃! i, i < n ∧ p i = true := by
  rw [countP_range_eq_card, Finset.card_eq_one, Finset.singleton_iff_unique_mem]
  simp only [Finset.mem_filter, Finset.mem_range]

theorem countP_range_le_one_iff (p : Nat → Bool) (n : Nat) :
    (List.range n).countP p ≤ 1 ↔ ∀ i < n, ∀ j < n, p i = true → p j = true → i = j := by
  rw [countP_range_eq_card, Finset.card_le_one]
  simp only [Finset.mem_filter, Finset.mem_range]
  constructor
  . intro h i hi j hj hpi hpj
    exact h i ⟨hi, hpi⟩ j ⟨hj, hpj⟩
  . rintro h i ⟨hi, hpi⟩ j ⟨hj, hpj⟩
    exact h i hi j hj hpi hpj

namespace Acl

open Action

def Tag.toNat : Tag → Nat
  | .owner => 0x01
  | .user => 0x02
  | .owningGroup => 0x04
  | .group => 0x08
  | .mask => 0x10
  | .other => 0x20

theorem Tag.ofNat?_eq_some_iff {word : Nat} {tag : Tag} :
    Tag.ofNat? word = some tag ↔ word = tag.toNat := by
  constructor
  . intro h
    unfold Tag.ofNat? at h
    split at h
    all_goals
      cases h
    all_goals
      rfl
  . rintro rfl
    cases tag
    all_goals
      rfl

theorem Tag.toNat_inj {tag tag' : Tag} : tag.toNat = tag'.toNat ↔ tag = tag' := by
  constructor
  . intro h
    have hsome := Tag.ofNat?_eq_some_iff.2 h
    rw [Tag.ofNat?_eq_some_iff.2 rfl] at hsome
    exact Option.some.inj hsome
  . rintro rfl
    rfl

theorem Tag.exists_toNat_iff {word : Nat} :
    (∃ tag : Tag, word = tag.toNat) ↔ word ∈ [0x01, 0x02, 0x04, 0x08, 0x10, 0x20] := by
  constructor
  . rintro ⟨tag, rfl⟩
    cases tag
    all_goals
      decide
  . intro h
    simp only [List.mem_cons, List.not_mem_nil, or_false] at h
    rcases h with rfl | rfl | rfl | rfl | rfl | rfl
    . exact ⟨.owner, rfl⟩
    . exact ⟨.user, rfl⟩
    . exact ⟨.owningGroup, rfl⟩
    . exact ⟨.group, rfl⟩
    . exact ⟨.mask, rfl⟩
    . exact ⟨.other, rfl⟩

section Grammar

def tagAt (bytes : Bytes) (i : Nat) : Nat :=
  Bytes.toNat ((bytes.drop (headerSize + entrySize * i)).take 2)

def permissionAt (bytes : Bytes) (i : Nat) : Nat :=
  Bytes.toNat ((bytes.drop (headerSize + entrySize * i + 2)).take 2)

/-- `bytes` is a list of `n` entries, told by the words at their places without `Acl.ofBytes`. -/
structure IsList (bytes : Bytes) (n : Nat) : Prop where
  length : bytes.length = headerSize + entrySize * n
  version : Bytes.toNat (bytes.take headerSize) = Acl.version
  tags : ∀ i < n, tagAt bytes i ∈ [0x01, 0x02, 0x04, 0x08, 0x10, 0x20]
  permissions : ∀ i < n, permissionAt bytes i ≤ maxPermission
  single : ∀ word ∈ [0x01, 0x04, 0x20], ∃! i, i < n ∧ tagAt bytes i = word
  oneMask : ∀ i < n, ∀ j < n, tagAt bytes i = 0x10 → tagAt bytes j = 0x10 → i = j
  masked : (∃ i < n, tagAt bytes i = 0x02 ∨ tagAt bytes i = 0x08) → ∃ i < n, tagAt bytes i = 0x10

end Grammar

section Words

def tagOf (entry : Bytes) : Nat :=
  Bytes.toNat (entry.take 2)

def permissionOf (entry : Bytes) : Nat :=
  Bytes.toNat ((entry.drop 2).take 2)

def Sound (entry : Bytes) : Prop :=
  (∃ tag : Tag, tagOf entry = tag.toNat) ∧ permissionOf entry ≤ maxPermission

theorem tagOf_take (entry : Bytes) : tagOf (entry.take 4) = tagOf entry := by
  simp [tagOf, List.take_take]

theorem permissionOf_take (entry : Bytes) : permissionOf (entry.take 4) = permissionOf entry := by
  simp [permissionOf, List.drop_take, List.take_take]

theorem sound_take_iff {entry : Bytes} : Sound (entry.take 4) ↔ Sound entry := by
  simp only [Sound, tagOf_take, permissionOf_take]

theorem Entry.ofBytes_eq (bytes : Bytes) : Entry.ofBytes bytes =
    if maxPermission < permissionOf bytes then
      .error badPermission
    else
      match Tag.ofNat? (tagOf bytes) with
      | none => .error badTag
      | some tag => .ok ⟨tag, permissionOf bytes, Bytes.toNat (bytes.drop 4)⟩ :=
  rfl

def Entry.unnamed (entry : Entry) : Entry :=
  { entry with id := 0 }

theorem Entry.ofBytes_take (bytes : Bytes) :
    Entry.ofBytes (bytes.take 4) = (Entry.ofBytes bytes).map Entry.unnamed := by
  -- The first four bytes hold all of an entry but the user or group that it names.
  rw [Entry.ofBytes_eq, Entry.ofBytes_eq, permissionOf_take, tagOf_take]
  split
  . rfl
  . split
    . rfl
    . simp [Except.map, Entry.unnamed, Bytes.toNat]

theorem mapM_ofBytes_take (pieces : List Bytes) :
    (pieces.map (·.take 4)).mapM Entry.ofBytes =
      (pieces.mapM Entry.ofBytes).map (List.map Entry.unnamed) := by
  induction pieces with
  | nil => rfl
  | cons piece pieces ih =>
    rw [List.map_cons, List.mapM_cons, List.mapM_cons, ih, Entry.ofBytes_take]
    cases Entry.ofBytes piece with
    | error e => rfl
    | ok entry =>
      cases pieces.mapM Entry.ofBytes with
      | error e => rfl
      | ok entries => rfl

theorem Entry.ofBytes_of_sound {bytes : Bytes} (h : Sound bytes) :
    ∃ entry, Entry.ofBytes bytes = .ok entry := by
  obtain ⟨⟨tag, htag⟩, hpermission⟩ := h
  rw [Entry.ofBytes_eq, if_neg (by omega), Tag.ofNat?_eq_some_iff.2 htag]
  exact ⟨_, rfl⟩

theorem Entry.sound_of_ofBytes {bytes : Bytes} {entry : Entry}
    (h : Entry.ofBytes bytes = .ok entry) : Sound bytes ∧ entry.tag.toNat = tagOf bytes := by
  rw [Entry.ofBytes_eq] at h
  split at h
  . cases h
  . next hpermission =>
    split at h
    . cases h
    . next tag htag =>
      cases h
      rw [Tag.ofNat?_eq_some_iff] at htag
      exact ⟨⟨⟨tag, htag⟩, by omega⟩, htag.symm⟩

theorem mapM_of_sound {pieces : List Bytes} (h : ∀ piece ∈ pieces, Sound piece) :
    ∃ entries, pieces.mapM Entry.ofBytes = .ok entries := by
  induction pieces with
  | nil => exact ⟨[], rfl⟩
  | cons piece pieces ih =>
    obtain ⟨hpiece, hpieces⟩ := List.forall_mem_cons.1 h
    obtain ⟨entry, hentry⟩ := Entry.ofBytes_of_sound hpiece
    obtain ⟨entries, hentries⟩ := ih hpieces
    refine ⟨entry :: entries, ?_⟩
    rw [List.mapM_cons, hentry, hentries]
    rfl

theorem sound_of_mapM {pieces : List Bytes} {entries : List Entry}
    (h : pieces.mapM Entry.ofBytes = .ok entries) :
    (∀ piece ∈ pieces, Sound piece) ∧ entries.map (·.tag.toNat) = pieces.map tagOf := by
  induction pieces generalizing entries with
  | nil =>
    rw [List.mapM_nil] at h
    cases h
    simp
  | cons piece pieces ih =>
    simp only [List.mapM_cons, exceptBind_eq_ok_iff, exceptPure_eq_ok_iff] at h
    obtain ⟨entry, hentry, rest, hrest, rfl⟩ := h
    obtain ⟨hsound, htag⟩ := Entry.sound_of_ofBytes hentry
    obtain ⟨hsounds, htags⟩ := ih hrest
    constructor
    . exact List.forall_mem_cons.2 ⟨hsound, hsounds⟩
    . rw [List.map_cons, List.map_cons, htag, htags]

structure Balanced (words : List Nat) : Prop where
  single : ∀ word ∈ [0x01, 0x04, 0x20], words.count word = 1
  oneMask : words.count 0x10 ≤ 1
  masked : 0x02 ∈ words ∨ 0x08 ∈ words → 0x10 ∈ words

def tally (words : List Nat) (word : Nat) : Int32 :=
  .ofNat (words.count word)

/-- `Balanced` as the counters of `wellFormed` see it. -/
structure Tallied (words : List Nat) : Prop where
  single : ∀ word ∈ [0x01, 0x04, 0x20], tally words word = 1
  oneMask : tally words 0x10 ≤ 1
  masked : 0 < tally words 0x02 + tally words 0x08 → tally words 0x10 ≠ 0

theorem count_eq (tag : Tag) (entries : List Entry) :
    count tag entries = tally (entries.map (·.tag.toNat)) tag.toNat := by
  simp only [count, tally, List.count, List.countP_map]
  congr 1
  apply List.countP_congr
  intro entry _
  simp only [Function.comp_apply, beq_iff_eq, Tag.toNat_inj]

theorem wellFormed_map_unnamed (entries : List Entry) :
    wellFormed (entries.map Entry.unnamed) = wellFormed entries := by
  simp only [wellFormed, count_eq, List.map_map]
  rfl

theorem wellFormed_iff (entries : List Entry) :
    wellFormed entries = true ↔ Tallied (entries.map (·.tag.toNat)) := by
  simp only [wellFormed, count_eq, Tag.toNat, Bool.and_eq_true, Bool.not_eq_true',
    Bool.and_eq_false_iff, beq_iff_eq, beq_eq_false_iff_ne, decide_eq_true_eq, decide_eq_false_iff_not]
  constructor
  . rintro ⟨⟨⟨⟨howner, hgroup⟩, hother⟩, hmask⟩, hnamed⟩
    exact ⟨by simp [howner, hgroup, hother], hmask, fun hpos => hnamed.resolve_left (not_not_intro hpos)⟩
  . rintro ⟨hsingle, hmask, hmasked⟩
    exact ⟨⟨⟨⟨hsingle _ (by simp), hsingle _ (by simp)⟩, hsingle _ (by simp)⟩, hmask⟩,
      imp_iff_not_or.mp hmasked⟩

theorem count_add_count_le_length {a b : Nat} (h : a ≠ b) (words : List Nat) :
    words.count a + words.count b ≤ words.length := by
  induction words with
  | nil => simp
  | cons word words ih =>
    simp only [List.count_cons, List.length_cons, beq_iff_eq]
    split
    . next heq =>
      rw [if_neg fun heq' => h (heq.symm.trans heq')]
      omega
    . split <;> omega

section Counters

variable {words : List Nat} (h : words.length < 2 ^ 31)
include h

theorem toInt_tally (word : Nat) : (tally words word).toInt = words.count word :=
  Int32.toInt_ofNat_of_lt (Nat.lt_of_le_of_lt List.count_le_length h)

theorem toInt_tally_add_tally {a b : Nat} (hne : a ≠ b) :
    (tally words a + tally words b).toInt = words.count a + words.count b := by
  have hle := count_add_count_le_length hne words
  rw [tally, tally, ← Int32.ofNat_add, Int32.toInt_ofNat_of_lt (by omega), Int.natCast_add]

theorem tally_eq_one_iff (word : Nat) : tally words word = 1 ↔ words.count word = 1 := by
  rw [← Int32.toInt_inj, toInt_tally h, show (1 : Int32).toInt = 1 by decide]
  omega

theorem tally_le_one_iff (word : Nat) : tally words word ≤ 1 ↔ words.count word ≤ 1 := by
  rw [Int32.le_iff_toInt_le, toInt_tally h, show (1 : Int32).toInt = 1 by decide]
  omega

theorem tally_ne_zero_iff (word : Nat) : tally words word ≠ 0 ↔ word ∈ words := by
  rw [Ne, ← Int32.toInt_inj, toInt_tally h, show (0 : Int32).toInt = 0 by decide,
    ← List.count_pos_iff]
  omega

theorem tally_add_tally_pos_iff {a b : Nat} (hne : a ≠ b) :
    0 < tally words a + tally words b ↔ a ∈ words ∨ b ∈ words := by
  rw [Int32.lt_iff_toInt_lt, toInt_tally_add_tally h hne, show (0 : Int32).toInt = 0 by decide,
    ← List.count_pos_iff, ← List.count_pos_iff]
  omega

theorem tallied_iff_balanced : Tallied words ↔ Balanced words := by
  have hnamed := tally_add_tally_pos_iff h (show 0x02 ≠ 0x08 by decide)
  constructor
  . rintro ⟨hsingle, hmask, hmasked⟩
    exact ⟨fun word hword => (tally_eq_one_iff h word).mp (hsingle word hword),
      (tally_le_one_iff h _).mp hmask,
      fun hany => (tally_ne_zero_iff h _).mp (hmasked (hnamed.mpr hany))⟩
  . rintro ⟨hsingle, hmask, hmasked⟩
    exact ⟨fun word hword => (tally_eq_one_iff h word).mpr (hsingle word hword),
      (tally_le_one_iff h _).mpr hmask,
      fun hpos => (tally_ne_zero_iff h _).mpr (hmasked (hnamed.mp hpos))⟩

end Counters

end Words

section Check

theorem ofBytes_eq_ok_iff {bytes : Bytes} {entries : List Entry} :
    ofBytes bytes = .ok entries
      ↔ (headerSize ≤ bytes.length ∧ (bytes.length - headerSize) % entrySize = 0)
        ∧ Bytes.toNat (bytes.take headerSize) = version
        ∧ (Bytes.chunks (bytes.drop headerSize) entrySize).mapM Entry.ofBytes = .ok entries
        ∧ wellFormed entries = true := by
  have hlast (read : List Entry) :
      (if wellFormed read then return read else throw malformed : Except Error (List Entry)) =
        .ok entries ↔ read = entries ∧ wellFormed read = true := by
    split
    . next hformed => rw [exceptPure_eq_ok_iff, and_iff_left hformed, eq_comm]
    . next hformed => simp [throw, throwThe, MonadExceptOf.throw, hformed]
  simp only [ofBytes, throwIf_eq_ok_iff, exceptBind_eq_ok_iff, hlast, Decidable.not_not,
    Bool.or_eq_true, decide_eq_true_eq, bne_iff_ne, not_or, Nat.not_lt]
  constructor
  . rintro ⟨hlength, hversion, read, hread, rfl, hformed⟩
    exact ⟨hlength, hversion, hread, hformed⟩
  . rintro ⟨hlength, hversion, hread, hformed⟩
    exact ⟨hlength, hversion, entries, hread, rfl, hformed⟩

theorem length_eq_iff (length n : Nat) : length = headerSize + entrySize * n
    ↔ (headerSize ≤ length ∧ (length - headerSize) % entrySize = 0)
      ∧ n = (length - headerSize) / entrySize := by
  unfold headerSize entrySize
  omega

theorem validate_eq_ok_iff {bytes : Bytes} {n : Nat} :
    validate bytes = .ok n ↔ bytes.length = headerSize + entrySize * n
      ∧ Bytes.toNat (bytes.take headerSize) = version
      ∧ (∀ piece ∈ Bytes.chunks (bytes.drop headerSize) entrySize, Sound piece)
      ∧ Tallied ((Bytes.chunks (bytes.drop headerSize) entrySize).map tagOf) := by
  have hcount {n : Nat} (hlength : bytes.length = headerSize + entrySize * n)
      {entries : List Entry} (hread : (Bytes.chunks (bytes.drop headerSize) entrySize).mapM
        Entry.ofBytes = .ok entries) : entries.length = n := by
    have hpieces := congrArg List.length (sound_of_mapM hread).2
    rw [Bytes.chunks_eq_map_range _ (by decide) (n := n) (by rw [List.length_drop]; omega)] at hpieces
    simpa using hpieces
  simp only [validate, exceptBind_eq_ok_iff, exceptPure_eq_ok_iff, ofBytes_eq_ok_iff]
  constructor
  . rintro ⟨entries, ⟨hlength, hversion, hread, hformed⟩, rfl⟩
    have hlength := (length_eq_iff _ _).2 ⟨hlength, rfl⟩
    obtain ⟨hsound, htags⟩ := sound_of_mapM hread
    rw [wellFormed_iff, htags] at hformed
    rw [hcount hlength hread]
    exact ⟨hlength, hversion, hsound, hformed⟩
  . rintro ⟨hlength, hversion, hsound, htallied⟩
    obtain ⟨entries, hread⟩ := mapM_of_sound hsound
    refine ⟨entries, ⟨((length_eq_iff _ _).1 hlength).1, hversion, hread, ?_⟩,
      (hcount hlength hread).symm⟩
    rwa [wellFormed_iff, (sound_of_mapM hread).2]

theorem balanced_map_range_iff (words : Nat → Nat) (n : Nat) :
    Balanced ((List.range n).map words)
      ↔ (∀ word ∈ [0x01, 0x04, 0x20], ∃! i, i < n ∧ words i = word)
        ∧ (∀ i < n, ∀ j < n, words i = 0x10 → words j = 0x10 → i = j)
        ∧ ((∃ i < n, words i = 0x02 ∨ words i = 0x08) → ∃ i < n, words i = 0x10) := by
  have hcount (word : Nat) :
      ((List.range n).map words).count word = (List.range n).countP (words · == word) := by
    rw [List.count, List.countP_map]
    rfl
  have hmem (word : Nat) : word ∈ (List.range n).map words ↔ ∃ i < n, words i = word := by
    simp only [List.mem_map, List.mem_range]
  have hnamed : (∃ i < n, words i = 0x02 ∨ words i = 0x08)
      ↔ (∃ i < n, words i = 0x02) ∨ ∃ i < n, words i = 0x08 := by
    simp only [and_or_left, exists_or]
  rw [hnamed]
  constructor
  . rintro ⟨hsingle, hmask, hmasked⟩
    simp only [hcount, hmem, countP_range_eq_one_iff, countP_range_le_one_iff, beq_iff_eq]
      at hsingle hmask hmasked
    exact ⟨hsingle, hmask, hmasked⟩
  . rintro ⟨hsingle, hmask, hmasked⟩
    refine ⟨?_, ?_, ?_⟩
    all_goals
      simp only [hcount, hmem, countP_range_eq_one_iff, countP_range_le_one_iff, beq_iff_eq]
      assumption

theorem isList_iff {bytes : Bytes} {n : Nat} :
    IsList bytes n ↔ bytes.length = headerSize + entrySize * n
      ∧ Bytes.toNat (bytes.take headerSize) = version
      ∧ (∀ piece ∈ Bytes.chunks (bytes.drop headerSize) entrySize, Sound piece)
      ∧ Balanced ((Bytes.chunks (bytes.drop headerSize) entrySize).map tagOf) := by
  -- The entry at place `i` lies behind the header and `i` other entries.
  have hpieces (hlength : bytes.length = headerSize + entrySize * n) :
      Bytes.chunks (bytes.drop headerSize) entrySize = (List.range n).map fun i =>
        (bytes.drop (headerSize + entrySize * i)).take entrySize := by
    rw [Bytes.chunks_eq_map_range _ (by decide) (n := n) (by rw [List.length_drop]; omega)]
    simp only [List.drop_drop]
  have htag (i : Nat) :
      tagOf ((bytes.drop (headerSize + entrySize * i)).take entrySize) = tagAt bytes i := by
    simp [tagOf, tagAt, List.take_take, entrySize]
  have hpermission (i : Nat) :
      permissionOf ((bytes.drop (headerSize + entrySize * i)).take entrySize) =
        permissionAt bytes i := by
    simp [permissionOf, permissionAt, List.drop_take, List.drop_drop, List.take_take, entrySize]
  constructor
  . rintro ⟨hlength, hversion, htags, hpermissions, hsingle, hmask, hmasked⟩
    refine ⟨hlength, hversion, ?_, ?_⟩
    . rw [hpieces hlength, List.forall_mem_map]
      intro i hi
      rw [List.mem_range] at hi
      rw [Sound, htag, hpermission, Tag.exists_toNat_iff]
      exact ⟨htags i hi, hpermissions i hi⟩
    . rw [hpieces hlength, List.map_map]
      apply (balanced_map_range_iff _ n).2
      simp only [Function.comp_apply, htag]
      exact ⟨hsingle, hmask, hmasked⟩
  . rintro ⟨hlength, hversion, hsound, hbalanced⟩
    rw [hpieces hlength, List.forall_mem_map] at hsound
    rw [hpieces hlength, List.map_map, balanced_map_range_iff] at hbalanced
    simp only [Sound, htag, hpermission, Tag.exists_toNat_iff, List.mem_range] at hsound
    simp only [Function.comp_apply, htag] at hbalanced
    obtain ⟨hsingle, hmask, hmasked⟩ := hbalanced
    exact ⟨hlength, hversion, fun i hi => (hsound i hi).1, fun i hi => (hsound i hi).2, hsingle,
      hmask, hmasked⟩

theorem validate_eq_ok_iff_isList {bytes : Bytes} {n : Nat}
    (h : bytes.length < headerSize + entrySize * 2 ^ 31) : validate bytes = .ok n ↔ IsList bytes n := by
  rw [validate_eq_ok_iff, isList_iff]
  refine and_congr_right fun hlength => and_congr_right fun _ => and_congr_right fun _ => ?_
  apply tallied_iff_balanced
  rw [List.length_map, Bytes.chunks_eq_map_range _ (by decide) (n := n) (by rw [List.length_drop]; omega),
    List.length_map, List.length_range]
  unfold entrySize at h hlength
  omega

end Check

section Acceptance

theorem tally_perm {words words' : List Nat} (hperm : words.Perm words') (word : Nat) :
    tally words word = tally words' word := by
  rw [tally, tally, hperm.count_eq]

theorem Tallied.perm {words words' : List Nat} (hperm : words.Perm words') (h : Tallied words) :
    Tallied words' where
  single word hword := by
    rw [← tally_perm hperm]
    exact h.single word hword
  oneMask := by
    rw [← tally_perm hperm]
    exact h.oneMask
  masked := by
    simp only [← tally_perm hperm]
    exact h.masked

theorem pieces_eq {head : Bytes} {entries : List Bytes} (hhead : head.length = headerSize)
    (hentries : ∀ entry ∈ entries, entry.length = entrySize) :
    Bytes.chunks ((head ++ entries.flatten).drop headerSize) entrySize = entries := by
  rw [List.drop_left' hhead, Bytes.chunks_flatten (by decide) hentries]

theorem length_flatten {entries : List Bytes}
    (hentries : ∀ entry ∈ entries, entry.length = entrySize) :
    entries.flatten.length = entrySize * entries.length := by
  rw [List.length_flatten, List.map_congr_left hentries, List.map_const', List.sum_replicate_nat,
    Nat.mul_comm]

section Reordered

variable {head : Bytes} {entries entries' : List Bytes}
  (hhead : head.length = headerSize) (hentries : ∀ entry ∈ entries, entry.length = entrySize)
  (hentries' : ∀ entry ∈ entries', entry.length = entrySize)

include hhead hentries

theorem validate_flatten_eq_ok_iff {n : Nat} :
    validate (head ++ entries.flatten) = .ok n ↔ entries.length = n ∧ Bytes.toNat head = version
      ∧ (∀ front ∈ entries.map (·.take 4), Sound front)
      ∧ Tallied ((entries.map (·.take 4)).map tagOf) := by
  rw [validate_eq_ok_iff, pieces_eq hhead hentries, List.length_append, hhead,
    length_flatten hentries, List.take_left' hhead, List.forall_mem_map, List.map_map]
  simp only [sound_take_iff, Function.comp_def, tagOf_take]
  apply and_congr_left
  intro _
  unfold entrySize
  omega

include hentries' in
theorem validate_eq_ok_of_perm {n : Nat}
    (hperm : (entries.map (·.take 4)).Perm (entries'.map (·.take 4)))
    (h : validate (head ++ entries.flatten) = .ok n) :
    validate (head ++ entries'.flatten) = .ok n := by
  rw [validate_flatten_eq_ok_iff hhead hentries] at h
  rw [validate_flatten_eq_ok_iff hhead hentries']
  obtain ⟨rfl, hversion, hsound, htallied⟩ := h
  refine ⟨?_, hversion, fun front hfront => hsound front (hperm.mem_iff.2 hfront),
    htallied.perm (hperm.map tagOf)⟩
  simpa using hperm.length_eq.symm

theorem validate_flatten : validate (head ++ entries.flatten) =
    if Bytes.toNat head = version then do
      let fronts ← (entries.map (·.take 4)).mapM Entry.ofBytes
      if wellFormed fronts then return fronts.length else throw malformed
    else
      throw badVersion := by
  have hlength : ¬ (((decide ((head ++ entries.flatten).length < headerSize)) ||
      ((head ++ entries.flatten).length - headerSize) % entrySize != 0) = true) := by
    simp [hhead, length_flatten hentries]
  rw [validate, ofBytes, if_neg hlength, List.take_left' hhead, pieces_eq hhead hentries,
    mapM_ofBytes_take]
  by_cases hversion : Bytes.toNat head = version
  . rw [if_pos hversion, if_neg (by simpa using hversion)]
    cases entries.mapM Entry.ofBytes with
    | error e => rfl
    | ok read =>
      simp only [Except.map, bind, Except.bind, wellFormed_map_unnamed, List.length_map]
      cases wellFormed read with
      | true => rfl
      | false => rfl
  . rw [if_neg hversion, if_pos hversion]
    rfl

include hentries' in
theorem validate_congr (hfronts : entries.map (·.take 4) = entries'.map (·.take 4)) :
    validate (head ++ entries.flatten) = validate (head ++ entries'.flatten) := by
  rw [validate_flatten hhead hentries, validate_flatten hhead hentries', hfronts]

end Reordered

theorem mapError_kind_congr {result result' : Except Error Nat}
    (hfails : FailsWith (·.kind = .invalidInput) result)
    (hfails' : FailsWith (·.kind = .invalidInput) result')
    (h : ∀ n, result = .ok n ↔ result' = .ok n) :
    result.mapError (·.kind) = result'.mapError (·.kind) := by
  cases result with
  | ok n =>
    rw [(h n).1 rfl]
  | error e =>
    cases result' with
    | ok n =>
      cases (h n).2 rfl
    | error e' =>
      simp only [Except.mapError, hfails e rfl, hfails' e' rfl]

/-- The bound keeps the counters of `wellFormed` from wrapping around. Which of several errors is reported
depends on the order of the entries, that there is one does not. -/
theorem validate_accepts_lists (bytes : Bytes) :
    (bytes.length < headerSize + entrySize * 2 ^ 31 →
      (∀ n, validate bytes = .ok n ↔ IsList bytes n)
      ∧ ((∀ n, ¬ IsList bytes n) → ∃ message, validate bytes = .error ⟨.invalidInput, message⟩))
    ∧ ∀ (head : Bytes) (entries entries' : List Bytes),
      bytes = head ++ entries.flatten → head.length = headerSize →
      (∀ entry ∈ entries, entry.length = entrySize) →
      (∀ entry ∈ entries', entry.length = entrySize) →
      ((entries.map (·.take 4)).Perm (entries'.map (·.take 4)) →
        (validate (head ++ entries'.flatten)).mapError (·.kind) =
          (validate bytes).mapError (·.kind))
      ∧ (entries.map (·.take 4) = entries'.map (·.take 4) →
        validate (head ++ entries'.flatten) = validate bytes) := by
  refine ⟨fun hshort => ⟨fun n => validate_eq_ok_iff_isList hshort, fun hnone => ?_⟩, ?_⟩
  . cases hresult : validate bytes with
    | ok n => exact absurd ((validate_eq_ok_iff_isList hshort).1 hresult) (hnone n)
    | error e =>
      obtain ⟨kind, message⟩ := e
      obtain rfl : kind = .invalidInput := failsWith_validate bytes _ hresult
      exact ⟨message, rfl⟩
  . rintro head entries entries' rfl hhead hentries hentries'
    refine ⟨fun hperm => ?_, fun hfronts =>
      (validate_congr hhead hentries hentries' hfronts).symm⟩
    apply mapError_kind_congr (failsWith_validate _) (failsWith_validate _)
    intro n
    constructor
    . exact validate_eq_ok_of_perm hhead hentries' hentries hperm.symm
    . exact validate_eq_ok_of_perm hhead hentries hentries' hperm

def namedEntries : List Bytes :=
  [[0x01, 0, 6, 0, 0xff, 0xff, 0xff, 0xff], [0x02, 0, 4, 0, 0xe8, 3, 0, 0],
    [0x04, 0, 4, 0, 0xff, 0xff, 0xff, 0xff], [0x10, 0, 4, 0, 0xff, 0xff, 0xff, 0xff],
    [0x20, 0, 0, 0, 0xff, 0xff, 0xff, 0xff]]

def renamedEntries : List Bytes :=
  [[0x20, 0, 0, 0, 0xff, 0xff, 0xff, 0xff], [0x10, 0, 4, 0, 0xff, 0xff, 0xff, 0xff],
    [0x04, 0, 4, 0, 0xff, 0xff, 0xff, 0xff], [0x02, 0, 4, 0, 0xe9, 3, 0, 0],
    [0x01, 0, 6, 0, 0xff, 0xff, 0xff, 0xff]]

theorem validate_accepts_lists_named :
    IsList ([2, 0, 0, 0] ++ namedEntries.flatten) 5
    ∧ (∀ n, ¬ IsList ([2, 0, 0, 0] ++ namedEntries.tail.flatten) n)
    ∧ (validate ([2, 0, 0, 0] ++ renamedEntries.flatten)).mapError (·.kind) = .ok 5 := by
  have hvalidate : validate ([2, 0, 0, 0] ++ namedEntries.flatten) = .ok 5 := by decide +kernel
  have hlist := validate_accepts_lists ([2, 0, 0, 0] ++ namedEntries.flatten)
  have htail := validate_accepts_lists ([2, 0, 0, 0] ++ namedEntries.tail.flatten)
  have hshort : ([2, 0, 0, 0] ++ namedEntries.flatten).length < headerSize + entrySize * 2 ^ 31 := by
    decide
  have hshort' : ([2, 0, 0, 0] ++ namedEntries.tail.flatten).length < headerSize + entrySize * 2 ^ 31 := by
    decide
  refine ⟨((hlist.1 hshort).1 5).1 hvalidate, fun n hn => ?_, ?_⟩
  . have hmalformed : validate ([2, 0, 0, 0] ++ namedEntries.tail.flatten) = .error malformed := by
      decide +kernel
    rw [((htail.1 hshort').1 n).2 hn] at hmalformed
    cases hmalformed
  . rw [(hlist.2 [2, 0, 0, 0] namedEntries renamedEntries rfl rfl (by decide) (by decide)).1
      (by decide), hvalidate]
    rfl

def unmaskedEntries (m : Nat) : List Bytes :=
  [0x01, 0, 7, 0, 0, 0, 0, 0] :: [0x04, 0, 5, 0, 0, 0, 0, 0] :: [0x20, 0, 0, 0, 0, 0, 0, 0]
    :: List.replicate m [0x02, 0, 5, 0, 0, 0, 0, 0]

theorem validate_unmaskedEntries {m : Nat} (h : 0 < m) (hwraps : Int32.ofNat m ≤ 0) :
    validate ([2, 0, 0, 0] ++ (unmaskedEntries m).flatten) = .ok (m + 3)
      ∧ ∀ n, ¬ IsList ([2, 0, 0, 0] ++ (unmaskedEntries m).flatten) n := by
  have hsizes : ∀ entry ∈ unmaskedEntries m, entry.length = entrySize := by
    simp [unmaskedEntries, entrySize, List.mem_replicate]
  have hwords : (unmaskedEntries m).map tagOf = 0x01 :: 0x04 :: 0x20 :: List.replicate m 0x02 := by
    simp [unmaskedEntries, tagOf, Bytes.toNat]
  constructor
  . rw [validate_flatten_eq_ok_iff rfl hsizes, List.map_map]
    simp only [Function.comp_def, tagOf_take, hwords]
    refine ⟨by simp [unmaskedEntries], by decide, ?_, ?_⟩
    . simp only [List.forall_mem_map, sound_take_iff]
      simp [unmaskedEntries, List.mem_replicate, Sound, Tag.exists_toNat_iff, tagOf, permissionOf,
        Bytes.toNat, maxPermission]
    . constructor
      . simp [tally, List.count_cons, List.count_replicate]
      . simp [tally, List.count_replicate]
      . intro hpos
        exact absurd hwraps (Int32.not_le.mpr (by simpa [tally, List.count_replicate] using hpos))
  . intro n hlist
    obtain ⟨_, _, _, hbalanced⟩ := isList_iff.mp hlist
    rw [pieces_eq rfl hsizes, hwords] at hbalanced
    have hmask := hbalanced.masked (.inl (by simp [List.mem_replicate, Nat.ne_of_gt h]))
    simp [List.mem_replicate] at hmask

example : Int32.ofNat (2 ^ 31) ≤ 0 := by decide

end Acceptance

end Acl

end AttrTree
