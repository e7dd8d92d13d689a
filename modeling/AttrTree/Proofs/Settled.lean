import AttrTree.Proofs.Opening
import AttrTree.Proofs.RecordSteps

/-!
This module contains the volumes that are in order: mounted for writing with all classes of
attributes, over a store with a private tree in order. What such a volume remembers is what it would
find, so the way to the attributes of an object is told by the store alone.
-/

namespace AttrTree

namespace Volume

open Action MemStore

variable {volume middle rest : Volume MemStore} {priv root dir : ObjectId} {stat : ObjectStat}
  {key key' : ObjectKey} {name n : String} {flags : SetFlags}
  {values values' : ObjectKey → String → Option Bytes}

structure Settled (volume : Volume MemStore) (priv : ObjectId) : Prop where
  tidy : volume.store.Tidy priv
  privateRoot_eq : volume.privateRoot = some priv
  attributes_eq : volume.options.attributes = true
  user_eq : volume.options.user = true
  acl_eq : volume.options.acl = true
  attrRoot : ∀ ⦃root⦄, volume.attrRoot = some root → volume.store.attrRoot? priv = some root
  cache : ∀ ⦃key dir⦄, volume.cache.peek? key = some dir →
    volume.store.attrDir? priv key = some dir

structure Becomes (volume rest : Volume MemStore) (priv : ObjectId)
    (values : ObjectKey → String → Option Bytes) : Prop where
  settled : rest.Settled priv
  values_eq : ∀ ⦃n⦄, EntryName.isDots n = false → ∀ key,
    rest.store.attrValue? priv key n = values key n
  locks_eq : rest.locks = volume.locks
  keys : volume.store.KeepsKeys rest.store

def withValue (values : ObjectKey → String → Option Bytes) (key : ObjectKey) (name : String)
    (value : Option Bytes) : ObjectKey → String → Option Bytes :=
  fun key' n => if key' = key ∧ n = name then value else values key' n

namespace Becomes

theorem refl (h : volume.Settled priv) :
    volume.Becomes volume priv (volume.store.attrValue? priv) :=
  ⟨h, fun _ _ _ => rfl, rfl, .refl _⟩

theorem trans (h : volume.Becomes middle priv values) (h' : middle.Becomes rest priv values') :
    volume.Becomes rest priv values' :=
  ⟨h'.settled, h'.values_eq, h'.locks_eq.trans h.locks_eq, h.keys.trans h'.keys⟩

theorem congr (h : volume.Becomes rest priv values)
    (hvalues : ∀ ⦃n⦄, EntryName.isDots n = false → ∀ key, values key n = values' key n) :
    volume.Becomes rest priv values' :=
  ⟨h.settled, fun _ hn key => (h.values_eq hn key).trans (hvalues hn key), h.locks_eq, h.keys⟩

theorem trans_same (h : volume.Becomes middle priv values)
    (h' : middle.Becomes rest priv (middle.store.attrValue? priv)) :
    volume.Becomes rest priv values :=
  (h.trans h').congr h.values_eq

theorem trans_withValue (h : volume.Becomes middle priv values) {value : Option Bytes}
    (h' : middle.Becomes rest priv (withValue (middle.store.attrValue? priv) key name value)) :
    volume.Becomes rest priv (withValue values key name value) := by
  refine (h.trans h').congr fun n hn key' => ?_
  simp only [withValue]
  split
  . rfl
  . exact h.values_eq hn key'

end Becomes

namespace Settled

section Finding

variable (h : volume.Settled priv)
include h

theorem attrRoot?_eq : volume.attrRoot? = volume.store.attrRoot? priv := by
  rw [attrRoot?, h.privateRoot_eq, Option.bind_some]
  cases hroot : volume.attrRoot with
  | none => rfl
  | some root => exact (h.attrRoot hroot).symm

theorem directory?_eq (key : ObjectKey) :
    volume.directory? key = volume.store.attrDir? priv key := by
  rw [directory?, h.attrRoot?_eq, DirCache.get?_fst]
  split
  . rfl
  . cases hpeek : volume.cache.peek? key with
    | none => rfl
    | some dir => exact (h.cache hpeek).symm

theorem noted {attrRoot : Option ObjectId} {cache : DirCache}
    (hroot : ∀ ⦃root⦄, attrRoot = some root → volume.store.attrRoot? priv = some root)
    (hcache : ∀ ⦃key dir⦄, cache.peek? key = some dir →
      volume.store.attrDir? priv key = some dir) :
    volume.Becomes { volume with attrRoot, cache } priv (volume.store.attrValue? priv) where
  settled :=
    { tidy := h.tidy
      privateRoot_eq := h.privateRoot_eq
      attributes_eq := h.attributes_eq
      user_eq := h.user_eq
      acl_eq := h.acl_eq
      attrRoot := hroot
      cache := hcache }
  values_eq _ _ _ := rfl
  locks_eq := rfl
  keys := .refl _

theorem looked (key : ObjectKey) :
    volume.Becomes (volume.looked key) priv (volume.store.attrValue? priv) := by
  apply h.noted
  . intro root hroot
    rw [h.attrRoot?_eq, Option.or_eq_some_iff] at hroot
    obtain hroot | ⟨_, hroot⟩ := hroot
    . exact hroot
    . exact h.attrRoot hroot
  . intro key' dir hpeek
    rw [DirCache.peek?_get?] at hpeek
    exact h.cache hpeek

theorem opened (hdir : volume.store.attrDir? priv key = some dir) :
    volume.Becomes (volume.opened key dir) priv (volume.store.attrValue? priv) := by
  have hget {key' : ObjectKey} {dir' : ObjectId}
      (hpeek : (volume.cache.get? key).2.peek? key' = some dir') :
      volume.store.attrDir? priv key' = some dir' := by
    rw [DirCache.peek?_get?] at hpeek
    exact h.cache hpeek
  unfold Volume.opened
  split
  . exact h.noted h.attrRoot fun _ _ => hget
  . refine h.noted (h.looked key).settled.attrRoot fun key' dir' hpeek => ?_
    obtain ⟨rfl, rfl⟩ | hpeek := DirCache.peek?_of_insert hpeek
    . exact hdir
    . exact hget hpeek

end Finding

theorem withStore (h : volume.Settled priv) {store : MemStore} {value : Option Bytes}
    (hchanged : volume.store.ValueChanged store priv key name value) :
    volume.Becomes { volume with store } priv
      (withValue (volume.store.attrValue? priv) key name value) where
  settled :=
    { tidy := hchanged.tidy
      privateRoot_eq := h.privateRoot_eq
      attributes_eq := h.attributes_eq
      user_eq := h.user_eq
      acl_eq := h.acl_eq
      attrRoot := fun _ hroot => hchanged.attrRoot_eq.trans (h.attrRoot hroot)
      cache := fun key _ hpeek => (hchanged.attrDir_eq key).trans (h.cache hpeek) }
  values_eq _ hn key := hchanged.attrValue_eq hn key
  locks_eq := rfl
  keys := hchanged.keys

theorem ofKeepsTree (h : volume.Settled priv) {store : MemStore}
    (hkept : volume.store.KeepsTree store priv) (htidy : store.Tidy priv)
    (hkeys : volume.store.KeepsKeys store) :
    volume.Becomes { volume with store } priv (volume.store.attrValue? priv) := by
  have hsame := h.tidy.sameTree hkept
  refine ⟨⟨htidy, h.privateRoot_eq, h.attributes_eq, h.user_eq, h.acl_eq, ?_, ?_⟩, ?_, rfl, hkeys⟩
  . exact fun _ hroot => hsame.attrRoot_eq.trans (h.attrRoot hroot)
  . exact fun key _ hpeek => (hsame.attrDir_eq key).trans (h.cache hpeek)
  . exact fun _ hn key => hsame.attrValue_eq key hn

section OpenDirectory

theorem not_isBroken (h : volume.Settled priv) (key : ObjectKey) : ¬ volume.IsBroken key := by
  rintro ⟨_, hpriv | ⟨id, hpriv, _, hdir⟩ | ⟨root, hroot, hdir⟩⟩
  . rw [h.privateRoot_eq] at hpriv
    cases hpriv
  . rw [h.privateRoot_eq] at hpriv
    injection hpriv with hpriv
    subst hpriv
    obtain ⟨_, d, _, _, _, hdir'⟩ := h.tidy.privateRoot.directory?
    rw [hdir] at hdir'
    cases hdir'
  . rw [h.attrRoot?_eq] at hroot
    obtain ⟨_, d, _, _, _, hdir'⟩ := (h.tidy.attrRoot hroot).directory?
    rw [hdir] at hdir'
    cases hdir'

theorem openDirectory_absent (h : volume.Settled priv)
    (hnone : volume.store.attrDir? priv stat.key = none) (hflags : flags.allowsCreate = false) :
    ∃ err rest, err.isNoAttribute = true ∧ openDirectory stat flags volume = .error err rest
      ∧ rest.store = volume.store
      ∧ volume.Becomes rest priv (volume.store.attrValue? priv) := by
  cases volume.whereabouts stat.key with
  | found dir hfound =>
    rw [h.directory?_eq, hnone] at hfound
    cases hfound
  | noDirectory root d hcache hroot hdir hfree =>
    exact ⟨_, _, rfl, openDirectory_noDirectory hcache hroot hdir hfree hflags, rfl, h.looked _⟩
  | noAttrRoot id d hcache hpriv hroot hdir hfree =>
    exact ⟨_, _, rfl, openDirectory_noAttrRoot hcache hpriv hroot hdir hfree hflags, rfl,
      h.looked _⟩
  | broken hbroken => exact absurd hbroken (h.not_isBroken _)

theorem made (h : volume.Settled priv) (hroot : volume.store.attrRoot? priv = some root)
    (hnone : volume.store.attrDir? priv key = none) (hvalid : isValidName key.text = true)
    (hid : key.id < volume.store.nextId) :
    let rest := volume.made (volume.store.madeDirectory root key.text) key root volume.store.nextId
    volume.Becomes rest priv (volume.store.attrValue? priv)
      ∧ rest.store.attrDir? priv key = some volume.store.nextId
      ∧ ∀ ⦃n⦄, EntryName.isDots n = false → rest.store.attrRecord? priv key n = none := by
  intro rest
  have hstore : rest.store = volume.store.madeDirectory root key.text := rfl
  have hdir := h.tidy.attrDir?_madeAttrDir hroot hnone hvalid
  have hplace := (h.tidy.directoryMade_attrDir hroot hnone hvalid).place
  have hself : rest.store.attrDir? priv key = some volume.store.nextId := by
    rw [hstore, hdir, if_pos rfl]
  have hkept {key' : ObjectKey} {dir : ObjectId}
      (hfound : volume.store.attrDir? priv key' = some dir) :
      rest.store.attrDir? priv key' = some dir := by
    rw [hstore, hdir, if_neg, hfound]
    rintro rfl
    rw [hnone] at hfound
    cases hfound
  refine ⟨⟨⟨?_, h.privateRoot_eq, h.attributes_eq, h.user_eq, h.acl_eq, ?_, ?_⟩, ?_, rfl, ?_⟩, hself,
    ?_⟩
  . exact h.tidy.madeAttrDir hroot hnone hvalid hid
  . rintro _ ⟨⟩
    exact (Tidy.attrRoot?_of_key hplace priv).trans hroot
  . intro key' dir hpeek
    obtain ⟨rfl, rfl⟩ | hpeek := DirCache.peek?_of_insert hpeek
    . exact hself
    . rw [DirCache.peek?_get?] at hpeek
      exact hkept (h.cache hpeek)
  . exact fun n hn key' => h.tidy.attrValue?_madeAttrDir hroot hnone hvalid hn key'
  . exact .attach volume.store rfl root key.text 1
  . intro n hn
    rw [hstore,
      h.tidy.attrRecord?_madeAttrDir hroot hnone hvalid hn, attrRecord?, hnone]
    rfl

theorem madeRoot (h : volume.Settled priv) (hnone : volume.store.attrRoot? priv = none) :
    let rest : Volume MemStore := { volume with
      store := volume.store.madeDirectory priv attrRootName
      attrRoot := some volume.store.nextId }
    volume.Becomes rest priv (volume.store.attrValue? priv)
      ∧ rest.store.attrRoot? priv = some volume.store.nextId
      ∧ ∀ key, rest.store.attrDir? priv key = none := by
  intro rest
  obtain ⟨htidy, hroot, hdir⟩ := h.tidy.madeAttrRoot hnone
  have hbefore (key : ObjectKey) : volume.store.attrDir? priv key = none := by
    rw [attrDir?, hnone]
    rfl
  refine ⟨⟨⟨htidy, h.privateRoot_eq, h.attributes_eq, h.user_eq, h.acl_eq, ?_, ?_⟩, ?_, rfl, ?_⟩,
    hroot, hdir⟩
  . rintro _ ⟨⟩
    exact hroot
  . intro key dir hpeek
    have hfound := h.cache hpeek
    rw [hbefore] at hfound
    cases hfound
  . intro n _ key
    rw [attrValue?, attrRecord?, hdir, attrValue?, attrRecord?, hbefore]
    rfl
  . exact .attach volume.store rfl priv attrRootName 1

theorem openDirectory_made (h : volume.Settled priv)
    (hnone : volume.store.attrDir? priv stat.key = none) (hflags : flags.allowsCreate = true)
    (hid : stat.id < volume.store.nextId) (hbound : volume.store.nextId ≤ 2 ^ 64) :
    ∃ dir rest, openDirectory stat flags volume = .ok dir rest
      ∧ volume.Becomes rest priv (volume.store.attrValue? priv)
      ∧ rest.store.attrDir? priv stat.key = some dir
      ∧ ∀ ⦃n⦄, EntryName.isDots n = false → rest.store.attrRecord? priv stat.key n = none := by
  have hvalid : isValidName stat.key.text = true :=
    ObjectKey.isValidName_text (Nat.lt_of_lt_of_le hid hbound)
  cases volume.whereabouts stat.key with
  | found dir hfound =>
    rw [h.directory?_eq, hnone] at hfound
    cases hfound
  | noDirectory root d hcache hroot hdir hfree =>
    obtain ⟨hbecomes, hfound, hempty⟩ :=
      h.made (h.attrRoot?_eq ▸ hroot) hnone hvalid hid
    exact ⟨_, _, Volume.openDirectory_made hcache hroot hdir hfree hvalid hflags, hbecomes, hfound,
      hempty⟩
  | noAttrRoot id d hcache hpriv hroot hdir hfree =>
    obtain rfl : priv = id := by
      rw [h.privateRoot_eq] at hpriv
      injection hpriv
    have hnone' : volume.store.attrRoot? priv = none := by
      rw [MemStore.attrRoot?, child?_of_directory? hdir, hfree]
      rfl
    obtain ⟨hmiddle, hroot', hdir'⟩ := h.madeRoot hnone'
    obtain ⟨hbecomes, hfound, hempty⟩ :=
      hmiddle.settled.made hroot' (hdir' stat.key) hvalid (Nat.lt_succ_of_lt hid)
    exact ⟨_, _, openDirectory_made_root h.tidy.linked hcache hpriv hroot hdir hfree hvalid hflags,
      hmiddle.trans_same hbecomes, hfound, hempty⟩
  | broken hbroken => exact absurd hbroken (h.not_isBroken _)

end OpenDirectory

end Settled

end Volume

end AttrTree
