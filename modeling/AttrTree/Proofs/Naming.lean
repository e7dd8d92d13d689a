import AttrTree.Proofs.Reliable

/-!
This module contains why the attributes of different objects are kept apart. The directory of an object
is named by its key, a key can be read back from its text, and a directory has only one place; so
whatever is done to a store, the directories that two keys lead to are two.
-/

namespace AttrTree

open Action

namespace MemStore

variable {store : MemStore} {root root' dir : ObjectId} {key key' : ObjectKey} {d : Directory}

theorem Homed.key_unique (hlinked : store.Linked) (h : store.Homed root key dir)
    (h' : store.Homed root' key' dir) (hdir : store.directory? dir = some d) : key = key' :=
  ObjectKey.text_injective (hlinked.place_unique (hlinked.linkCount_le_of_directory? hdir)
    key'.isDots_text key.isDots_text (h'.2 d hdir) (h.2 d hdir)).2

end MemStore

namespace Volume

open MemStore

variable {volume rest : Volume MemStore} {key : ObjectKey} {stat : ObjectStat} {flags : SetFlags}
  {root dir : ObjectId}

theorem keeps_openDirectory_homed (root : ObjectId) (key : ObjectKey) (dir : ObjectId)
    (stat : ObjectStat) (flags : SetFlags) :
    Keeps (fun volume : Volume MemStore => volume.store.Linked ∧ volume.store.Homed root key dir)
      (openDirectory stat flags) :=
  keeps_openDirectory (keptInPlace_homed root key dir).calls.toKeptByMaking stat flags

theorem Reliable.key_eq (h : volume.Reliable) (hhomed : volume.store.Homed root key dir) (ops : List Op)
    (hopen : openDirectory stat flags (run ops volume) = .ok dir rest)
    (hdir : (rest.store.directory? dir).isSome = true) : stat.key = key := by
  -- The directory of another object may be opened at any time later.
  obtain ⟨d, hdir⟩ := Option.isSome_iff_exists.mp hdir
  have hplace := keptInPlace_homed root key dir
  have hkept := keeps_run hplace.gains hplace.losses hplace.erasure ops h.linked hhomed
  have hrest := (keeps_openDirectory_homed root key dir stat flags).holds _ hkept
  rw [after_of_ok hopen] at hrest
  obtain ⟨root', hhomed'⟩ := (reliable_run ops h).homed_of_openDirectory hopen
  exact hhomed'.key_unique hrest.1 hrest.2 hdir

theorem keys_keep_objects_apart :
    (∀ key key' : ObjectKey, key.text = key'.text → key = key')
      ∧ (∀ key : ObjectKey, key.IsWritten key.text
        ∧ (key.id < 2 ^ 64 → MemStore.isValidName key.text = true))
      ∧ ∀ (pageSize : Nat) (format : ObjectFormat) (hsize : Record.headerSize < pageSize)
        (options : MountOptions) (cacheCapacity : Nat) (ops ops' : List Op) (stat stat' : ObjectStat)
        (flags flags' : SetFlags) (dir dir' : ObjectId) (rest rest' : Volume MemStore),
        openDirectory stat flags (run ops (initial pageSize format hsize options cacheCapacity)) =
            .ok dir rest →
          openDirectory stat' flags' (run ops' rest) = .ok dir' rest' →
          (rest'.store.directory? dir').isSome = true → stat.key ≠ stat'.key → dir ≠ dir' := by
  refine ⟨fun _ _ => ObjectKey.text_injective,
    fun key => ⟨key.isWritten_text, ObjectKey.isValidName_text⟩, ?_⟩
  intro pageSize format hsize options cacheCapacity ops ops' stat stat' flags flags' dir dir' rest rest'
    hopen hopen' hdir hne heq
  have hreliable := reliable_run ops (reliable_initial pageSize format hsize options cacheCapacity)
  have hrest := (keeps_openDirectory_reliable stat flags).holds _ hreliable
  rw [after_of_ok hopen] at hrest
  obtain ⟨root, hhomed⟩ := hreliable.homed_of_openDirectory hopen
  subst heq
  exact hne (hrest.key_eq hhomed ops' hopen' hdir).symm

def twoOwners : List Op :=
  [.store (.create 1 "a" 0o644), .store (.create 1 "b" 0o644), .mount ⟨false⟩,
    .setAttribute .standard 2 "trusted.a" [1] .none]

def secondOwner : List Op :=
  [.renew .optional 1, .mount ⟨false⟩, .setAttribute .standard 3 "trusted.a" [2] .none]

theorem keys_keep_objects_apart_twoOwners :
    let volume := run twoOwners (initial 16 .current (by decide) .optional 64)
    let a : ObjectStat := ⟨2, 1, .current, 0o100644, 1, 0, 0, 0, 0, false⟩
    let b : ObjectStat := ⟨3, 2, .current, 0o100644, 1, 0, 0, 0, 0, false⟩
    volume.store.stat 2 = .ok a ∧ volume.store.stat 3 = .ok b ∧ a.key ≠ b.key
      ∧ ∃ dir rest dir' rest', openDirectory a .looking volume = .ok dir rest
        ∧ openDirectory b .looking (run secondOwner rest) = .ok dir' rest'
        ∧ (rest'.store.directory? dir').isSome = true ∧ dir ≠ dir' := by
  intro volume a b
  let later := run secondOwner ((openDirectory a .looking).after volume)
  have hne : a.key ≠ b.key := by decide
  obtain ⟨dir, hopen⟩ : ∃ dir, openDirectory a .looking volume =
      .ok dir ((openDirectory a .looking).after volume) := eq_ok_of_succeeds (by decide +kernel)
  have hcache : (later.cache.get? b.key).1 = some 8 := by decide +kernel
  have hopen' := openDirectory_cached hcache .looking
  have hdir : (later.store.directory? 8).isSome = true := by decide +kernel
  exact ⟨by decide +kernel, by decide +kernel, hne, dir, _, 8, _, hopen, hopen', hdir,
    keys_keep_objects_apart.2.2 16 .current (by decide) .optional 64 twoOwners secondOwner a b .looking
      .looking dir 8 _ _ hopen hopen' hdir hne⟩

end Volume

end AttrTree
