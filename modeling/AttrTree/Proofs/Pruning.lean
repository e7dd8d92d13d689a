import AttrTree.Attribute.Bulk
import AttrTree.Proofs.Scanning
import AttrTree.Proofs.Values

/-!
This module contains the removal of an attribute directory that has become empty. It goes if and only
if no entry is left, and no value goes with it.
-/

namespace AttrTree

namespace Directory

variable {d : Directory} {id parent : ObjectId}

theorem upTo_lastOffset (hwf : d.WellFormed id parent) (hbound : d.nextOffset ≤ 2 ^ 63) :
    d.upTo lastOffset = d.ordinary := by
  -- A scan of a directory with few enough entries begins behind the last one.
  apply List.filter_eq_self.mpr
  intro e he
  have hlt := Nat.lt_of_lt_of_le (hwf.offset_lt e he) hbound
  apply decide_eq_true
  exact Nat.le_pred_of_lt hlt

end Directory

namespace Volume

open Action MemStore

variable {volume rest : Volume MemStore} {priv root dir obj : ObjectId} {stat : ObjectStat}
  {name : String} {d rootDirectory : Directory} {e : DirEntry}
  {object owner target : MemObject}

theorem hasEntries_eq {store : MemStore} {parent : ObjectId}
    (hdir : store.directory? dir = some d) (hwf : d.WellFormed dir parent)
    (hbound : d.nextOffset ≤ 2 ^ 63) : hasEntries dir store = .ok (!d.isEmpty) store := by
  have hupTo := Directory.upTo_lastOffset hwf hbound
  rw [hasEntries, bind_apply, Scan.locateEntry_eq hdir]
  rcases List.eq_nil_or_concat d.ordinary with hnil | ⟨front, e, heq⟩
  . have hlocate := Directory.locate?_of_upTo_nil (hupTo.trans hnil)
    have hempty : d.isEmpty = true := by
      simp [Directory.isEmpty, hnil]
    rw [hempty]
    cases hslot : d.locate? Directory.lastOffset with
    | none => rfl
    | some slot =>
      have := hlocate slot hslot
      simp [Nat.not_lt.mpr this]
  . rw [List.concat_eq_append] at heq
    have hmem : e ∈ d.ordinary := by
      rw [heq]
      simp
    have hlt : Directory.parentOffset < e.offset := Directory.first_le_of_mem_ordinary hmem
    have hempty : d.isEmpty = false := by
      simp [Directory.isEmpty, heq]
    rw [Directory.locate?_of_upTo hwf (hupTo.trans heq), hempty]
    simp [Directory.slot, hlt]

theorem rmdir_empty {store : MemStore} (hleaf : store.IsLeaf root owner d e target)
    (hlinked : store.Linked) (hname : e.name = name) (hkind : target.body.isDirectory = true)
    (hfault : store.rmdirFault = false) :
    ObjectStore.rmdir root name store = .ok () (store.detach root e target) := by
  obtain ⟨_, hwf⟩ := hleaf.wellFormed hlinked
  have hfind : d.find? name = some e :=
    hname ▸ hwf.find?_name (Directory.mem_entries_of_mem_ordinary hleaf.mem)
  have hok : store.rmdir root name = .ok (store.detach root e target) := by
    cases hbody : target.body with
    | file content => simp [hbody, Body.isDirectory] at hkind
    | directory d' =>
      have hempty := hleaf.empty
      rw [hbody] at hempty
      exact rmdir_eq_ok_iff.mpr ⟨owner, d, e, target, d', hleaf.owner_eq, hleaf.body_eq, hfind,
        hleaf.target_eq, hbody, hempty, rfl⟩
  simp [ObjectStore.rmdir, rmdirFaulty, hfault, update, hok]

section Prune

theorem isLeaf_of_child? (hlinked : volume.store.Linked)
    (hchild : volume.store.child? root stat.key.text = some dir)
    (hdir : volume.store.directory? dir = some d) (hempty : d.isEmpty = true) :
    ∃ owner rootDirectory e target, rootDirectory.find? stat.key.text = some e ∧ e.target = dir
      ∧ e.name = stat.key.text ∧ target.body.isDirectory = true
      ∧ volume.store.IsLeaf root owner rootDirectory e target := by
  obtain ⟨rootDirectory, e, hroot, hfind, rfl⟩ := child?_eq_some_iff.mp hchild
  obtain ⟨parent, hwf, _⟩ := hlinked.placed hroot
  obtain ⟨hmem, hname⟩ := hwf.mem_ordinary_of_find? stat.key.isDots_text hfind
  obtain ⟨owner, howner, hownerBody⟩ := directory?_eq_some_iff.mp hroot
  obtain ⟨target, htarget, hbody⟩ := directory?_eq_some_iff.mp hdir
  refine ⟨owner, rootDirectory, e, target, hfind, rfl, hname, ?_, howner, hownerBody, hmem, htarget, ?_⟩
  . rw [hbody]
    rfl
  . rw [hbody, Body.ordinary]
    simpa [Directory.isEmpty] using hempty

variable {parent : ObjectId} (hdir : volume.store.directory? dir = some d)
  (hwf : d.WellFormed dir parent) (hbound : d.nextOffset ≤ 2 ^ 63)
include hdir hwf hbound

theorem prune_of_entries (hentries : d.isEmpty = false) : prune stat dir volume = .ok () volume := by
  simp [prune, onStore, focus, hasEntries_eq hdir hwf hbound, hentries]

variable (hempty : d.isEmpty = true) (hroot : volume.attrRoot? = some root)
include hempty hroot

theorem prune_of_fault (hfault : volume.store.rmdirFault = true) :
    prune stat dir volume = .error injectedRmdirFault { volume with
      store := { volume.store with rmdirFault := false }
      attrRoot := some root
      cache := volume.cache.erase stat.key } := by
  -- What is known of the directory is forgotten even if it stays.
  simp [prune, onStore, focus, hasEntries_eq hdir hwf hbound, hempty, openAttrRoot_eq volume hroot,
    ObjectStore.rmdir, rmdirFaulty, hfault]

theorem prune_of_empty (hlinked : volume.store.Linked)
    (hleaf : volume.store.IsLeaf root owner rootDirectory e target)
    (hname : e.name = stat.key.text) (hkind : target.body.isDirectory = true)
    (hfault : volume.store.rmdirFault = false) :
    prune stat dir volume = .ok () { volume with
      store := volume.store.detach root e target
      attrRoot := some root
      cache := volume.cache.erase stat.key } := by
  simp [prune, onStore, focus, hasEntries_eq hdir hwf hbound, hempty, openAttrRoot_eq volume hroot,
    rmdir_empty hleaf hlinked hname hkind hfault]

end Prune

namespace Settled

theorem pruned (h : volume.Settled priv) (hroot : volume.store.attrRoot? priv = some root)
    (hleaf : volume.store.IsLeaf root owner d e target) (hname : e.name = stat.key.text) :
    volume.Becomes { volume with
        store := volume.store.detach root e target
        attrRoot := some root
        cache := volume.cache.erase stat.key } priv (volume.store.attrValue? priv) where
  settled :=
    { tidy := h.tidy.pruned hroot hleaf hname
      privateRoot_eq := h.privateRoot_eq
      attributes_eq := h.attributes_eq
      user_eq := h.user_eq
      acl_eq := h.acl_eq
      attrRoot := by
        rintro _ ⟨⟩
        exact (Tidy.attrRoot?_of_key (h.tidy.placeChanged_pruned hleaf hname) priv).trans hroot
      cache := by
        intro key dir hpeek
        rw [DirCache.peek?_erase] at hpeek
        split at hpeek
        . cases hpeek
        . next hkey =>
          rw [h.tidy.attrDir?_pruned hroot hleaf hname, if_neg hkey]
          exact h.cache hpeek }
  values_eq _ hn key := h.tidy.attrValue?_pruned hroot hleaf hname hn key
  locks_eq := rfl
  keys := .detach volume.store root e target

theorem prune (h : volume.Settled priv) (hdir : volume.store.attrDir? priv stat.key = some dir)
    (hbound : volume.store.nextId ≤ 2 ^ 63) :
    ∃ rest, prune stat dir volume = .ok () rest
      ∧ volume.Becomes rest priv (volume.store.attrValue? priv) := by
  obtain ⟨_, d, parent, _, _, _, hdirectory, hwf, hnext, _⟩ := h.tidy.attrDir_entry hdir
  have hfew := Nat.le_trans hnext hbound
  cases hempty : d.isEmpty with
  | true =>
    obtain ⟨root, hroot, hchild⟩ := attrDir?_eq_some_iff.mp hdir
    obtain ⟨owner, rootDirectory, e, target, _, _, hname, hkind, hleaf⟩ :=
      isLeaf_of_child? h.tidy.linked hchild hdirectory hempty
    exact ⟨_, prune_of_empty hdirectory hwf hfew hempty (h.attrRoot?_eq.trans hroot) h.tidy.linked
      hleaf hname hkind h.tidy.rmdirFault_eq, h.pruned hroot hleaf hname⟩
  | false => exact ⟨volume, prune_of_entries hdirectory hwf hfew hempty, .refl h⟩

end Settled

end Volume

end AttrTree
