import AttrTree.Proofs.Coherence
import AttrTree.Proofs.Tree

/-!
This module contains what of a store belongs to its users, and the changes that spare it. An attribute
directory can hold links to the files of users, so a file is told to be theirs by its other entries and by
its mark.
-/

namespace AttrTree

namespace MemStore

variable {first store : MemStore} {id parent record : ObjectId} {name : String} {d : Directory}
  {e : DirEntry} {object owner target : MemObject}

def InPrivateTree (store : MemStore) (id : ObjectId) : Prop :=
  ∃ priv, store.child? rootId Volume.privateRootName = some priv ∧ store.ReachedFrom priv id

def IsExposed (store : MemStore) (id : ObjectId) : Prop :=
  ∃ dir d, store.directory? dir = some d ∧ ¬ store.InPrivateTree dir ∧ ∃ e ∈ d.ordinary, e.target = id

/-- What belongs to users is as it was, but for the `nlink` of a private file that `IsExposed`. -/
structure SparesUserData (first store : MemStore) : Prop where
  /-- A directory outside the private tree has the same entries. -/
  directory : ∀ ⦃id d⦄, first.directory? id = some d → ¬ first.InPrivateTree id →
    store.object? id = first.object? id
  /-- An entry of a file that is not private stays wherever it is. -/
  entry : ∀ ⦃dir d e object⦄, first.directory? dir = some d → e ∈ d.ordinary →
    first.object? e.target = some object → object.body.isDirectory = false →
    object.isPrivate = false → ∃ d', store.directory? dir = some d' ∧ e ∈ d'.ordinary
  file : ∀ ⦃id object⦄, first.object? id = some object → object.body.isDirectory = false →
    object.isPrivate = false → ∃ object', store.object? id = some object'
      ∧ object'.body.isDirectory = false ∧ object'.isPrivate = false ∧ object'.nlink = object.nlink
  /-- Content, size, owner, mode and time of a file that is exposed stay. -/
  exposed : ∀ ⦃id object⦄, first.object? id = some object → object.body.isDirectory = false →
    first.IsExposed id → ∃ nlink, store.object? id = some { object with nlink }

theorem SparesUserData.refl (store : MemStore) : store.SparesUserData store where
  directory _ _ _ _ := rfl
  entry _ d _ _ hdir he _ _ _ := ⟨d, hdir, he⟩
  file _ object hobject hkind hprivate := ⟨object, hobject, hkind, hprivate, rfl⟩
  exposed _ object hobject _ _ := ⟨object.nlink, hobject⟩

section Inner

def Inner (first : MemStore) (id : ObjectId) : Prop :=
  ∀ d, first.directory? id = some d → first.InPrivateTree id

structure Secluded (first : MemStore) (id : ObjectId) : Prop where
  inner : first.Inner id
  not_exposed : ¬ first.IsExposed id

structure Spares (first store : MemStore) : Prop extends first.SparesUserData store where
  linked : store.Linked
  nextId_le : first.nextId ≤ store.nextId

theorem Spares.refl (hlinked : store.Linked) : store.Spares store :=
  ⟨.refl store, hlinked, Nat.le_refl _⟩

theorem Spares.of_objects_eq (h : first.Spares store) {store' : MemStore}
    (hobjects : store'.objects = store.objects) (hnext : store'.nextId = store.nextId) :
    first.Spares store' := by
  have hobject := object?_congr hobjects
  have hdirectory (x : ObjectId) : store'.directory? x = store.directory? x := by
    simp [directory?, hobject]
  constructor
  . constructor
    . simpa only [hobject] using h.directory
    . simpa only [hdirectory] using h.entry
    . simpa only [hobject] using h.file
    . simpa only [hobject] using h.exposed
  . exact h.linked.of_sameLinks (.of_objects_eq hobjects hnext)
  . exact hnext ▸ h.nextId_le

variable (hfirst : first.Linked)
include hfirst

theorem Inner.child (h : first.Spares store) (hparent : first.Inner parent)
    (hname : EntryName.isDots name = false) (hchild : store.child? parent name = some id) :
    first.Inner id := by
  -- A directory of users still has its only entry where it was, so no other directory leads to it.
  intro d hdir
  by_contra hout
  have hdir' : store.directory? id = some d := by
    rw [directory?, h.directory hdir hout]
    exact hdir
  obtain ⟨d', e, hparentDir, he, _, rfl⟩ := (h.linked.child?_eq_some_iff hname).mp hchild
  obtain ⟨above, _, hplace⟩ := hfirst.placed hdir
  rw [IsPlaced, if_neg] at hplace
  . obtain ⟨_, _, aboveDir, habove, e', he', htarget⟩ := hplace
    have haboveOut : ¬ first.InPrivateTree above := by
      rintro ⟨priv, hpriv, hreached⟩
      exact hout ⟨priv, hpriv, htarget ▸ .entry hreached habove he'⟩
    have habove' : store.directory? above = some aboveDir := by
      rw [directory?, h.directory habove haboveOut]
      exact habove
    obtain ⟨hsame, _⟩ := h.linked.eq_of_target (h.linked.linkCount_le_of_directory? hdir') hparentDir
      he rfl habove' he' htarget
    rw [hsame] at habove haboveOut
    exact haboveOut (hparent _ habove)
  . intro hroot
    rw [hroot] at hdir' hchild
    exact h.linked.child?_ne_root hdir' hname hchild

omit hfirst in
theorem one_lt_nlink_of_exposed (h : first.Spares store) (hparent : first.Inner parent)
    (hdir : store.directory? parent = some d) (he : e ∈ d.ordinary)
    (htarget : store.object? e.target = some target) (hkind : target.body.isDirectory = false)
    (hexposed : first.IsExposed e.target) : 1 < target.nlink := by
  -- An exposed file has an entry that none of an inner directory is.
  obtain ⟨dir, d', hdir', hout, e', he', htarget'⟩ := hexposed
  have hkept : store.directory? dir = some d' := by
    rw [directory?, h.directory hdir' hout]
    exact hdir'
  by_contra hsingle
  have hcount := h.linked.linkCount_le_of_nlink htarget hkind (Nat.le_of_not_lt hsingle)
  obtain ⟨hsame, _⟩ := h.linked.eq_of_target hcount hdir he rfl hkept he' htarget'
  rw [hsame] at hdir' hout
  exact hout (hparent _ hdir')

theorem secluded_of_single (h : first.Spares store) (hparent : first.Inner parent)
    (hname : EntryName.isDots name = false) (hchild : store.child? parent name = some record)
    (hobject : store.object? record = some object) (hnlink : object.nlink ≤ 1) :
    first.Secluded record := by
  refine ⟨.child hfirst h hparent hname hchild, fun hexposed => ?_⟩
  obtain ⟨d, e, hdir, he, _, rfl⟩ := (h.linked.child?_eq_some_iff hname).mp hchild
  have hkind : object.body.isDirectory = false := by
    cases hbody : object.body with
    | file content => rfl
    | directory d =>
      have := h.linked.directory_nlink hobject hbody
      omega
  have := one_lt_nlink_of_exposed h hparent hdir he hobject hkind hexposed
  omega

end Inner

section Changes

variable (hfirst : first.Linked) (h : first.Spares store)
include h

theorem Spares.mapObject (hrecord : first.Secluded record) {f : MemObject → MemObject}
    (hlinked : (store.mapObject record f).Linked) (hid : ∀ object, (f object).id = object.id)
    (hprivate : ∀ object, (f object).isPrivate = object.isPrivate)
    (hnlink : ∀ object, (f object).nlink = object.nlink)
    (hdirectory : ∀ object, (f object).body.directory? = object.body.directory?) :
    first.Spares (store.mapObject record f) := by
  have hobject := object?_mapObject store record hid
  constructor
  . constructor
    . intro x d hdir hout
      have hne : x ≠ record := by
        rintro rfl
        exact hout (hrecord.inner d hdir)
      rw [hobject, if_neg hne]
      exact h.directory hdir hout
    . intro dir d e object hdir he htarget hkind hpriv
      rw [directory?_mapObject hid hdirectory]
      exact h.entry hdir he htarget hkind hpriv
    . intro x object hx hkind hpriv
      obtain ⟨object', hx', hkind', hpriv', hnlink'⟩ := h.file hx hkind hpriv
      rw [hobject, hx']
      split
      . refine ⟨f object', rfl, ?_, (hprivate _).trans hpriv', (hnlink _).trans hnlink'⟩
        rw [Body.isDirectory_eq_isSome, hdirectory, ← Body.isDirectory_eq_isSome]
        exact hkind'
      . exact ⟨object', rfl, hkind', hpriv', hnlink'⟩
    . intro x object hx hkind hexposed
      have hne : x ≠ record := by
        rintro rfl
        exact hrecord.not_exposed hexposed
      rw [hobject, if_neg hne]
      exact h.exposed hx hkind hexposed
  . exact hlinked
  . exact h.nextId_le

include hfirst

theorem Spares.attach {made : ObjectId → UInt32 → MemObject} {extra : Nat}
    (hnew : store.IsNew parent extra (made store.nextId store.nextGeneration))
    (howner : store.object? parent = some owner) (hbody : owner.body = .directory d)
    (hvalid : isValidName name = true) (hfree : d.contains name = false)
    (hparent : first.Inner parent) : first.Spares (store.attach made parent name extra) := by
  have hobject := object?_attach h.linked hnew.id_eq howner name extra
  have hold {x : ObjectId} {object : MemObject} (hx : first.object? x = some object) :
      x ≠ store.nextId :=
    Nat.ne_of_lt (Nat.lt_of_lt_of_le (hfirst.id_lt hx) h.nextId_le)
  have hfile {x : ObjectId} {object : MemObject} (hx : store.object? x = some object)
      (hkind : object.body.isDirectory = false) : x ≠ parent :=
    ne_of_kinds hx hkind howner hbody
  constructor
  . constructor
    . intro x d' hdir hout
      obtain ⟨object, hx, _⟩ := directory?_eq_some_iff.mp hdir
      have hne : x ≠ parent := by
        rintro rfl
        exact hout (hparent d' hdir)
      rw [hobject, if_neg (hold hx), if_neg hne]
      exact h.directory hdir hout
    . intro dir d' e object hdir he htarget hkind hpriv
      obtain ⟨d'', hdir'', he''⟩ := h.entry hdir he htarget hkind hpriv
      exact exists_entry_attach h.linked hnew.id_eq howner hbody name extra hdir'' he''
    . intro x object hx hkind hpriv
      obtain ⟨object', hx', hkind', hrest⟩ := h.file hx hkind hpriv
      refine ⟨object', ?_, hkind', hrest⟩
      rw [hobject, if_neg (hold hx), if_neg (hfile hx' hkind')]
      exact hx'
    . intro x object hx hkind hexposed
      obtain ⟨nlink, hx'⟩ := h.exposed hx hkind hexposed
      refine ⟨nlink, ?_⟩
      rw [hobject, if_neg (hold hx), if_neg (hfile hx' hkind)]
      exact hx'
  . exact h.linked.attach hnew howner hbody hvalid hfree
  . exact Nat.le_succ_of_le h.nextId_le

theorem Spares.detach (hleaf : store.IsLeaf parent owner d e target) (hparent : first.Inner parent)
    (htarget : target.isPrivate = true ∨ target.body.isDirectory = true) :
    first.Spares (store.detach parent e target) := by
  have hobject := hleaf.object?_detach
  obtain ⟨_, hwf⟩ := hleaf.wellFormed h.linked
  have hchild : store.child? parent e.name = some e.target :=
    (h.linked.child?_eq_some_iff (hwf.isDots_of_mem hleaf.mem)).mpr
      ⟨d, e, hleaf.directory?, hleaf.mem, rfl, rfl⟩
  have hinner := Inner.child hfirst h hparent (hwf.isDots_of_mem hleaf.mem) hchild
  have hfile {x : ObjectId} {object : MemObject} (hx : store.object? x = some object)
      (hkind : object.body.isDirectory = false) : x ≠ parent :=
    ne_of_kinds hx hkind hleaf.owner_eq hleaf.body_eq
  have hother {x : ObjectId} {object : MemObject} (hx : store.object? x = some object)
      (hkind : object.body.isDirectory = false) (hpriv : object.isPrivate = false) :
      x ≠ e.target := by
    rintro rfl
    rw [hleaf.target_eq] at hx
    injection hx with hx
    rw [hx, hkind, hpriv] at htarget
    simp at htarget
  constructor
  . constructor
    . intro x d' hdir hout
      have hne : x ≠ e.target := by
        rintro rfl
        exact hout (hinner d' hdir)
      have hne' : x ≠ parent := by
        rintro rfl
        exact hout (hparent d' hdir)
      rw [hobject, if_neg hne, if_neg hne']
      exact h.directory hdir hout
    . intro dir d' e' object hdir he' hlive hkind hpriv
      obtain ⟨d'', hdir'', he''⟩ := h.entry hdir he' hlive hkind hpriv
      obtain ⟨object', hlive', hkind', hpriv', _⟩ := h.file hlive hkind hpriv
      exact hleaf.exists_entry_detach h.linked hdir'' he'' (hother hlive' hkind' hpriv')
    . intro x object hx hkind hpriv
      obtain ⟨object', hx', hkind', hpriv', hnlink⟩ := h.file hx hkind hpriv
      refine ⟨object', ?_, hkind', hpriv', hnlink⟩
      rw [hobject, if_neg (hother hx' hkind' hpriv'), if_neg (hfile hx' hkind')]
      exact hx'
    . intro x object hx hkind hexposed
      obtain ⟨nlink, hx'⟩ := h.exposed hx hkind hexposed
      rw [hobject]
      split
      . next heq =>
        rw [heq, hleaf.target_eq] at hx'
        injection hx' with hx'
        have hkind' : target.body.isDirectory = false := by
          rw [hx']
          exact hkind
        have hshared := one_lt_nlink_of_exposed h hparent hleaf.directory? hleaf.mem
          hleaf.target_eq hkind' (heq ▸ hexposed)
        refine ⟨nlink - 1, ?_⟩
        rw [unlinked?_of_shared hkind' hshared, hx']
        rfl
      . rw [if_neg (hfile hx' hkind)]
        exact ⟨nlink, hx'⟩
  . exact h.linked.detach hleaf
  . rw [IsLeaf.nextId_detach]
    exact h.nextId_le

end Changes

end MemStore

end AttrTree
