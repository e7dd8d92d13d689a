import AttrTree.Proofs.Access
import AttrTree.Proofs.Mounting

/-!
This module contains the attributes as a map from objects and names to values. Whatever is done with a
volume on a new store, and with the store outside of the private tree, the volume answers like the map.
-/

namespace AttrTree

open Action MemStore

abbrev AttrMap := ObjectId → String → Option Bytes

namespace AttrMap

def empty : AttrMap :=
  fun _ _ => none

def set (values : AttrMap) (obj : ObjectId) (name : String) (value : Option Bytes) : AttrMap :=
  fun x n => if x = obj ∧ n = name then value else values x n

def clear (values : AttrMap) (obj : ObjectId) : AttrMap :=
  fun x n => if x = obj then none else values x n

end AttrMap

def MemStore.TakesAttributes (store : MemStore) (obj : ObjectId) : Prop :=
  ∃ object, store.object? obj = some object ∧ object.isPrivate = false ∧ object.format ≠ .legacy

instance (store : MemStore) (obj : ObjectId) : Decidable (store.TakesAttributes obj) :=
  decidable_of_iff
    ((store.object? obj).any fun object => !object.isPrivate && object.format != .legacy) <| by
      simp [MemStore.TakesAttributes, Option.any_eq_true]

namespace Volume

variable {volume rest : Volume MemStore} {values values' : AttrMap} {priv obj : ObjectId}
  {object : MemObject} {name n : String} {op : Op} {err : Error}
  {stored : ObjectKey → String → Option Bytes}

/-- Calls on attributes by way of `Registry.standard`, and operations of the store outside the private tree. -/
def Op.Allowed (volume : Volume MemStore) : Op → Prop
  | getAttribute registry obj _ _ => registry = .standard ∧ volume.store.TakesAttributes obj
  | listAttributes registry obj _ => registry = .standard ∧ volume.store.TakesAttributes obj
  | setAttribute registry obj _ _ flags =>
    registry = .standard ∧ volume.store.TakesAttributes obj ∧ flags.other = false
  | removeAttribute registry obj _ => registry = .standard ∧ volume.store.TakesAttributes obj
  | deleteAttributes obj => volume.store.TakesAttributes obj
  | chownAttributes obj _ => volume.store.TakesAttributes obj
  | store op => ∀ priv, volume.store.child? rootId privateRootName = some priv →
    op.Spares volume.store priv
  | _ => False

def Op.effect (values : AttrMap) : Op → AttrMap
  | setAttribute _ obj name value _ => values.set obj name (keptValue name value)
  | removeAttribute _ obj name => values.set obj name none
  | deleteAttributes obj => values.clear obj
  | _ => values

inductive Reaches : Volume MemStore → AttrMap → Prop
  | mounted (pageSize : Nat) (h : Record.headerSize < pageSize) (cacheCapacity : Nat) :
    Reaches (run [.mount ⟨false⟩] (initial pageSize .current h .optional cacheCapacity)) .empty
  | done {volume rest : Volume MemStore} {values : AttrMap} {op : Op} (h : Reaches volume values)
    (hop : op.Allowed volume) (hdone : op.perform volume = .ok () rest) :
    Reaches rest (op.effect values)
  | failed {volume rest : Volume MemStore} {values : AttrMap} {op : Op} {err : Error}
    (h : Reaches volume values) (hop : op.Allowed volume)
    (hfailed : op.perform volume = .error err rest) : Reaches rest values
  | renewed {volume : Volume MemStore} {values : AttrMap} (h : Reaches volume values)
    (cacheCapacity : Nat) :
    Reaches (run [.renew .optional cacheCapacity, .mount ⟨false⟩] volume) values

structure Reflects (volume : Volume MemStore) (values : AttrMap) (priv : ObjectId) : Prop where
  settled : volume.Settled priv
  locks_eq : volume.locks = .empty
  format_eq : volume.store.format = .current
  values_eq : ∀ ⦃obj object⦄, volume.store.object? obj = some object →
    ∀ ⦃n⦄, EntryName.isDots n = false →
      volume.store.attrValue? priv object.stat.key n = values obj n
  fresh : ∀ ⦃obj⦄, volume.store.nextId ≤ obj → ∀ n, values obj n = none
  onlyNames : volume.OnlyAttrNames priv
  names : ∀ ⦃obj n⦄, values obj n ≠ none → isAttrName n = true

theorem Settled.attrValue?_fresh (h : volume.Settled priv) {key : ObjectKey}
    (hid : volume.store.nextId ≤ key.id) (n : String) :
    volume.store.attrValue? priv key n = none := by
  -- Numbers that have not been given out have no attributes.
  have hnone : volume.store.attrDir? priv key = none := by
    cases hdir : volume.store.attrDir? priv key with
    | none => rfl
    | some dir => exact absurd (h.tidy.attrDir hdir).1 (Nat.not_lt.mpr hid)
  rw [attrValue?, attrRecord?, hnone]
  rfl

theorem stat_key_id (h : volume.store.object? obj = some object) : object.stat.key.id = obj :=
  id_of_object? h

theorem key_eq_iff {x : ObjectId} {object' : MemObject}
    (hobject : volume.store.object? obj = some object)
    (hobject' : volume.store.object? x = some object') :
    object'.stat.key = object.stat.key ↔ x = obj := by
  constructor
  . intro hkey
    rw [← stat_key_id hobject', hkey, stat_key_id hobject]
  . rintro rfl
    rw [hobject] at hobject'
    injection hobject' with hobject'
    rw [hobject']

namespace Reflects

theorem of_becomes (h : volume.Reflects values priv) (hbecomes : volume.Becomes rest priv stored)
    (hlive : ∀ ⦃obj object⦄, volume.store.object? obj = some object →
      ∀ ⦃n⦄, EntryName.isDots n = false → stored object.stat.key n = values' obj n)
    (hfar : ∀ ⦃key : ObjectKey⦄, volume.store.nextId ≤ key.id → ∀ n, stored key n = none)
    (hfresh : ∀ ⦃obj⦄, volume.store.nextId ≤ obj → ∀ n, values' obj n = none)
    (honly : ∀ ⦃key n⦄, EntryName.isDots n = false → stored key n ≠ none → isAttrName n = true)
    (hnames : ∀ ⦃obj n⦄, values' obj n ≠ none → isAttrName n = true) :
    rest.Reflects values' priv where
  settled := hbecomes.settled
  locks_eq := hbecomes.locks_eq.trans h.locks_eq
  format_eq := hbecomes.keys.format_eq.trans h.format_eq
  values_eq obj object hobject n hn := by
    rw [hbecomes.values_eq hn]
    obtain hnew | ⟨object', hobject', hkey⟩ := hbecomes.keys.key_eq hobject
    . rw [hfar (by rw [stat_key_id hobject]; exact hnew), hfresh hnew]
    . rw [hkey]
      exact hlive hobject' hn
  fresh obj hobj := hfresh (Nat.le_trans hbecomes.keys.nextId_le hobj)
  onlyNames key n hn hvalue := honly hn (by rwa [← hbecomes.values_eq hn])
  names := hnames

variable (h : volume.Reflects values priv)
include h

theorem same (hbecomes : volume.Becomes rest priv (volume.store.attrValue? priv)) :
    rest.Reflects values priv :=
  h.of_becomes hbecomes h.values_eq (fun _ => h.settled.attrValue?_fresh) h.fresh h.onlyNames h.names

theorem allServed (key : ObjectKey) : volume.AllServed priv key := by
  intro n hn hvalue
  obtain ⟨_, link, hlink, _⟩ := isAttrName_eq_true_iff.mp (h.onlyNames hn hvalue)
  rw [hlink]
  rfl

variable (hobject : volume.store.object? obj = some object)
include hobject

theorem set {value : Option Bytes} (hname : value ≠ none → isAttrName name = true)
    (hbecomes : volume.Becomes rest priv
      (withValue (volume.store.attrValue? priv) object.stat.key name value)) :
    rest.Reflects (values.set obj name value) priv := by
  have hlt := h.settled.tidy.linked.id_lt hobject
  refine h.of_becomes hbecomes ?_ ?_ ?_ ?_ ?_
  . intro x object' hobject' n hn
    simp only [withValue, AttrMap.set, key_eq_iff hobject hobject', h.values_eq hobject' hn]
  . intro key hid n
    rw [withValue, if_neg]
    . exact h.settled.attrValue?_fresh hid n
    . rintro ⟨rfl, _⟩
      rw [stat_key_id hobject] at hid
      exact absurd hlt (Nat.not_lt.mpr hid)
  . intro x hx n
    rw [AttrMap.set, if_neg]
    . exact h.fresh hx n
    . rintro ⟨rfl, _⟩
      exact absurd hlt (Nat.not_lt.mpr hx)
  . intro key n hn hvalue
    simp only [withValue] at hvalue
    split at hvalue
    . next heq => exact heq.2 ▸ hname hvalue
    . exact h.onlyNames hn hvalue
  . intro x n hvalue
    simp only [AttrMap.set] at hvalue
    split at hvalue
    . next heq => exact heq.2 ▸ hname hvalue
    . exact h.names hvalue

theorem clear (hbecomes : volume.Becomes rest priv
      (withoutValues (volume.store.attrValue? priv) object.stat.key)) :
    rest.Reflects (values.clear obj) priv := by
  refine h.of_becomes hbecomes ?_ ?_ ?_ ?_ ?_
  . intro x object' hobject' n hn
    simp only [withoutValues, AttrMap.clear, key_eq_iff hobject hobject', h.values_eq hobject' hn]
  . intro key hid n
    rw [withoutValues, h.settled.attrValue?_fresh hid n, ite_self]
  . intro x hx n
    rw [AttrMap.clear, h.fresh hx n, ite_self]
  . intro key n hn hvalue
    simp only [withoutValues, ne_eq, ite_eq_left_iff, not_forall] at hvalue
    exact h.onlyNames hn hvalue.2
  . intro x n hvalue
    simp only [AttrMap.clear, ne_eq, ite_eq_left_iff, not_forall] at hvalue
    exact h.names hvalue.2

end Reflects

section Answers

variable {buffer : Buffer} {act : Action (Volume MemStore × Buffer) Nat}

theorem after_of_answers {answer : Except ErrorKind Nat × Buffer}
    (h : Answers (act (volume, buffer)) rest answer) :
    (discard (act.withSecond buffer)).after volume = rest := by
  rw [after_discard]
  obtain ⟨result, buffer'⟩ := answer
  cases result with
  | ok n =>
    have hrun : act (volume, buffer) = .ok n (rest, buffer') := h
    simp [Action.after, withSecond, hrun]
  | error kind =>
    obtain ⟨err, _, hrun⟩ := h
    simp [Action.after, withSecond, hrun]

theorem after_of_lists {names : List String} (h : Lists (act (volume, buffer)) rest names buffer) :
    (discard (act.withSecond buffer)).after volume = rest := by
  rw [after_discard]
  cases buffer with
  | none =>
    have hrun : act (volume, none) = .ok (listed names).length (rest, none) := h
    simp [Action.after, withSecond, hrun]
  | some bytes =>
    simp only [Lists] at h
    split at h
    . obtain ⟨err, buffer', _, hrun⟩ := h
      simp [Action.after, withSecond, hrun]
    . simp [Action.after, withSecond, h]

end Answers

namespace Reflects

theorem of_after (heffect : op.effect values = values)
    (h : (op.perform.after volume).Reflects values priv) :
    (∀ rest, op.perform volume = .ok () rest → rest.Reflects (op.effect values) priv)
      ∧ ∀ err rest, op.perform volume = .error err rest → rest.Reflects values priv := by
  constructor
  . intro rest hdone
    rw [heffect, ← after_of_ok hdone]
    exact h
  . intro err rest hfailed
    rw [← after_of_error hfailed]
    exact h

theorem of_does {can : Bool} (h : volume.Reflects values priv)
    (hdoes : volume.Does priv (op.perform volume) can stored)
    (hdone : ∀ rest, can = true → volume.Becomes rest priv stored →
      rest.Reflects (op.effect values) priv) :
    (∀ rest, op.perform volume = .ok () rest → rest.Reflects (op.effect values) priv)
      ∧ ∀ err rest, op.perform volume = .error err rest → rest.Reflects values priv := by
  constructor
  . intro rest hrun
    rw [hrun] at hdoes
    exact hdone rest hdoes.1 hdoes.2
  . intro err rest hrun
    rw [hrun] at hdoes
    exact h.same hdoes.2

theorem perform (h : volume.Reflects values priv) (hbound : volume.store.nextId ≤ 2 ^ 63)
    (hop : op.Allowed volume) :
    (∀ rest, op.perform volume = .ok () rest → rest.Reflects (op.effect values) priv)
      ∧ ∀ err rest, op.perform volume = .error err rest → rest.Reflects values priv := by
  have hbound' : volume.store.nextId ≤ 2 ^ 64 := Nat.le_trans hbound (by decide)
  -- Only what sets, removes or deletes has an effect on the map.
  cases op with
  | store op =>
    refine of_after rfl ?_
    exact h.same (h.settled.storeOp (hop priv h.settled.tidy.root))
  | getAttribute registry obj name buffer =>
    obtain ⟨rfl, object, hobject, _, hformat⟩ := hop
    refine of_after rfl ?_
    cases hname : isAttrName name with
    | true =>
      obtain ⟨rest, hbecomes, hanswers⟩ :=
        h.settled.getAttribute hobject hformat hbound' hname buffer
      rw [Op.perform, after_of_answers hanswers]
      exact h.same hbecomes
    | false =>
      obtain ⟨err, hrun⟩ := h.settled.getAttribute_other hobject hformat hname buffer
      have hafter : (Op.getAttribute .standard obj name buffer).perform.after volume = volume := by
        rw [Op.perform, after_discard]
        simp [Action.after, withSecond, hrun]
      rw [hafter]
      exact h
  | listAttributes registry obj buffer =>
    obtain ⟨rfl, object, hobject, _, hformat⟩ := hop
    refine of_after rfl ?_
    obtain ⟨rest, names, hbecomes, _, _, hlists⟩ :=
      h.settled.listAttributes hobject hformat (h.allServed _) h.locks_eq hbound buffer
    rw [Op.perform, after_of_lists hlists]
    exact h.same hbecomes
  | setAttribute registry obj name value flags =>
    obtain ⟨rfl, ⟨object, hobject, _, hformat⟩, hflags⟩ := hop
    refine h.of_does (h.settled.setAttribute_does hobject hformat hbound' hflags value)
      fun rest hcan hbecomes => h.set hobject (fun _ => ?_) hbecomes
    simp only [canSet, Bool.and_eq_true] at hcan
    exact hcan.1
  | removeAttribute registry obj name =>
    obtain ⟨rfl, object, hobject, _, hformat⟩ := hop
    exact h.of_does (h.settled.removeAttribute_does hobject hformat h.onlyNames hbound)
      fun rest _ hbecomes => h.set hobject (fun hnone => absurd rfl hnone) hbecomes
  | deleteAttributes obj =>
    obtain ⟨object, hobject, hprivate, hformat⟩ := hop
    obtain ⟨rest, hrun, hbecomes⟩ :=
      h.settled.deleteAttributes hobject hprivate hformat h.locks_eq hbound
    have hdoes : volume.Does priv ((Op.deleteAttributes obj).perform volume) true
        (withoutValues (volume.store.attrValue? priv) object.stat.key) := by
      rw [Op.perform, hrun]
      exact ⟨rfl, hbecomes⟩
    exact h.of_does hdoes fun rest _ hbecomes => h.clear hobject hbecomes
  | chownAttributes obj change =>
    obtain ⟨object, hobject, hprivate, hformat⟩ := hop
    obtain ⟨rest, hrun, hbecomes⟩ :=
      h.settled.chownAttributes hobject hprivate hformat h.locks_eq change
    refine of_after rfl ?_
    rw [Op.perform, after_of_ok hrun]
    exact h.same hbecomes
  | _ => exact hop.elim

theorem renewed (h : volume.Reflects values priv) (cacheCapacity : Nat) :
    (run [.renew .optional cacheCapacity, .mount ⟨false⟩] volume).Reflects values priv := by
  have htidy := h.settled.tidy
  have hspared := htidy.spared_marked
  have hmount := mount_eq (by rw [h.format_eq]; decide) (findPrivateRoot_found htidy) cacheCapacity
  have hrun : run [.renew .optional cacheCapacity, .mount ⟨false⟩] volume =
      mounted (volume.store.marked priv) priv cacheCapacity := after_of_ok hmount
  rw [hrun]
  refine h.same ⟨settled_mounted hspared.tidy cacheCapacity, fun n hn key => ?_, ?_, hspared.keys⟩
  . exact (htidy.sameTree hspared.kept).attrValue_eq key hn
  . exact h.locks_eq.symm

theorem mounted (pageSize : Nat) (hsize : Record.headerSize < pageSize) (cacheCapacity : Nat) :
    (run [.mount ⟨false⟩] (initial pageSize .current hsize .optional cacheCapacity)).Reflects .empty
      (rootId + 1) := by
  obtain ⟨htidy, hroot⟩ := tidy_withPrivateRoot pageSize hsize
  have hformat : (MemStore.empty pageSize .current hsize).format ≠ .legacy := by
    simp [MemStore.empty]
  have hmount := mount_eq hformat (findPrivateRoot_made pageSize hsize) cacheCapacity
  have hrun : run [.mount ⟨false⟩] (initial pageSize .current hsize .optional cacheCapacity) =
      Volume.mounted (withPrivateRoot pageSize hsize) (rootId + 1) cacheCapacity := after_of_ok hmount
  have hnone (key : ObjectKey) (n : String) :
      (withPrivateRoot pageSize hsize).attrValue? (rootId + 1) key n = none := by
    rw [attrValue?, attrRecord?, attrDir?, hroot]
    rfl
  rw [hrun]
  refine ⟨settled_mounted htidy cacheCapacity, rfl, rfl, ?_, fun _ _ _ => rfl, ?_, ?_⟩
  . exact fun _ object _ n _ => hnone object.stat.key n
  . exact fun key n _ hvalue => absurd (hnone key n) hvalue
  . exact fun _ _ hvalue => absurd rfl hvalue

end Reflects

namespace Reaches

theorem step (h : Reaches volume values) (hop : op.Allowed volume)
    (hdone : op.perform.succeeds volume = true) :
    Reaches (op.perform.after volume) (op.effect values) := by
  unfold Action.after
  unfold Action.succeeds at hdone
  cases hrun : op.perform volume with
  | ok _ rest => exact h.done hop hrun
  | error err rest =>
    rw [hrun] at hdone
    cases hdone

theorem linked (h : Reaches volume values) : volume.store.Linked := by
  induction h with
  | mounted pageSize hsize cacheCapacity => exact linked_run _ (linked_empty pageSize .current hsize)
  | @done volume rest values op _ _ hdone ih =>
    rw [← after_of_ok hdone]
    exact linked_run [op] ih
  | @failed volume rest values op err _ _ hfailed ih =>
    rw [← after_of_error hfailed]
    exact linked_run [op] ih
  | renewed _ cacheCapacity ih => exact linked_run _ ih

theorem reflects (h : Reaches volume values) (hbound : volume.store.nextId ≤ 2 ^ 63) :
    ∃ priv, volume.Reflects values priv := by
  induction h with
  | mounted pageSize hsize cacheCapacity => exact ⟨_, .mounted pageSize hsize cacheCapacity⟩
  | @done volume rest values op hreach hop hdone ih =>
    have hnext := nextId_le_run [op] hreach.linked
    rw [show run [op] volume = rest from after_of_ok hdone] at hnext
    obtain ⟨priv, hreflects⟩ := ih (Nat.le_trans hnext hbound)
    exact ⟨priv, (hreflects.perform (Nat.le_trans hnext hbound) hop).1 rest hdone⟩
  | @failed volume rest values op err hreach hop hfailed ih =>
    have hnext := nextId_le_run [op] hreach.linked
    rw [show run [op] volume = rest from after_of_error hfailed] at hnext
    obtain ⟨priv, hreflects⟩ := ih (Nat.le_trans hnext hbound)
    exact ⟨priv, (hreflects.perform (Nat.le_trans hnext hbound) hop).2 err rest hfailed⟩
  | @renewed volume values hreach cacheCapacity ih =>
    have hnext := nextId_le_run [.renew .optional cacheCapacity, .mount ⟨false⟩] hreach.linked
    obtain ⟨priv, hreflects⟩ := ih (Nat.le_trans hnext hbound)
    exact ⟨priv, hreflects.renewed cacheCapacity⟩

end Reaches

/-- The volume answers questions about the attributes of `object` as `values` does, and sets and removes them
when `values` tells that this can be done. -/
structure AnswersLike (volume : Volume MemStore) (values : AttrMap) (object : MemObject) : Prop where
  get : ∀ ⦃name⦄, isAttrName name = true → ∀ buffer, ∃ rest,
    Answers (getAttribute .standard object.id name (volume, buffer)) rest
      (readAnswer (values object.id name) buffer)
  get_other : ∀ ⦃name⦄, isAttrName name = false → values object.id name = none ∧
    ∀ buffer, ∃ err, getAttribute .standard object.id name (volume, buffer) = .error err (volume, buffer)
  list : ∀ buffer, ∃ rest names, names.Nodup ∧ (∀ n, n ∈ names ↔ values object.id n ≠ none)
    ∧ Lists (listAttributes .standard object.id (volume, buffer)) rest names buffer
  set : ∀ ⦃flags⦄, flags.other = false → ∀ name value,
    Action.succeeds (setAttribute .standard object.id name value flags) volume =
      canSet object.body.isDirectory name value flags (values object.id name)
  remove : ∀ name,
    Action.succeeds (removeAttribute .standard object.id name) volume = (values object.id name).isSome

theorem Does.succeeds {can : Bool} {act : Action (Volume MemStore) Unit}
    (h : volume.Does priv (act volume) can stored) : act.succeeds volume = can := by
  unfold Action.succeeds
  cases hrun : act volume with
  | ok _ rest =>
    rw [hrun] at h
    exact h.1.symm
  | error err rest =>
    rw [hrun] at h
    exact h.1.symm

theorem Reflects.answersLike (h : volume.Reflects values priv)
    (hbound : volume.store.nextId ≤ 2 ^ 63) (hobject : volume.store.object? obj = some object)
    (hformat : object.format ≠ .legacy) : volume.AnswersLike values object := by
  have hbound' : volume.store.nextId ≤ 2 ^ 64 := Nat.le_trans hbound (by decide)
  obtain rfl : object.id = obj := id_of_object? hobject
  have hdots {n : String} (hname : isAttrName n = true) : EntryName.isDots n = false :=
    isDots_of_isValidName (isAttrName_eq_true_iff.mp hname).1
  have hother {n : String} (hname : isAttrName n = false) : values object.id n = none := by
    by_contra hvalue
    rw [h.names hvalue] at hname
    cases hname
  constructor
  . intro name hname buffer
    obtain ⟨rest, _, hanswers⟩ := h.settled.getAttribute hobject hformat hbound' hname buffer
    rw [h.values_eq hobject (hdots hname)] at hanswers
    exact ⟨rest, hanswers⟩
  . intro name hname
    exact ⟨hother hname, h.settled.getAttribute_other hobject hformat hname⟩
  . intro buffer
    obtain ⟨rest, names, _, hnodup, hmem, hlists⟩ :=
      h.settled.listAttributes hobject hformat (h.allServed _) h.locks_eq hbound buffer
    refine ⟨rest, names, hnodup, fun n => ?_, hlists⟩
    rw [hmem]
    constructor
    . rintro ⟨hn, hvalue⟩
      rwa [h.values_eq hobject hn] at hvalue
    . intro hvalue
      have hn := hdots (h.names hvalue)
      exact ⟨hn, by rwa [h.values_eq hobject hn]⟩
  . intro flags hflags name value
    rw [(h.settled.setAttribute_does hobject hformat hbound' hflags value).succeeds]
    cases hname : isAttrName name with
    | false => simp [canSet, hname]
    | true => rw [h.values_eq hobject (hdots hname)]
  . intro name
    rw [(h.settled.removeAttribute_does hobject hformat h.onlyNames hbound).succeeds]
    cases hname : isAttrName name with
    | false => simp [hother hname]
    | true => rw [h.values_eq hobject (hdots hname), Bool.true_and]

/-- `hbound` keeps the offsets of directory entries in front of `Directory.lastOffset`, where a scan begins. -/
theorem answersLike_reached (h : Reaches volume values) (hbound : volume.store.nextId ≤ 2 ^ 63)
    (hobject : volume.store.object? obj = some object) (hformat : object.format ≠ .legacy) :
    volume.AnswersLike values object := by
  obtain ⟨priv, hreflects⟩ := h.reflects hbound
  exact hreflects.answersLike hbound hobject hformat

def mountedFile : Volume MemStore :=
  run [.mount ⟨false⟩, .store (.create 1 "f" 0o644)]
    (initial 16 .current (by decide) .optional 64)

theorem reaches_mountedFile : Reaches mountedFile .empty := by
  let start := run [.mount ⟨false⟩] (initial 16 .current (by decide) .optional 64)
  have hstart : Reaches start .empty := .mounted 16 (by decide) 64
  have hcreate : Op.Allowed start (.store (.create 1 "f" 0o644)) := by
    rintro priv hpriv hid
    obtain ⟨priv', hreflects⟩ := hstart.reflects (by decide +kernel)
    have htidy := hreflects.settled.tidy
    rw [htidy.root] at hpriv
    injection hpriv with hpriv
    obtain ⟨object, hobject, hprivate⟩ := hid.isPrivate (hpriv ▸ htidy)
    have hroot : (start.store.object? 1).map (·.isPrivate) = some false := by decide +kernel
    rw [hobject, Option.map_some, hprivate] at hroot
    cases hroot
  exact hstart.step hcreate (by decide +kernel)

def removalRun : List Op :=
  [.setAttribute .standard 3 "user.a" [1, 2] .none,
    .setAttribute .standard 3 "user.b" [3] { SetFlags.none with create := true },
    .removeAttribute .standard 3 "user.a"]

theorem reaches_removalRun :
    Reaches (run removalRun mountedFile) (removalRun.foldl Op.effect .empty) := by
  let first := run (removalRun.take 1) mountedFile
  let second := run (removalRun.take 2) mountedFile
  have hfirst : Reaches first _ := reaches_mountedFile.step
    (show Op.Allowed mountedFile (.setAttribute .standard 3 "user.a" [1, 2] .none) from
      ⟨rfl, by decide +kernel, rfl⟩) (by decide +kernel)
  have hsecond : Reaches second _ := hfirst.step
    (show Op.Allowed first (.setAttribute .standard 3 "user.b" [3]
      { SetFlags.none with create := true }) from ⟨rfl, by decide +kernel, rfl⟩) (by decide +kernel)
  exact hsecond.step
    (show Op.Allowed second (.removeAttribute .standard 3 "user.a") from ⟨rfl, by decide +kernel⟩)
    (by decide +kernel)

theorem answersLike_takeover :
    let volume := run [.renew .optional 0, .mount ⟨false⟩] (run removalRun mountedFile)
    let values := removalRun.foldl Op.effect .empty
    Reaches volume values ∧ volume.store.nextId ≤ 2 ^ 63
      ∧ values 3 "user.a" = none ∧ values 3 "user.b" = some [3]
      ∧ ∃ object, volume.store.object? 3 = some object ∧ object.format ≠ .legacy
        ∧ volume.AnswersLike values object := by
  intro volume values
  have hreach : Reaches volume values := reaches_removalRun.renewed 0
  have hbound : volume.store.nextId ≤ 2 ^ 63 := by decide +kernel
  obtain ⟨object, hobject, _, hformat⟩ : volume.store.TakesAttributes 3 := by decide +kernel
  exact ⟨hreach, hbound, by decide +kernel, by decide +kernel, object, hobject, hformat,
    answersLike_reached hreach hbound hobject hformat⟩

end Volume

end AttrTree
