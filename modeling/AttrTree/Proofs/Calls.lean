import AttrTree.Attribute.Access
import AttrTree.Proofs.Action
import AttrTree.Proofs.Cache
import AttrTree.Proofs.Key
import AttrTree.Volume.Mount

/-!
This module contains what is kept of a store by all that is done to it between two looks at the rest of
a volume: whatever the calls through the store interface keep. The only directories that a volume
removes are named by keys, so the names of a directory's links need not be considered.
-/

namespace AttrTree

structure KeptByLooking {σ : Type} [ObjectStore σ] (P : σ → Prop) : Prop where
  lookup : ∀ dir name, Action.Keeps P (ObjectStore.lookup dir name)
  stat : ∀ id, Action.Keeps P (ObjectStore.stat id)
  readPage : ∀ id index length, Action.Keeps P (ObjectStore.readPage id index length)
  locateEntry : ∀ dir position, Action.Keeps P (ObjectStore.locateEntry dir position)
  entryName : ∀ dir slot, Action.Keeps P (ObjectStore.entryName dir slot)

structure KeptByMaking {σ : Type} [ObjectStore σ] (P : σ → Prop) : Prop where
  lookup : ∀ dir name, Action.Keeps P (ObjectStore.lookup dir name)
  mkdir : ∀ dir name mode, Action.Keeps P (ObjectStore.mkdir dir name mode)
  create : ∀ dir name mode, Action.Keeps P (ObjectStore.create dir name mode)

structure KeptByAdding {σ : Type} [ObjectStore σ] (P : σ → Prop) : Prop
    extends KeptByLooking P, KeptByMaking P where
  setAttr : ∀ id change, Action.Keeps P (ObjectStore.setAttr id change)
  writePage : ∀ id index offset data, Action.Keeps P (ObjectStore.writePage id index offset data)
  markPrivate : ∀ id, Action.Keeps P (ObjectStore.markPrivate id)

/-- Every call through `ObjectStore` keeps `P`, but for `rmdir` under `.` and `..`. -/
structure KeptByCalls {σ : Type} [ObjectStore σ] (P : σ → Prop) : Prop extends KeptByAdding P where
  unlink : ∀ dir name, Action.Keeps P (ObjectStore.unlink dir name)
  rmdir : ∀ dir name, EntryName.isDots name = false → Action.Keeps P (ObjectStore.rmdir dir name)

theorem KeptByLooking.of_true {σ : Type} [ObjectStore σ] : KeptByLooking fun _ : σ => True := by
  constructor <;> intros <;> exact ⟨fun _ _ => True.intro⟩

theorem KeptByLooking.of_family {ι σ : Type} [ObjectStore σ] {R : ι → σ → Prop} {P : σ → Prop}
    (h : ∀ i, KeptByLooking (R i))
    (hP : ∀ {α : Type} {act : Action σ α}, (∀ i, Action.Keeps (R i) act) → Action.Keeps P act) :
    KeptByLooking P where
  lookup dir name := hP fun i => (h i).lookup dir name
  stat id := hP fun i => (h i).stat id
  readPage id index length := hP fun i => (h i).readPage id index length
  locateEntry dir position := hP fun i => (h i).locateEntry dir position
  entryName dir slot := hP fun i => (h i).entryName dir slot

namespace Action

variable {σ β α : Type} {P : σ → Prop}

theorem Keeps.onStore {act : Action σ α} (hact : Keeps P act) :
    Keeps (fun volume => P volume.store) (Volume.onStore act) :=
  hact.focus (fun _ h => h) fun _ _ h => h

theorem Ensures.onStore {E P : Volume σ → Prop} {Q : α → Volume σ → Prop} {act : Action σ α}
    (h : ∀ volume : Volume σ, Ensures (fun store => E { volume with store })
      (fun store => P { volume with store }) (fun a store => Q a { volume with store }) act) :
    Ensures E P Q (Volume.onStore act) := by
  constructor
  . intro volume a rest hs hrun
    unfold Volume.onStore focus at hrun
    cases hact : act volume.store with
    | ok a' store =>
      rw [hact] at hrun
      cases hrun
      exact (h volume).ok hs hact
    | error e store =>
      rw [hact] at hrun
      cases hrun
  . intro volume e rest hs hrun
    unfold Volume.onStore focus at hrun
    cases hact : act volume.store with
    | ok a store =>
      rw [hact] at hrun
      cases hrun
    | error e' store =>
      rw [hact] at hrun
      cases hrun
      exact (h volume).error hs hact

end Action

namespace Volume

open Action

variable {σ β : Type} [ObjectStore σ] {P : σ → Prop}

section Finding

variable {dir : ObjectId} {name : String} (hlookup : Keeps P (ObjectStore.lookup dir name))
include hlookup

theorem keeps_makeOrFind {make : Action σ ObjectId} (hmake : Keeps P make) (vanished : Error) :
    Keeps P (makeOrFind make dir name vanished) := by
  refine .bind hmake.attempt fun result => ?_
  cases result with
  | ok id => exact .pure id
  | error e => exact .ite (.bind hlookup fun _ => .ofOption ..) (.throw e)

theorem keeps_findDirectory {mayCreate : Bool}
    (hmake : mayCreate = true → Keeps P (ObjectStore.mkdir dir name privateMode))
    (missing : Error) : Keeps P (findDirectory dir name mayCreate missing) := by
  -- Nothing is to be shown of making a directory if none may be made.
  refine .bind hlookup fun found => ?_
  cases found with
  | some id => exact .pure id
  | none =>
    cases mayCreate with
    | false => exact .throw missing
    | true => exact keeps_makeOrFind hlookup (hmake rfl) _

theorem keeps_makeRecord (hmake : ∀ mode, Keeps P (ObjectStore.create dir name mode)) :
    Keeps P (makeRecord dir name) :=
  keeps_makeOrFind hlookup (hmake _) _

end Finding

section Opening

def Knows (volume : Volume σ) (id : ObjectId) : Prop :=
  volume.privateRoot = some id ∨ volume.attrRoot = some id ∨ ∃ key, volume.cache.peek? key = some id

structure KeptByOpening (mayCreate : Bool) (Q : Volume σ → Prop) (R : ObjectId → σ → Prop) : Prop where
  known : ∀ ⦃volume id⦄, Q volume → volume.Knows id → R id volume.store
  find : ∀ (volume : Volume σ) parent name missing, EntryName.isDots name = false →
    Ensures (fun store => Q { volume with store })
      (fun store => Q { volume with store } ∧ R parent store)
      (fun id store => Q { volume with store } ∧ R id store)
      (findDirectory parent name mayCreate missing)
  attrRoot : ∀ ⦃volume id⦄, Q volume → R id volume.store → Q { volume with attrRoot := some id }
  cache : ∀ ⦃volume cache⦄, Q volume →
    (∀ ⦃key id⦄, cache.peek? key = some id → R id volume.store) → Q { volume with cache }

variable {mayCreate : Bool} {Q : Volume σ → Prop} {R : ObjectId → σ → Prop}

theorem KeptByOpening.findDirectory (h : KeptByOpening mayCreate Q R) (parent : ObjectId)
    {name : String} (missing : Error) (hname : EntryName.isDots name = false) :
    Ensures Q (fun volume => Q volume ∧ R parent volume.store)
      (fun id volume => Q volume ∧ R id volume.store)
      (onStore (Volume.findDirectory parent name mayCreate missing)) :=
  .onStore fun volume => h.find volume parent name missing hname

theorem KeptByOpening.openAttrRoot (h : KeptByOpening mayCreate Q R) :
    Ensures Q Q (fun id volume => Q volume ∧ R id volume.store) (openAttrRoot mayCreate) := by
  have hget : Ensures Q Q (fun volume rest => volume = rest ∧ Q rest) get :=
    .get fun _ hs => ⟨rfl, hs⟩
  have hpriv (volume : Volume σ) : Ensures Q (fun rest => volume = rest ∧ Q rest)
      (fun priv rest => Q rest ∧ R priv rest.store) (ofOption noPrivateRoot volume.privateRoot) :=
    .ofOption (fun _ hs => hs.2) fun priv rest hpriv hs =>
      ⟨hs.2, h.known hs.2 (.inl (hs.1 ▸ hpriv))⟩
  refine .bind hget fun volume => .bind (hpriv volume) fun priv => ?_
  have hget' : Ensures Q (fun volume => Q volume ∧ R priv volume.store)
      (fun volume rest => volume = rest ∧ Q rest ∧ R priv rest.store) get :=
    .get fun _ hs => ⟨rfl, hs⟩
  refine .bind hget' fun volume => ?_
  cases hroot : volume.attrRoot with
  | some id => exact .pure fun rest hs => ⟨hs.2.1, h.known hs.2.1 (.inr (.inl (hs.1 ▸ hroot)))⟩
  | none =>
    refine .bind ((h.findDirectory priv _ (by decide)).mono (fun _ hs => hs.2) fun _ _ hs => hs)
      fun id => ?_
    exact .bind (.modify fun rest hs => ⟨h.attrRoot hs.1 hs.2, hs.2⟩) fun _ => .pure fun _ hs => hs

theorem KeptByOpening.openDirectory (h : KeptByOpening mayCreate Q R) {stat : ObjectStat}
    {flags : SetFlags} (hflags : flags.allowsCreate = mayCreate) :
    Ensures Q Q (fun id volume => Q volume ∧ R id volume.store) (openDirectory stat flags) := by
  have hcached : Ensures Q Q (fun found volume => Q volume ∧ ∀ id, found = some id → R id volume.store)
      (cachedDirectory? stat.key) := by
    refine ⟨fun volume found rest hs hrun => ?_, fun volume e rest _ hrun => ?_⟩
    . rw [cachedDirectory?_eq] at hrun
      cases hrun
      have hknown {key : ObjectKey} {id : ObjectId} (hpeek : volume.cache.peek? key = some id) :=
        h.known hs (.inr (.inr ⟨key, hpeek⟩))
      refine ⟨h.cache hs fun key id hpeek => hknown (by simpa using hpeek), fun id hfound => ?_⟩
      rw [DirCache.get?_fst] at hfound
      split at hfound
      . cases hfound
      . exact hknown hfound
    . rw [cachedDirectory?_eq] at hrun
      cases hrun
  refine .bind hcached fun found => ?_
  cases found with
  | some dir => exact .pure fun rest hs => ⟨hs.1, hs.2 dir rfl⟩
  | none =>
    rw [hflags]
    refine .bind (h.openAttrRoot.mono (fun _ hs => hs.1) fun _ _ hs => hs) fun root => ?_
    refine .bind (h.findDirectory root _ stat.key.isDots_text) fun dir => ?_
    refine .bind (.modify fun rest hs => ?_) fun _ => .pure fun _ hs => hs
    refine ⟨h.cache hs.1 fun key id hpeek => ?_, hs.2⟩
    obtain ⟨_, rfl⟩ | hpeek := DirCache.peek?_of_insert hpeek
    . exact hs.2
    . exact h.known hs.1 (.inr (.inr ⟨key, hpeek⟩))

end Opening

section Place

variable (hP : KeptByMaking P)
include hP

theorem keptByOpening_store (mayCreate : Bool) :
    KeptByOpening mayCreate (fun volume : Volume σ => P volume.store) fun _ _ => True where
  known _ _ _ _ := trivial
  find _ _ _ missing _ :=
    .mono (.of_keeps (keeps_findDirectory (hP.lookup ..) (fun _ => hP.mkdir ..) missing)
      fun _ hs => hs) (fun _ hs => hs.1) fun _ _ hs => ⟨hs, trivial⟩
  attrRoot _ _ hs _ := hs
  cache _ _ hs _ := hs

theorem keeps_openAttrRoot (mayCreate : Bool) :
    Keeps (fun volume : Volume σ => P volume.store) (openAttrRoot mayCreate) :=
  (keptByOpening_store hP mayCreate).openAttrRoot.keeps fun _ _ hs => hs.1

theorem keeps_openDirectory (stat : ObjectStat) (flags : SetFlags) :
    Keeps (fun volume : Volume σ => P volume.store) (openDirectory stat flags) :=
  ((keptByOpening_store hP _).openDirectory rfl).keeps fun _ _ hs => hs.1

theorem keeps_openRecord (stat : ObjectStat) (name : String) (flags : SetFlags) :
    Keeps (fun volume : Volume σ => P volume.store) (openRecord stat name flags) := by
  refine .bind (.ofExcept _) fun _ => .bind (keeps_openDirectory hP stat flags) fun dir => ?_
  refine .bind (.onStore (hP.lookup dir name)) fun found => ?_
  cases found with
  | some id => exact .ite (.throw attrExists) (.pure id)
  | none => exact .ite (.throw attrNotFound) (.onStore (keeps_makeRecord (hP.lookup ..) (hP.create dir name)))

end Place

section Removal

variable (hP : KeptByLooking P)
include hP

theorem keeps_removeEntry {dir : ObjectId} {name : String}
    (hunlink : Keeps P (ObjectStore.unlink dir name)) : Keeps P (removeEntry dir name) := by
  refine .bind (hP.lookup dir name) fun found => .bind (.ofOption ..) fun id => ?_
  refine .bind (hP.stat id) fun target => .ite (.pure ()) ?_
  exact .ite hunlink (.bind (.throw _) fun _ => hunlink)

theorem keeps_hasEntries (dir : ObjectId) : Keeps P (hasEntries dir) := by
  refine .bind (hP.locateEntry ..) fun slot => ?_
  cases slot <;> exact .pure _

end Removal

section Scan

variable (hP : KeptByLooking P)
include hP

theorem keeps_look (scan : Scan) : Keeps P (scan.look : Action σ ScanStep) := by
  refine .bind (hP.locateEntry ..) fun located => ?_
  cases located with
  | none => exact .pure _
  | some slot =>
    refine .ite (.pure _) (.ite (.pure _) (.bind (hP.entryName scan.dir slot) fun name => ?_))
    cases name <;> exact .pure _

theorem keeps_advance (fuel : Nat) :
    Keeps (fun s : σ × Scan => P s.1) (Scan.advance fuel) := by
  induction fuel with
  | zero => exact .throw _
  | succ fuel ih =>
    refine .bind .get fun s => .bind (.onFirst (keeps_look hP s.2)) fun step => ?_
    cases step with
    | done => exact .pure none
    | moved => exact ih
    | pass offset => exact .bind (.modify fun _ hs => hs) fun _ => ih
    | item item => exact .bind (.modify fun _ hs => hs) fun _ => .pure _

theorem keeps_next : Keeps (fun s : σ × Scan => P s.1) Scan.next := by
  refine ⟨fun s hs => ?_⟩
  obtain ⟨store, scan⟩ := s
  have hend := (keeps_advance hP (scan.fuel store)).holds (store, scan) hs
  unfold after at hend ⊢
  unfold Scan.next
  by_cases hfinished : scan.finished = true
  . simpa [hfinished] using hs
  . cases hrun : Scan.advance (scan.fuel store) (store, scan) with
    | error e s' => simpa [hfinished, hrun] using hend
    | ok item s' => cases item <;> simpa [hfinished, hrun] using hend

end Scan

section Value

variable (hP : KeptByLooking P)
include hP

theorem keeps_statWithAttributes (obj : ObjectId) : Keeps P (statWithAttributes obj) := by
  refine .bind (hP.stat obj) fun stat => ?_
  exact .ite (.bind (.throw _) fun _ => .pure stat) (.pure stat)

omit hP in
theorem keeps_writePages {record : ObjectId}
    (hwrite : ∀ index offset data, Keeps P (ObjectStore.writePage record index offset data))
    (index : Nat) (pages : List Bytes) : Keeps P (writePages record index pages) := by
  induction pages generalizing index with
  | nil => exact .pure ()
  | cons page pages ih => exact .bind (hwrite ..) fun _ => ih _

omit hP in
theorem keeps_writeImage {record : ObjectId}
    (hset : ∀ change, Keeps P (ObjectStore.setAttr record change))
    (hwrite : ∀ index offset data, Keeps P (ObjectStore.writePage record index offset data))
    (image : Bytes) : Keeps P (writeImage record image) :=
  .bind (hset _) fun _ => .bind .get fun _ => keeps_writePages hwrite ..

omit hP [ObjectStore σ] in
theorem keeps_fillBuffer {τ : Type} {Q : τ → Prop} (start : Nat) (data : Bytes) :
    Keeps (fun s : τ × Buffer => Q s.1) (fillBuffer start data) :=
  .modify fun _ hs => hs

theorem keeps_copyPieces (record : ObjectId) (pageSize : Nat) (lengths : List Nat)
    (index copied : Nat) (sum : RunningChecksum) :
    Keeps (fun s : σ × Buffer => P s.1) (copyPieces record pageSize lengths index copied sum) := by
  induction lengths generalizing index copied sum with
  | nil => exact .pure sum
  | cons length lengths ih =>
    exact .bind (.onFirst (hP.readPage ..)) fun page => .bind (keeps_fillBuffer ..) fun _ => ih ..

theorem keeps_copyPayload (record : ObjectId) (length : Nat) :
    Keeps (fun s : σ × Buffer => P s.1) (copyPayload record length) := by
  refine .bind .get fun s => .bind (.onFirst (hP.readPage ..)) fun page => ?_
  refine .bind (.ofExcept _) fun header => .bind (keeps_fillBuffer ..) fun _ => ?_
  exact .bind (keeps_copyPieces hP ..) fun sum => .ite (.throw _) (.pure ())

theorem keeps_readRecord (record : ObjectId) :
    Keeps (fun s : σ × Buffer => P s.1) (readRecord record) := by
  refine .bind (.onFirst (hP.stat record)) fun stat => .ite (.bind (.throw _) fun _ => ?_) ?_
  all_goals
    refine .bind .get fun s => ?_
    split
    . exact .pure _
    . have hcopy := (keeps_copyPayload hP record (stat.size - Record.headerSize)).bind
        fun _ => .pure (stat.size - Record.headerSize)
      exact .ite (.bind (.throw _) fun _ => hcopy) hcopy

end Value

section Bulk

theorem keeps_chownEntry (hP : KeptByLooking P)
    (hset : ∀ id change, Keeps P (ObjectStore.setAttr id change)) (dir : ObjectId) (change : AttrChange)
    (name : String) : Keeps P (chownEntry dir change name) :=
  .bind (hP.lookup dir name) fun _ => .bind (.ofOption ..) fun id => .bind (hP.stat id) fun _ =>
    .ite (.pure ()) (hset id change)

end Bulk

section Mount

variable (hP : KeptByAdding P)
include hP

theorem keeps_findPrivateRoot (flags : MountFlags) : Keeps P (findPrivateRoot flags) :=
  .bind .get fun _ => .bind (keeps_findDirectory (hP.lookup ..) (fun _ => hP.mkdir ..) _) fun id =>
    .bind (hP.markPrivate id) fun _ => .pure id

end Mount

end Volume

end AttrTree
