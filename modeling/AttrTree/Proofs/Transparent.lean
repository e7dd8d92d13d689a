import AttrTree.Proofs.Coherence
import AttrTree.Proofs.Tree
import AttrTree.Proofs.Visits

/-!
This module contains that the cache of a volume cannot be told from outside. A run is compared with
the same run of a volume without a cache: every call answers the same and leaves the same store,
unless someone takes directories out of the attribute root behind the volume's back.
-/

namespace AttrTree

namespace MemStore

open Action

variable {store : MemStore} {id dir : ObjectId} {name : String}

theorem lookup_of_child? (h : store.child? dir name = some id) :
    store.lookup dir name = .ok (some id) := by
  obtain ⟨d, e, hdir, hfind, rfl⟩ := child?_eq_some_iff.mp h
  have hget := getDirectory_eq_ok_iff.mpr hdir
  simp [MemStore.lookup, hget, hfind, bind, Except.bind, pure, Except.pure]

def KeepsEntries (store store' : MemStore) (dir : ObjectId) : Prop :=
  ∀ ⦃n id⦄, EntryName.isDots n = false → store.child? dir n = some id → store'.child? dir n = some id

def Op.SparesDirectory (dir : ObjectId) : Op → Prop
  | unlink parent _ => parent ≠ dir
  | rmdir parent _ => parent ≠ dir
  | _ => True

theorem keepsEntries_perform (base : MemStore) {op : Op} (hop : op.SparesDirectory dir) :
    Keeps (fun store => store.Linked ∧ base.KeepsEntries store dir) op.perform := by
  have hgains : KeptByGains (base.KeepsEntries · dir) :=
    keptByGains fun _ _ hkeeps h n id hn hchild => hkeeps hn (h hn hchild)
  have hdetach {store : MemStore} {parent : ObjectId} {owner target : MemObject} {d : Directory}
      {e : DirEntry} (hne : parent ≠ dir) (hleaf : store.IsLeaf parent owner d e target)
      (hs : store.Linked ∧ base.KeepsEntries store dir) :
      (store.detach parent e target).Linked
        ∧ base.KeepsEntries (store.detach parent e target) dir := by
    refine ⟨hs.1.detach hleaf, fun n id hn h => ?_⟩
    rw [child?_detach hs.1 hleaf hn, if_neg fun hplace => hne hplace.1.symm]
    exact hs.2 hn h
  apply op.keeps_of_keptByGains hgains
  . rintro parent name rfl
    refine .update fun store store' hok hs => ?_
    obtain ⟨owner, d, e, target, hleaf, _, _, rfl⟩ := hs.1.unlink_cases hok
    exact hdetach hop hleaf hs
  . rintro parent name rfl
    refine .update fun store store' hok hs => ?_
    rcases hs.1.rmdir_cases hok with
      ⟨_, owner, d, howner, hbody, hempty, rfl⟩ | ⟨_, owner, d, e, target, hleaf, _, _, rfl⟩
    . refine ⟨hs.1.eraseObject howner hbody hempty, fun n id hn h => ?_⟩
      rw [child?_eq, object?_eraseObject, if_neg (Ne.symm hop), ← child?_eq]
      exact hs.2 hn h
    . exact hdetach hop hleaf hs

end MemStore

namespace Volume

open Action MemStore

inductive Reply where
  | done (result : Except Error Unit)
  | number (result : Except Error Nat) (buffer : Buffer)
  | scanned (result : Except Error (List (Except Error (Option ScanItem) × Nat) × Scan))
  | visited (result : Except Error Unit) (items : List ScanItem)

namespace Op

def storeVisit (visit : ScanItem → List MemStore.Op) (item : ScanItem) :
    Action (Volume MemStore × Unit) Unit :=
  Action.onFirst (onStore (performAll (visit item)))

def number (act : Action (Volume MemStore × Buffer) Nat) (buffer : Buffer)
    (volume : Volume MemStore) : Reply :=
  .number (act.result (volume, buffer)) (act.after (volume, buffer)).2

def reply (op : Op) (volume : Volume MemStore) : Reply :=
  match op with
  | getAttribute registry obj name buffer =>
    number (Volume.getAttribute registry obj name) buffer volume
  | listAttributes registry obj buffer =>
    number (Volume.listAttributes registry obj) buffer volume
  | readValue obj name buffer => number (Volume.readValue obj name) buffer volume
  | getHandled handler obj name buffer => number (handler.getValue obj name) buffer volume
  | scan dir position limit => .scanned ((scanDirectory dir position limit).result volume)
  | forEachEntry dir visit =>
    .visited ((forEachEntry dir visit).perform.result volume)
      ((entryVisits dir (storeVisit visit) (volume, ())).map Prod.fst)
  | op => .done (op.perform.result volume)

def uncached : Op → Op
  | renew options _ => renew options 0
  | op => op

def directSteps (op : Op) (volume : Volume MemStore) : List (Volume MemStore × Volume MemStore) :=
  match op with
  | store _ => [(volume, op.perform.after volume)]
  | forEachEntry dir visit =>
    (entryVisits dir (storeVisit visit) (volume, ())).map fun (item, s) =>
      (s.1, ((storeVisit visit item).after s).1)
  | _ => []

end Op

def KeepsAttrEntries (volume rest : Volume MemStore) : Prop :=
  ∀ ⦃root⦄, volume.attrRoot = some root → volume.store.KeepsEntries rest.store root

def SparesEntries : List Op → Volume MemStore → Prop
  | [], _ => True
  | op :: ops, volume =>
    (∀ step ∈ op.directSteps volume, step.1.KeepsAttrEntries step.2)
      ∧ SparesEntries ops (op.perform.after volume)

def replies : List Op → Volume MemStore → List Reply
  | [], _ => []
  | op :: ops, volume => op.reply volume :: replies ops (op.perform.after volume)

variable {volume rest : Volume MemStore} {op : Op} {ops ops' : List Op}

section Step

theorem KeepsAttrEntries.coherent {store : MemStore} (h : volume.KeepsAttrEntries { volume with store })
    (hs : volume.Coherent) (hlinked : store.Linked) : Coherent { volume with store } :=
  ⟨hlinked, hs.2.withStore fun key _ _ _ hroot hchild => h hroot key.isDots_text hchild⟩

theorem keeps_linked (op : MemStore.Op) : Keeps MemStore.Linked op.perform := by
  have hsteps : KeptBySteps fun _ => True := fun _ _ _ => trivial
  have hkeeps := op.keeps_of_keptBySteps hsteps (.inr fun _ _ _ _ hs => hs)
  exact ⟨fun store hs => (hkeeps.holds store ⟨hs, trivial⟩).1⟩

theorem after_storeVisit (visit : ScanItem → List MemStore.Op) (item : ScanItem)
    (s : Volume MemStore × Unit) : (Op.storeVisit visit item).after s =
      ({ s.1 with store := (performAll (visit item)).after s.1.store }, s.2) := by
  obtain ⟨volume, b⟩ := s
  unfold after Op.storeVisit onFirst onStore focus
  cases hrun : performAll (visit item) volume.store <;> simp only [hrun]

theorem follows_storeVisit (visit : ScanItem → List MemStore.Op) (item : ScanItem) :
    Follows (Prod.map Volume.uncached id) (fun _ => True) (Op.storeVisit visit item) :=
  @Follows.onFirst _ _ _ Volume.uncached (fun _ => True) _
    (follows_onStore fun _ => ⟨fun _ _ => trivial⟩)

theorem Op.follows_forEachEntry (dir : ObjectId) (visit : ScanItem → List MemStore.Op) :
    Follows Volume.uncached (fun _ => True) (forEachEntry dir visit).perform :=
  @Follows.withSecond _ _ _ Volume.uncached (fun _ => True) _ ()
    (@Volume.follows_forEachEntry _ _ (fun _ => .empty 0) (fun _ => True) _ (fun _ => .of_true)
      dir _ fun _ _ _ => .onFirst (follows_onStore fun _ => ⟨fun _ hs => hs⟩))

theorem Op.follows_perform_coherent (hcall : op.isCall = true) :
    Follows Volume.uncached Coherent op.perform :=
  Op.follows_perform followedByParts_coherent.managing (follows_writeValue followedByParts_coherent)
    follows_deleteAttributes_coherent hcall

theorem Op.run_uncached (hs : volume.Coherent) (op : Op) :
    op.uncached.perform volume.uncached = onResult Volume.uncached (op.perform volume) := by
  by_cases hcall : op.isCall = true
  . have hfollows := Op.follows_perform_coherent hcall
    cases op <;> first | exact hfollows.run volume hs | cases hcall
  . cases op with
    | store op => exact onStore_recached ..
    | renew options cacheCapacity => rfl
    | forEachEntry dir visit => exact (Op.follows_forEachEntry dir visit).run volume trivial
    | _ => exact absurd rfl hcall

theorem after_uncached (hs : volume.Coherent) (op : Op) :
    op.uncached.perform.after volume.uncached = (op.perform.after volume).uncached := by
  unfold after
  rw [op.run_uncached hs]
  cases op.perform volume <;> rfl

theorem Op.forall_directSteps {P : MemStore → Prop} {R : MemStore → MemStore → Prop} {Q : MemStore.Op → Prop}
    (hlooking : KeptByLooking P) (hstart : ∀ ⦃store⦄, P store → R store store)
    (hend : ∀ ⦃base store⦄, R base store → P store) (hQ : ∀ base op, Q op → Keeps (R base) op.perform)
    (hop : op.All Q) (h : P volume.store) :
    ∀ step ∈ op.directSteps volume, R step.1.store step.2.store := by
  cases op with
  | store op =>
    refine List.forall_mem_singleton.mpr ?_
    rw [perform, after_onStore]
    exact (hQ _ op hop).holds volume.store (hstart h)
  | forEachEntry dir visit =>
    have hvisit (item : ScanItem) (s : Volume MemStore × Unit) (hs : P s.1.store) :
        R s.1.store ((storeVisit visit item).after s).1.store := by
      rw [after_storeVisit]
      exact (keeps_performAll fun op hmem => hQ _ op (hop item op hmem)).holds s.1.store (hstart hs)
    refine List.forall_mem_map.mpr fun ⟨item, s⟩ hv => hvisit item s ?_
    exact @forall_entryVisits _ _ _ (fun volume => P volume.store) _ _ (fun _ => hlooking) (fun _ _ h => h) dir
      h (fun item s hs => hend (hvisit item s hs)) _ hv
  | _ => simp [directSteps]

theorem keptByLooking_linked : KeptByLooking MemStore.Linked := by
  have hadding : KeptByAdding MemStore.Linked := by
    simpa using keptByAdding (P := fun _ => True) fun _ _ _ _ h => h
  exact hadding.toKeptByLooking

theorem Op.linked_directSteps (hlinked : volume.store.Linked) (op : Op) :
    ∀ step ∈ op.directSteps volume, step.2.store.Linked :=
  @Op.forall_directSteps _ op MemStore.Linked (fun _ store => store.Linked) (fun _ => True)
    keptByLooking_linked (fun _ h => h) (fun _ _ h => h) (fun _ op _ => keeps_linked op)
    (by cases op <;> simp [All]) hlinked

theorem Op.holds_perform {P : Volume MemStore → Prop}
    (hlooking : ∀ volume : Volume MemStore, KeptByLooking fun store => P { volume with store })
    (hlocks : ∀ (volume : Volume MemStore) locks, P volume → P { volume with locks })
    (hcall : op.isCall = true → Keeps P op.perform)
    (hrenew : ∀ (volume : Volume MemStore) options capacity, P volume → P (unmounted volume.store options capacity))
    (hsteps : ∀ step ∈ op.directSteps volume, P step.1 → P { step.1 with store := step.2.store })
    (h : P volume) : P (op.perform.after volume) := by
  by_cases hop : op.isCall = true
  . exact (hcall hop).holds volume h
  . cases op with
    | store op =>
      have hstep := hsteps _ (List.mem_singleton_self _) h
      rw [perform, after_onStore] at hstep ⊢
      exact hstep
    | renew options cacheCapacity => exact hrenew volume options cacheCapacity h
    | forEachEntry dir visit =>
      have hrun : (forEachEntry dir visit).perform.after volume =
          ((Volume.forEachEntry dir (storeVisit visit)).after (volume, ())).1 :=
        after_withSecond ..
      rw [hrun]
      refine forEachEntry_keeps hlooking hlocks dir h fun ⟨item, s⟩ hv hs => ?_
      have hstep := hsteps _ (List.mem_map_of_mem hv) hs
      simp only [after_storeVisit] at hstep ⊢
      exact hstep
    | _ => exact absurd rfl hop

theorem Op.coherent_perform (hs : volume.Coherent)
    (hspares : ∀ step ∈ op.directSteps volume, step.1.KeepsAttrEntries step.2) :
    (op.perform.after volume).Coherent := by
  refine Op.holds_perform followedByParts_coherent.looking (fun _ _ h => h)
    (fun hcall => (Op.follows_perform_coherent hcall).keeps) (fun _ _ _ h => ⟨h.1, nofun⟩)
    (fun step hstep hcoherent => ?_) hs
  have hlinked := Op.linked_directSteps hs.1 op step hstep
  exact (hspares step hstep).coherent hcoherent hlinked

theorem number_uncached {act : Action (Volume MemStore × Buffer) Nat} {buffer : Buffer}
    (h : Follows (Prod.map Volume.uncached id) (fun s => Coherent s.1) act) (hs : volume.Coherent) :
    Op.number act buffer volume.uncached = Op.number act buffer volume := by
  have hresult := h.result_eq (s := (volume, buffer)) hs
  have hafter := h.after_eq (s := (volume, buffer)) hs
  simp only [Prod.map, id_eq] at hresult hafter
  simp only [Op.number, hresult, hafter]

theorem Op.reply_uncached (hs : volume.Coherent) (op : Op) :
    op.uncached.reply volume.uncached = op.reply volume := by
  have hreading := followedByParts_coherent.toFollowedByReading
  have hresult : op.uncached.perform.result volume.uncached = op.perform.result volume := by
    unfold result
    rw [op.run_uncached hs]
    cases op.perform volume <;> rfl
  cases op with
  | getAttribute registry obj name buffer =>
    exact number_uncached (follows_getAttribute hreading registry obj name) hs
  | listAttributes registry obj buffer =>
    exact number_uncached (follows_listAttributes hreading registry obj) hs
  | readValue obj name buffer => exact number_uncached (follows_readValue hreading obj name) hs
  | getHandled handler obj name buffer =>
    exact number_uncached (follows_getValue hreading handler obj name) hs
  | scan dir position limit =>
    exact congrArg Reply.scanned
      ((follows_scanDirectory hreading.looking dir position limit).result_eq hs)
  | forEachEntry dir visit =>
    refine congrArg₂ Reply.visited hresult ?_
    have hvisits := entryVisits_recached (follows_storeVisit visit) dir (volume, ())
    exact (congrArg (List.map Prod.fst) hvisits).trans (by rw [List.map_map]; rfl)
  | _ => exact congrArg Reply.done hresult

theorem Op.directSteps_uncached (op : Op) (volume : Volume MemStore) :
    op.uncached.directSteps volume.uncached =
      (op.directSteps volume).map (Prod.map Volume.uncached Volume.uncached) := by
  cases op with
  | store op =>
    simp only [directSteps, uncached, perform, after_onStore]
    rfl
  | forEachEntry dir visit =>
    have hvisits := entryVisits_recached (follows_storeVisit visit) dir (volume, ())
    refine (congrArg (List.map _) hvisits).trans ?_
    simp only [directSteps, List.map_map]
    refine List.map_congr_left fun v _ => ?_
    simp [after_storeVisit, Volume.uncached, recached]
  | _ => rfl

end Step

section Spares

theorem sparesEntries_of_all (hlinked : volume.store.Linked)
    (h : ∀ op ∈ ops, op.All fun op => ∀ dir, op.SparesDirectory dir) : SparesEntries ops volume := by
  induction ops generalizing volume with
  | nil => trivial
  | cons op ops ih =>
    obtain ⟨hop, hops⟩ := List.forall_mem_cons.mp h
    refine ⟨fun step hstep root _ => ?_, ih (linked_run [op] hlinked) hops⟩
    have hkeeps (base : MemStore) (op : MemStore.Op) (hop : ∀ dir, op.SparesDirectory dir) :=
      keepsEntries_perform base (hop root)
    have hsteps := Op.forall_directSteps keptByLooking_linked (fun _ h => ⟨h, fun _ _ _ h => h⟩)
      (fun _ _ h => h.1) hkeeps hop hlinked
    exact (hsteps step hstep).2

end Spares

section Run

theorem sparesEntries_uncached (hs : volume.Coherent) :
    SparesEntries (ops.map Op.uncached) volume.uncached ↔ SparesEntries ops volume := by
  induction ops generalizing volume with
  | nil => rfl
  | cons op ops ih =>
    have hstep : (∀ step ∈ op.uncached.directSteps volume.uncached, step.1.KeepsAttrEntries step.2) ↔
        ∀ step ∈ op.directSteps volume, step.1.KeepsAttrEntries step.2 := by
      rw [op.directSteps_uncached, List.forall_mem_map]
      rfl
    rw [List.map_cons, SparesEntries, SparesEntries, hstep]
    refine and_congr_right fun hspares => ?_
    rw [after_uncached hs op]
    exact ih (Op.coherent_perform hs hspares)

theorem run_uncached (hs : volume.Coherent) (hspares : SparesEntries ops volume) :
    replies (ops.map Op.uncached) volume.uncached = replies ops volume
      ∧ run (ops.map Op.uncached) volume.uncached = (run ops volume).uncached
      ∧ (run ops volume).Coherent := by
  induction ops generalizing volume with
  | nil => exact ⟨rfl, rfl, hs⟩
  | cons op ops ih =>
    obtain ⟨hstep, hspares⟩ := hspares
    obtain ⟨hreplies, hrun, hend⟩ := ih (Op.coherent_perform hs hstep) hspares
    simp only [List.map_cons, replies, run, List.foldl_cons, after_uncached hs op,
      op.reply_uncached hs]
    exact ⟨congrArg _ hreplies, hrun, hend⟩

variable {pageSize : Nat} {format : ObjectFormat} {h : Record.headerSize < pageSize}
  {options : MountOptions} {capacity capacity' : Nat}

theorem coherent_initial : (initial pageSize format h options capacity).Coherent :=
  ⟨linked_empty .., nofun⟩

theorem cache_transparent (hops : ops'.map Op.uncached = ops.map Op.uncached)
    (hspares : SparesEntries ops (initial pageSize format h options capacity)) :
    replies ops' (initial pageSize format h options capacity') =
        replies ops (initial pageSize format h options capacity)
      ∧ (run ops' (initial pageSize format h options capacity')).store =
        (run ops (initial pageSize format h options capacity)).store
      ∧ ∀ key dir, (run ops (initial pageSize format h options capacity)).cache.peek? key = some dir →
        ∃ root, (run ops (initial pageSize format h options capacity)).attrRoot = some root
          ∧ (run ops (initial pageSize format h options capacity)).store.lookup root key.text =
            .ok (some dir) := by
  have hs : (initial pageSize format h options capacity).Coherent := coherent_initial
  have hs' : (initial pageSize format h options capacity').Coherent := coherent_initial
  have hview : (initial pageSize format h options capacity').uncached =
      (initial pageSize format h options capacity).uncached := rfl
  have hspares' : SparesEntries ops' (initial pageSize format h options capacity') := by
    rw [← sparesEntries_uncached hs', hops, hview]
    exact (sparesEntries_uncached hs).mpr hspares
  obtain ⟨hreplies, hrun, hend⟩ := run_uncached hs hspares
  obtain ⟨hreplies', hrun', _⟩ := run_uncached hs' hspares'
  rw [hops, hview] at hreplies' hrun'
  have hstore := congrArg Volume.store (hrun'.symm.trans hrun)
  refine ⟨hreplies'.symm.trans hreplies, hstore, ?_⟩
  intro key dir hpeek
  obtain ⟨_, root, hroot, hchild⟩ := hend.2 hpeek
  exact ⟨root, hroot, lookup_of_child? hchild⟩

def handedOver (capacity : Nat) : List Op :=
  [.mount ⟨false⟩, .store (.create 1 "f" 0o644),
    .setAttribute .standard 3 "user.a" [1, 2] .none,
    .getAttribute .standard 3 "user.a" (some [0, 0]),
    .store .planRmdirFault, .removeAttribute .standard 3 "user.a",
    .forEachEntry 1 fun item => [.setVisible 1 item.name false],
    .writeValue 3 "user.b" [3] .none,
    .renew .optional capacity, .mount ⟨true⟩, .readValue 3 "user.b" (some [0])]

theorem cache_transparent_handedOver :
    let volume := initial 16 .current (by decide) .optional 64
    let volume' := initial 16 .current (by decide) .optional 0
    (run ((handedOver 1).take 8) volume).cache.hits = 3
      ∧ replies (handedOver 0) volume' = replies (handedOver 1) volume
      ∧ (run (handedOver 0) volume').store = (run (handedOver 1) volume).store
      ∧ (run (handedOver 1) volume).cache.peek? ⟨3, 2⟩ = some 5
      ∧ ∃ root, (run (handedOver 1) volume).attrRoot = some root
        ∧ (run (handedOver 1) volume).store.lookup root (ObjectKey.text ⟨3, 2⟩) = .ok (some 5) := by
  intro volume volume'
  have hops : (handedOver 0).map Op.uncached = (handedOver 1).map Op.uncached := rfl
  have hspares : SparesEntries (handedOver 1) volume := by
    refine sparesEntries_of_all (linked_empty ..) ?_
    simp [handedOver, Op.All, MemStore.Op.SparesDirectory]
  have hpeek : (run (handedOver 1) volume).cache.peek? ⟨3, 2⟩ = some 5 := by decide +kernel
  obtain ⟨hreplies, hstore, hcached⟩ :=
    @cache_transparent _ _ 16 .current (by decide) .optional 64 0 hops hspares
  exact ⟨by decide +kernel, hreplies, hstore, hpeek, hcached ⟨3, 2⟩ 5 hpeek⟩

end Run

end Volume

end AttrTree
