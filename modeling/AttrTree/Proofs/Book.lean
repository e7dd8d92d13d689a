import AttrTree.Proofs.PrivateTree

/-!
This module contains the books that a store keeps for its objects. The book of an object has the names of
its attributes in the order in which they came, each with the bytes of its record.
-/

namespace AttrTree

abbrev Book := List (String × Bytes)

namespace Book

variable {book : Book} {name n : String} {content : Bytes} {p : String → Bool}

def names (book : Book) : List String :=
  book.map Prod.fst

def content? (book : Book) (name : String) : Option Bytes :=
  (book.find? (·.1 == name)).map Prod.snd

def put (book : Book) (name : String) (content : Bytes) : Book :=
  if (book.content? name).isSome then
    book.map fun entry => if entry.1 = name then (name, content) else entry
  else
    book ++ [(name, content)]

def without (book : Book) (name : String) : Book :=
  book.filter (·.1 != name)

def only (p : String → Bool) (book : Book) : Book :=
  book.filter fun entry => p entry.1

theorem mem_names_iff : n ∈ book.names ↔ (book.content? n).isSome = true := by
  simp [names, content?]

theorem content?_only (hname : p name = true) (book : Book) :
    (book.only p).content? name = book.content? name := by
  have hsame (entry : String × Bytes) :
      decide (p entry.1 = true ∧ (entry.1 == name) = true) = (entry.1 == name) := by
    by_cases heq : entry.1 = name
    . simp [heq, hname]
    . simp [heq]
  simp only [content?, only, List.find?_filter, hsame]

theorem only_put (hname : p name = true) (book : Book) (content : Bytes) :
    (book.put name content).only p = (book.only p).put name content := by
  simp only [put, content?_only hname]
  split
  . simp only [only, List.filter_map]
    congr 1
    apply List.filter_congr
    intro entry _
    simp only [Function.comp_apply]
    split
    . next heq => rw [heq]
    . rfl
  . simp [only, hname]

theorem only_put_of_not (hname : p name = false) (book : Book) (content : Bytes) :
    (book.put name content).only p = book.only p := by
  unfold put
  split
  . have hkept : ∀ entry ∈ book.only p, (if entry.1 = name then (name, content) else entry) = entry := by
      intro entry hmem
      rw [if_neg]
      rintro rfl
      simp [only, hname] at hmem
    have hsame : ((p ·.1) ∘ fun entry : String × Bytes =>
        if entry.1 = name then (name, content) else entry) = (p ·.1) := by
      funext entry
      by_cases heq : entry.1 = name
      . simp [heq]
      . simp [heq]
    rw [only, List.filter_map, hsame]
    exact (List.map_congr_left hkept).trans (List.map_id _)
  . simp [only, hname]

theorem without_eq_self (h : book.content? name = none) : book.without name = book := by
  simp only [content?, Option.map_eq_none_iff, List.find?_eq_none, beq_iff_eq] at h
  exact List.filter_eq_self.mpr fun entry hmem => bne_iff_ne.mpr (h entry hmem)

theorem content?_without (book : Book) (name n : String) :
    (book.without name).content? n = if n = name then none else book.content? n := by
  have hsame (entry : String × Bytes) : decide ((entry.1 != name) = true ∧ (entry.1 == n) = true) =
      (decide (n ≠ name) && entry.1 == n) := by
    by_cases heq : entry.1 = n <;> simp [heq]
  simp only [content?, without, List.find?_filter, hsame]
  split
  . next heq => simp [heq]
  . next hne => simp [hne]

theorem content?_put (book : Book) (name n : String) (content : Bytes) :
    (book.put name content).content? n = if n = name then some content else book.content? n := by
  unfold put
  split
  . next hknown =>
    let f (entry : String × Bytes) := if entry.1 = name then (name, content) else entry
    have hsame : ((·.1 == n) ∘ f) = fun entry : String × Bytes => entry.1 == n := by
      funext entry
      by_cases heq : entry.1 = name <;> simp [f, heq]
    have hmap : Book.content? (book.map f) n =
        (book.find? (·.1 == n)).map fun entry => (f entry).2 := by
      rw [content?, List.find?_map, hsame, Option.map_map]
      rfl
    refine hmap.trans ?_
    rw [content?, Option.isSome_map] at hknown
    cases hfind : book.find? (·.1 == n) with
    | none =>
      rw [if_neg, content?, hfind]
      . rfl
      . rintro rfl
        simp [hfind] at hknown
    | some entry =>
      obtain rfl : entry.1 = n := by simpa using List.find?_some hfind
      simp only [content?, hfind, Option.map_some, f]
      split <;> rfl
  . next hunknown =>
    rw [content?, Option.isSome_map, Option.not_isSome_iff_eq_none] at hunknown
    rw [content?, List.find?_append]
    by_cases heq : n = name
    . simp [heq, hunknown]
    . simp [content?, heq, Ne.symm heq]

theorem only_without (p : String → Bool) (book : Book) (name : String) :
    (book.without name).only p = (book.only p).without name := by
  simp only [only, without, List.filter_filter, Bool.and_comm]

theorem names_only (p : String → Bool) (book : Book) :
    (book.only p).names = book.names.filter p := by
  simp [names, only, List.filter_map, Function.comp_def]

end Book

def Body.content? : Body → Option Bytes
  | .file content => some content
  | .directory _ => none

namespace MemStore

variable {store store' : MemStore} {priv id dir : ObjectId} {key : ObjectKey} {name n : String}
  {d : Directory} {e : DirEntry} {object : MemObject} {parent : ObjectId} {content : Bytes}

def content? (store : MemStore) (id : ObjectId) : Option Bytes :=
  (store.object? id).bind (·.body.content?)

def bookOf (store : MemStore) (d : Directory) : Book :=
  d.ordinary.map fun e => (e.name, (store.content? e.target).getD [])

def book (store : MemStore) (priv : ObjectId) (key : ObjectKey) : Book :=
  ((store.attrDir? priv key).bind store.directory?).elim [] store.bookOf

theorem content?_of_object? (hobject : store.object? id = some object)
    (hbody : object.body = .file content) : store.content? id = some content := by
  simp [content?, hobject, hbody, Body.content?]

theorem content?_eq_some_iff :
    store.content? id = some content ↔
      ∃ object, store.object? id = some object ∧ object.body = .file content := by
  have hfile (body : Body) : body.content? = some content ↔ body = .file content := by
    cases body <;> simp [Body.content?]
  simp [content?, Option.bind_eq_some_iff, hfile]

theorem content?_congr (h : store'.object? id = store.object? id) :
    store'.content? id = store.content? id := by
  rw [content?, h, content?]

theorem book_of_none (h : store.attrDir? priv key = none) : store.book priv key = [] := by
  simp [book, h]

theorem book_of_some (h : store.attrDir? priv key = some dir) (hdir : store.directory? dir = some d) :
    store.book priv key = store.bookOf d := by
  simp [book, h, hdir]

theorem bookOf_congr (h : ∀ e ∈ d.ordinary, store'.content? e.target = store.content? e.target) :
    store'.bookOf d = store.bookOf d :=
  List.map_congr_left fun e he => by rw [h e he]

theorem names_bookOf (store : MemStore) (d : Directory) :
    (store.bookOf d).names = d.ordinary.map (·.name) := by
  simp [bookOf, Book.names]

theorem content?_bookOf (hwf : d.WellFormed dir parent) (hname : EntryName.isDots name = false) :
    (store.bookOf d).content? name =
      (d.find? name).map fun e => (store.content? e.target).getD [] := by
  rw [hwf.find?_eq hname, Book.content?, bookOf, List.find?_map, Option.map_map]
  rfl

theorem bookOf_insert (hwf : d.WellFormed dir parent) (hname : EntryName.isDots name = false)
    (hfree : d.find? name = none) (hcontent : store'.content? id = some content)
    (hold : ∀ e ∈ d.ordinary, store'.content? e.target = store.content? e.target) :
    store'.bookOf (d.insert name id) = (store.bookOf d).put name content := by
  rw [Book.put, content?_bookOf hwf hname, hfree, if_neg (by simp), ← bookOf_congr hold]
  simp [bookOf, Directory.ordinary_insert hwf.first_le, hcontent]

theorem bookOf_remove (hwf : d.WellFormed dir parent) (hmem : e ∈ d.ordinary)
    (hold : ∀ e' ∈ d.ordinary, e'.name ≠ e.name →
      store'.content? e'.target = store.content? e'.target) :
    store'.bookOf (d.remove e.offset) = (store.bookOf d).without e.name := by
  have hplace {e' : DirEntry} (hmem' : e' ∈ d.ordinary) : e'.offset = e.offset ↔ e'.name = e.name := by
    have hentries := Directory.mem_entries_of_mem_ordinary hmem
    have hentries' := Directory.mem_entries_of_mem_ordinary hmem'
    constructor
    . exact fun hoffset => congrArg _ (hwf.eq_of_offset hentries' hentries hoffset)
    . exact fun hname => congrArg _ (hwf.eq_of_name hentries' hentries hname)
  have hkept : d.ordinary.filter (·.offset != e.offset) = d.ordinary.filter (·.name != e.name) := by
    apply List.filter_congr
    intro e' hmem'
    rw [Bool.eq_iff_iff, bne_iff_ne, bne_iff_ne, ne_eq, hplace hmem']
  rw [bookOf, bookOf, Directory.ordinary_remove, hkept, Book.without, List.filter_map]
  apply List.map_congr_left
  intro e' hmem'
  obtain ⟨hmem', hne⟩ := List.mem_filter.mp hmem'
  rw [hold e' hmem' (by simpa using hne)]

theorem bookOf_put (hwf : d.WellFormed dir parent) (hmem : e ∈ d.ordinary)
    (hcontent : store'.content? e.target = some content)
    (hold : ∀ e' ∈ d.ordinary, e'.name ≠ e.name →
      store'.content? e'.target = store.content? e'.target) :
    store'.bookOf d = (store.bookOf d).put e.name content := by
  have hentries := Directory.mem_entries_of_mem_ordinary hmem
  have hknown : ((store.bookOf d).content? e.name).isSome = true := by
    rw [content?_bookOf hwf (hwf.isDots_of_mem hmem), hwf.find?_name hentries]
    rfl
  rw [Book.put, if_pos hknown, bookOf, bookOf, List.map_map]
  apply List.map_congr_left
  intro e' hmem'
  by_cases hname : e'.name = e.name
  . obtain rfl := hwf.eq_of_name (Directory.mem_entries_of_mem_ordinary hmem') hentries hname
    simp [hcontent]
  . simp [hname, hold e' hmem' hname]

end MemStore

end AttrTree
