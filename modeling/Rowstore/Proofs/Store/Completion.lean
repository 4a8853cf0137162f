import Mathlib
import Rowstore.Proofs.Store.Paging
import Rowstore.Proofs.Store.Writable

/-!
# The end of a transaction

A transaction ends with all of its pages written, or with all of them given up, in any order:
`Store.complete_of_arises`. It holds nothing then and has marked no page. Nothing else changes, in
memory or on the disk: what others hold, the other pages, the lengths of the files, and all bytes
but those in the places of the pages that are written. A page whose table was replaced has nowhere
to go and is given up in either case.

* `Store.Flushed` says what it comes to that marked pages are written one after another. It is found
  page by page: `Store.Writable.flushPage` and `Store.Flushed.cons`.
* `Store.Dropped` says the same of pages that leave the pool unwritten.
-/

namespace Rowstore

namespace Store

variable {s t u : Store} {id : PageId} {ids : List PageId} {page : Page} {tx : TxId} {f : HeapFile}

/-! ### Writing the pages of a transaction -/

/-- Pages were written, and nothing else changed. Those of tables that are not registered are given
up. -/
structure Flushed (s : Store) (ids : List PageId) (t : Store) : Prop where
  writable : t.Writable
  catalog_eq : t.catalog = s.catalog
  holds_eq : t.pool.holds = s.pool.holds
  page?_eq : ∀ id, id ∉ ids → t.pool.page? id = s.pool.page? id
  given_up : ∀ id ∈ ids, (∀ f, s.catalog.file id.table ≠ .ok f) → t.pool.page? id = none
  written : ∀ id ∈ ids, ∀ (page : Page) (f : HeapFile), s.pool.page? id = some page →
    s.catalog.file id.table = .ok f → t.pool.page? id = some (page.mark none) ∧
      ∃ read, f.readPage t.disk id = .ok read ∧ read.Agrees (page.mark none)
  size_eq : ∀ name, (t.disk.file name).size = (s.disk.file name).size
  covers : ∀ (name : String) (offset : Nat),
    (t.disk.contents name)[offset]? ≠ (s.disk.contents name)[offset]? →
      ∃ id ∈ ids, ∃ f, s.catalog.file id.table = .ok f ∧ f.Covers id name offset

/-- No pages are written. -/
theorem Writable.flushed_nil (h : s.Writable) : s.Flushed [] s where
  writable := h
  catalog_eq := rfl
  holds_eq := rfl
  page?_eq := fun _ _ => rfl
  given_up := nofun
  written := nofun
  size_eq := fun _ => rfl
  covers := fun _ _ hne => absurd rfl hne

/-- Writing a marked page of the pool succeeds, and changes that page only. -/
theorem Writable.flushPage (h : s.Writable) (hpage : s.pool.page? id = some page)
    (hdirty : page.isDirty) : ∃ t, s.flushPage id = .ok t ∧ s.Flushed [id] t := by
  obtain ⟨hmem, rfl⟩ := Pool.mem_of_page? hpage
  unfold Store.flushPage
  rw [hpage]
  cases hfile : s.catalog.file page.id.table with
  | error cause =>
    refine ⟨_, rfl, stable_writable.discard _ h, rfl, rfl, fun other hother => ?_,
      fun other hother _ => ?_, fun other hother _ f _ hf => ?_, fun _ => rfl,
      fun _ _ hne => absurd rfl hne⟩
    · rw [Store.discard, Pool.page?_discard, if_neg (List.ne_of_not_mem_cons hother)]
    · rw [Store.discard, Pool.page?_discard, if_pos (List.mem_singleton.1 hother)]
    · rw [List.mem_singleton.1 hother, hfile] at hf
      cases hf
  | ok f =>
    have hholds := h.holds page hmem f hfile
    obtain ⟨disk, hwrite, -⟩ := HeapFile.writePage_eq_ok hholds
    obtain ⟨hsize, hbytes⟩ := HeapFile.bytes_of_writePage hholds hwrite
    obtain ⟨read, hread, hagrees⟩ := HeapFile.read_of_writePage hholds hwrite
    have hextends := HeapFile.extends_of_writePage hwrite
    have hwritable := stable_writable.disk (stable_writable.mark none h hmem) hextends
    simp only [hdirty, if_true, hwrite]
    refine ⟨_, rfl, hwritable, rfl, rfl, fun other hother => ?_, fun other hother hnone => ?_,
      fun other hother old g hold hg => ?_, hsize, fun name offset hne => ?_⟩
    · exact (Pool.page?_put _ _).trans (if_neg (List.ne_of_not_mem_cons hother))
    · rw [List.mem_singleton.1 hother] at hnone
      exact absurd hfile (hnone f)
    · obtain rfl := List.mem_singleton.1 hother
      cases hpage.symm.trans hold
      cases hfile.symm.trans hg
      refine ⟨?_, read, hread, hagrees⟩
      show (s.pool.put (page.mark none)).page? page.id = _
      rw [Pool.page?_put, Page.id_mark, if_pos rfl, hpage]
      rfl
    · exact ⟨page.id, List.mem_singleton_self _, f, hfile, hbytes name offset hne⟩

/-- The bytes of a page that is not among those written stay as they are. -/
theorem Flushed.readPage (h : s.Flushed ids t) (hs : s.Writable)
    (hf : s.catalog.file id.table = .ok f) (hid : id ∉ ids) {read : Page}
    (hread : f.readPage s.disk id = .ok read) : f.readPage t.disk id = .ok read := by
  obtain ⟨haddr, hhas, hdecode⟩ := HeapFile.readPage_eq_ok_iff.1 hread
  have hhas' : f.Has t.disk id.number := by
    rw [HeapFile.Has, h.size_eq]
    exact hhas
  have hslice : f.slice t.disk id.number = f.slice s.disk id.number := by
    refine List.ext_getElem? fun i => ?_
    rw [HeapFile.slice, HeapFile.slice, List.getElem?_take, List.getElem?_take, List.getElem?_drop,
      List.getElem?_drop]
    split_ifs with hi
    · by_contra hne
      -- the byte is in the place of a page that was written, which is another one of the file
      obtain ⟨other, hother, g, hg, hname, hlow, hhigh⟩ := h.covers _ _ hne
      have htable := hs.files _ _ _ _ hf hg hname
      rw [htable, hg] at hf
      cases hf
      have hnumber : other.number ≠ id.number := by
        intro hnumber
        refine hid ?_
        have hsame : id = other := by
          cases id
          cases other
          cases htable
          cases hnumber
          rfl
        rw [hsame]
        exact hother
      have hdisjoint := @HeapFile.place_disjoint other.number id.number f.pageSize hnumber
      rw [PageId.offset] at hlow hhigh
      omega
    · rfl
  rw [← hslice] at hdecode
  exact HeapFile.readPage_eq_ok_iff.2 ⟨haddr, hhas', hdecode⟩

/-- A page is written and then others are. -/
theorem Flushed.cons (h : s.Flushed [id] t) (hrest : t.Flushed ids u) (hid : id ∉ ids) :
    s.Flushed (id :: ids) u where
  writable := hrest.writable
  catalog_eq := hrest.catalog_eq.trans h.catalog_eq
  holds_eq := hrest.holds_eq.trans h.holds_eq
  page?_eq := by
    intro other hother
    rw [hrest.page?_eq other (List.not_mem_of_not_mem_cons hother), h.page?_eq other]
    exact mt List.mem_singleton.1 (List.ne_of_not_mem_cons hother)
  given_up := by
    intro other hother hnone
    rcases List.mem_cons.1 hother with rfl | hother
    · rw [hrest.page?_eq other hid]
      exact h.given_up other (List.mem_singleton_self _) hnone
    · rw [← h.catalog_eq] at hnone
      exact hrest.given_up other hother hnone
  written := by
    intro other hother page f hpage hf
    have hf' : t.catalog.file other.table = .ok f := by rw [h.catalog_eq, hf]
    rcases List.mem_cons.1 hother with rfl | hother
    · obtain ⟨hclean, read, hread, hagrees⟩ :=
        h.written other (List.mem_singleton_self _) page f hpage hf
      refine ⟨?_, read, hrest.readPage h.writable hf' hid hread, hagrees⟩
      rw [hrest.page?_eq other hid, hclean]
    · have hne : other ≠ id := ne_of_mem_of_not_mem hother hid
      rw [← h.page?_eq other (mt List.mem_singleton.1 hne)] at hpage
      exact hrest.written other hother page f hpage hf'
  size_eq := fun name => (hrest.size_eq name).trans (h.size_eq name)
  covers := by
    intro name offset hne
    by_cases hlater : (u.disk.contents name)[offset]? = (t.disk.contents name)[offset]?
    · rw [hlater] at hne
      obtain ⟨other, hother, hcovers⟩ := h.covers name offset hne
      rw [List.mem_singleton.1 hother] at hcovers
      exact ⟨id, List.mem_cons_self, hcovers⟩
    · obtain ⟨other, hother, f, hf, hcovers⟩ := hrest.covers name offset hlater
      rw [h.catalog_eq] at hf
      exact ⟨other, List.mem_cons_of_mem _ hother, f, hf, hcovers⟩

/-- Writing pages that a transaction has marked succeeds. -/
theorem Writable.foldl_settle_commit (h : s.Writable) (hids : ids.Nodup)
    (hmark : ∀ id ∈ ids, s.mark id = some tx) :
    ∃ t, ids.foldl (settle true) (.ok (), s) = (.ok (), t) ∧ s.Flushed ids t := by
  induction ids generalizing s with
  | nil => exact ⟨s, rfl, h.flushed_nil⟩
  | cons id ids ih =>
    obtain ⟨hid, hids⟩ := List.nodup_cons.1 hids
    obtain ⟨page, hpage, hdirty⟩ := Option.bind_eq_some_iff.1 (hmark id List.mem_cons_self)
    obtain ⟨t, hflush, ht⟩ := h.flushPage hpage (by rw [Page.isDirty, hdirty]; rfl)
    have hrest : ∀ other ∈ ids, t.mark other = some tx := by
      intro other hother
      have hne : other ≠ id := ne_of_mem_of_not_mem hother hid
      rw [Store.mark, ht.page?_eq other (mt List.mem_singleton.1 hne)]
      exact hmark other (List.mem_cons_of_mem _ hother)
    obtain ⟨u, hfold, hu⟩ := ih ht.writable hids hrest
    refine ⟨u, ?_, ht.cons hu hid⟩
    rw [List.foldl_cons]
    simp only [settle, hflush, hfold]

/-! ### Giving up the pages of a transaction -/

/-- Pages have left the pool, and nothing else changed. -/
structure Dropped (s : Store) (ids : List PageId) (t : Store) : Prop where
  writable : t.Writable
  catalog_eq : t.catalog = s.catalog
  holds_eq : t.pool.holds = s.pool.holds
  page?_eq : ∀ id, t.pool.page? id = if id ∈ ids then none else s.pool.page? id
  disk_eq : t.disk = s.disk

/-- Giving up pages succeeds. -/
theorem Writable.foldl_settle_abort (h : s.Writable) (ids : List PageId) :
    ∃ t, ids.foldl (settle false) (.ok (), s) = (.ok (), t) ∧ s.Dropped ids t := by
  induction ids generalizing s with
  | nil => exact ⟨s, rfl, h, rfl, rfl, fun id => (if_neg List.not_mem_nil).symm, rfl⟩
  | cons id ids ih =>
    obtain ⟨t, hfold, ht⟩ := ih (stable_writable.discard id h)
    refine ⟨t, hfold, ht.writable, ht.catalog_eq, ht.holds_eq, fun other => ?_, ht.disk_eq⟩
    rw [ht.page?_eq, Store.discard, Pool.page?_discard]
    by_cases hid : other = id
    · simp [hid]
    · simp [hid]

/-! ### The end of a transaction -/

/-- End a transaction, its pages in some order. -/
def completeIn (s : Store) (tx : TxId) (commit : Bool) (ids : List PageId) : Outcome Store Unit :=
  ids.foldl (settle commit) (.ok (), { s with pool := s.pool.releaseAll tx })

/-- A transaction has ended, and nothing has changed but its holds and its pages. -/
structure Ended (s : Store) (tx : TxId) (commit : Bool) (t : Store) : Prop where
  catalog_eq : t.catalog = s.catalog
  isHeldBy_eq : ∀ other id,
    t.pool.isHeldBy other id = (s.pool.isHeldBy other id && decide (other ≠ tx))
  mark_ne : ∀ page ∈ t.pool.pages, page.dirtiedBy ≠ some tx
  page?_eq : ∀ id, s.mark id ≠ some tx → t.pool.page? id = s.pool.page? id
  /-- A page of a table that is not registered has left the pool; any other is clean, and its bytes
  on the disk read back as the page. -/
  committed : commit = true → ∀ (id : PageId) (page : Page), s.pool.page? id = some page →
    page.dirtiedBy = some tx → ((∀ f, s.catalog.file id.table ≠ .ok f) ∧ t.pool.page? id = none) ∨
      ∃ f read, s.catalog.file id.table = .ok f ∧ t.pool.page? id = some (page.mark none) ∧
        f.readPage t.disk id = .ok read ∧ read.Agrees (page.mark none)
  /-- No byte changes but in the places of the pages that were written. -/
  covers : commit = true → (∀ name, (t.disk.file name).size = (s.disk.file name).size) ∧
    ∀ (name : String) (offset : Nat),
      (t.disk.contents name)[offset]? ≠ (s.disk.contents name)[offset]? →
        ∃ id f, s.mark id = some tx ∧ s.catalog.file id.table = .ok f ∧ f.Covers id name offset
  aborted : commit = false → (∀ id, s.mark id = some tx → t.pool.page? id = none) ∧
    t.disk = s.disk

theorem nodup_dirtiedBy (h : s.pool.Distinct) (tx : TxId) : (s.dirtiedBy tx).Nodup :=
  (List.filter_sublist.map _).nodup h

/-- A transaction that commits has ended when its pages are written. -/
theorem Flushed.ended (hids : ∀ id, id ∈ ids ↔ s.mark id = some tx)
    (hflushed : Flushed { s with pool := s.pool.releaseAll tx } ids t) : s.Ended tx true t where
  catalog_eq := hflushed.catalog_eq
  isHeldBy_eq := by
    intro other id
    rw [Pool.isHeldBy, hflushed.holds_eq]
    exact s.pool.isHeldBy_releaseAll tx other id
  mark_ne := by
    intro page hpage hmark
    have hfound := hflushed.writable.pages.page?_of_mem hpage
    by_cases hid : page.id ∈ ids
    · obtain ⟨old, hold, -⟩ := Option.bind_eq_some_iff.1 ((hids page.id).1 hid)
      cases hfile : s.catalog.file page.id.table with
      | error cause =>
        rw [hflushed.given_up page.id hid (by simp [hfile])] at hfound
        cases hfound
      | ok f =>
        rw [(hflushed.written page.id hid old f hold hfile).1] at hfound
        cases hfound
        cases hmark
    · rw [hflushed.page?_eq page.id hid] at hfound
      exact hid ((hids page.id).2 ((mark_of_page? hfound).trans hmark))
  page?_eq := fun id hid => hflushed.page?_eq id fun hmem => hid ((hids id).1 hmem)
  committed := by
    intro _ id page hpage hmark
    have hid : id ∈ ids := (hids id).2 ((mark_of_page? hpage).trans hmark)
    cases hfile : s.catalog.file id.table with
    | error cause =>
      exact .inl ⟨by simp, hflushed.given_up id hid (by simp [hfile])⟩
    | ok f =>
      obtain ⟨hclean, read, hread, hagrees⟩ := hflushed.written id hid page f hpage hfile
      exact .inr ⟨f, read, rfl, hclean, hread, hagrees⟩
  covers := by
    intro _
    refine ⟨hflushed.size_eq, fun name offset hne => ?_⟩
    obtain ⟨id, hid, f, hf, hcovers⟩ := hflushed.covers name offset hne
    exact ⟨id, f, (hids id).1 hid, hf, hcovers⟩
  aborted := nofun

/-- A transaction that aborts has ended when its pages are given up. -/
theorem Dropped.ended (hids : ∀ id, id ∈ ids ↔ s.mark id = some tx)
    (hdropped : Dropped { s with pool := s.pool.releaseAll tx } ids t) : s.Ended tx false t where
  catalog_eq := hdropped.catalog_eq
  isHeldBy_eq := by
    intro other id
    rw [Pool.isHeldBy, hdropped.holds_eq]
    exact s.pool.isHeldBy_releaseAll tx other id
  mark_ne := by
    intro page hpage hmark
    have hfound := hdropped.writable.pages.page?_of_mem hpage
    rw [hdropped.page?_eq] at hfound
    split_ifs at hfound with hid
    exact hid ((hids page.id).2 ((mark_of_page? hfound).trans hmark))
  page?_eq := by
    intro id hid
    rw [hdropped.page?_eq, if_neg fun hmem => hid ((hids id).1 hmem)]
    rfl
  committed := nofun
  covers := nofun
  aborted := by
    refine fun _ => ⟨fun id hid => ?_, hdropped.disk_eq⟩
    rw [hdropped.page?_eq, if_pos ((hids id).2 hid)]

/-- **A transaction ends** with all of its pages written or given up, in whatever order, and nothing
else changes. -/
theorem complete_of_arises {config : Config} (h : s.Arises config) (tx : TxId) (commit : Bool) :
    s.complete tx commit = s.completeIn tx commit (s.dirtiedBy tx) ∧
      ∀ ids : List PageId, ids.Perm (s.dirtiedBy tx) →
        ∃ t, s.completeIn tx commit ids = (.ok (), t) ∧ s.Ended tx commit t := by
  refine ⟨rfl, fun ids hperm => ?_⟩
  have hwritable := h.writable
  have hreleased : Writable { s with pool := s.pool.releaseAll tx } :=
    stable_writable.holds _ hwritable
  have hids : ∀ id, id ∈ ids ↔ s.mark id = some tx := fun id => by
    rw [hperm.mem_iff, mem_dirtiedBy hwritable.pages]
  cases commit with
  | false =>
    obtain ⟨t, hfold, ht⟩ := hreleased.foldl_settle_abort ids
    exact ⟨t, hfold, ht.ended hids⟩
  | true =>
    have hnodup : ids.Nodup := hperm.nodup_iff.2 (nodup_dirtiedBy hwritable.pages tx)
    obtain ⟨t, hfold, ht⟩ := hreleased.foldl_settle_commit hnodup
      fun id hid => (hids id).1 hid
    exact ⟨t, hfold, ht.ended hids⟩

/-- A table of numbers is created in a file of the directory. -/
def withNumbers (s : Store) (name file : String) : Store :=
  { s with
    catalog := { s.catalog with
      tables := s.catalog.tables.filter (fun t => t.name ≠ name) ++
        [⟨name, ⟨⟨s.catalog.nextId⟩, file, numbers, s.catalog.config.pageSize⟩⟩]
      nextId := s.catalog.nextId + 1 }
    disk := if (s.disk.file? file).isSome then s.disk else s.disk.store file {} }

theorem Arises.withNumbers {config : Config} (h : s.Arises config) {name file : String}
    (hnumber : s.catalog.HasNumber) (hfile : Disk.fileName? file = some file)
    (hnodup : ((s.withNumbers name file).catalog.tables.map fun t => t.file.name).Nodup) :
    (s.withNumbers name file).Arises config := by
  have hcreate : s.createTable name file numbers =
      .ok (⟨s.catalog.nextId⟩, s.withNumbers name file) := by
    unfold Store.createTable Catalog.createTable Disk.openFile?
    rw [hfile]
    rfl
  exact h.create hnumber hcreate (Catalog.distinctFiles_of_nodup hnodup)

/-- A table is replaced after a transaction has stored a number in it. Then the transaction stores
one in the new table and deletes it again, and another transaction stores one there. -/
def replacedTable : Store :=
  ((({ Database.new ⟨5, 4⟩ with disk := {} } : Store).withNumbers "a" "f").run
    [insertNumber ⟨1⟩ 7] |>.withNumbers "a" "g").run
    [.insert ⟨1⟩ ⟨2⟩ (number 9) rfl, .insert ⟨2⟩ ⟨2⟩ (number 8) rfl,
      deleteNumber ⟨1⟩ 9 ⟨⟨⟨2⟩, 0⟩, 0⟩]

theorem replacedTable_arises : replacedTable.Arises ⟨5, 4⟩ := by
  have hold : Arises ⟨5, 4⟩ (withNumbers _ "a" "f") :=
    .withNumbers (.new {}) (by decide) (by cbv) (by decide)
  exact ((hold.run _).withNumbers (by decide +kernel) (by cbv) (by decide +kernel)).run _

/-- The transaction commits, its page of the new table first. Its page of the old table has nowhere
to go, and the number of the other transaction stays. -/
theorem replacedTable_ends :
    let ids : List PageId := [⟨⟨2⟩, 0⟩, ⟨⟨1⟩, 0⟩]
    let o := replacedTable.completeIn ⟨1⟩ true ids
    replacedTable.Arises ⟨5, 4⟩ ∧ ids.Perm (replacedTable.dirtiedBy ⟨1⟩) ∧ o.1 = .ok () ∧
      replacedTable.Ended ⟨1⟩ true o.2 ∧
      replacedTable.disk.contents "g" = [1, 9, 0, 0, 0, 1, 8, 0, 0, 0] ∧
      o.2.disk.contents "g" = [0, 0, 0, 0, 0, 1, 8, 0, 0, 0] := by
  intro ids o
  have hperm : ids.Perm (replacedTable.dirtiedBy ⟨1⟩) := by decide +kernel
  obtain ⟨t, hcomplete, hended⟩ :=
    (complete_of_arises replacedTable_arises ⟨1⟩ true).2 ids hperm
  have ho : o = (.ok (), t) := hcomplete
  refine ⟨replacedTable_arises, hperm, ?_, ?_, by decide +kernel, by decide +kernel⟩
  · rw [ho]
  · rw [ho]
    exact hended

end Store

end Rowstore
