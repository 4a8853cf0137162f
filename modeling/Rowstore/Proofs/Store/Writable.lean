import Mathlib
import Rowstore.Proofs.Store.Keeping

/-!
# Stores whose pages can be written

The states that a database gets into while tables are created, also under names that are taken, and
transactions work with the pages: `Store.Arises`. A page in memory may belong to a table that is no
longer registered. If its table is registered the page is in order for the table's file and in its
bounds, `Store.Writable`, because the numbers of tables are not given again and no operation makes a
file shorter.
-/

namespace Rowstore

/-! ### Numbers of tables -/

namespace Catalog

variable {c c' : Catalog} {disk disk' : Disk} {id table : TableId} {f : HeapFile}

/-- The file of a table is one of a registered table. -/
theorem mem_of_file (hf : c.file id = .ok f) : ∃ t ∈ c.tables, t.file = f := by
  unfold file table at hf
  split at hf
  · rename_i t hfind
    cases hf
    exact ⟨t, List.mem_of_find?_eq_some hfind, rfl⟩
  · cases hf

/-- Tables are over different files if their files have different names. -/
theorem distinctFiles_of_nodup (h : (c.tables.map fun t => t.file.name).Nodup) :
    c.DistinctFiles := by
  intro a b f g hf hg hname
  obtain ⟨t, ht, rfl⟩ := mem_of_file hf
  obtain ⟨u, hu, rfl⟩ := mem_of_file hg
  obtain rfl := List.inj_on_of_nodup_map h ht hu hname
  rw [← table_of_file hf, table_of_file hg]

/-- Tables have numbers of their own, and these have been given. -/
structure Numbered (c : Catalog) : Prop where
  nodup : c.tableIds.Nodup
  lt : ∀ id ∈ c.tableIds, id.number < c.nextId

/-- The table with a key is found if no other one has it. -/
theorem find?_eq_some_iff_of_nodup {κ : Type} [DecidableEq κ] {tables : List Table}
    {key : Table → κ} (h : (tables.map key).Nodup) {k : κ} {t : Table} :
    (tables.find? fun other => key other = k) = some t ↔ t ∈ tables ∧ key t = k := by
  constructor
  · intro hfind
    exact ⟨List.mem_of_find?_eq_some hfind, by simpa using List.find?_some hfind⟩
  · rintro ⟨ht, rfl⟩
    cases hfound : tables.find? fun other => key other = key t with
    | none =>
      have hne := List.find?_eq_none.1 hfound t ht
      simp at hne
    | some found =>
      have hkey : key found = key t := by simpa using List.find?_some hfound
      rw [List.inj_on_of_nodup_map h (List.mem_of_find?_eq_some hfound) ht hkey]

/-- A table is found if numbers are not given twice. -/
theorem Numbered.table_eq_ok_iff (h : c.Numbered) {t : Table} :
    c.table id = .ok t ↔ t ∈ c.tables ∧ t.file.table = id := by
  rw [← find?_eq_some_iff_of_nodup h.nodup, table]
  cases c.tables.find? fun other => other.file.table = id with
  | none => simp
  | some found => simp

/-- The file of a table is found if numbers are not given twice. -/
theorem Numbered.file_eq_ok_iff (h : c.Numbered) :
    c.file id = .ok f ↔ ∃ t ∈ c.tables, t.file.table = id ∧ t.file = f := by
  constructor
  · intro hf
    obtain ⟨t, ht, rfl⟩ := mem_of_file hf
    exact ⟨t, ht, table_of_file hf, rfl⟩
  · rintro ⟨t, ht, hid, rfl⟩
    rw [file, h.table_eq_ok_iff.2 ⟨ht, hid⟩]
    rfl

/-- A table is added under the next number, and some are no longer registered. -/
theorem Numbered.register (h : c.Numbered) (keep : Table → Bool) (t : Table)
    (ht : t.file.table = ⟨c.nextId⟩) :
    Numbered { c with tables := c.tables.filter keep ++ [t], nextId := c.nextId + 1 } := by
  have hsub : List.Sublist ((c.tables.filter keep).map fun t => t.file.table) c.tableIds :=
    List.filter_sublist.map _
  have hlt : ∀ id ∈ (c.tables.filter keep).map fun t => t.file.table, id.number < c.nextId :=
    fun id hid => h.lt id (hsub.subset hid)
  constructor
  · rw [tableIds, List.map_append, List.map_singleton, ht]
    refine List.nodup_append.2 ⟨hsub.nodup h.nodup, List.nodup_singleton _, ?_⟩
    rintro id hid new hnew rfl
    rw [List.mem_singleton] at hnew
    subst hnew
    exact lt_irrefl _ (hlt _ hid)
  · intro id hid
    rw [tableIds, List.map_append, List.map_singleton, ht] at hid
    rcases List.mem_append.1 hid with hold | hnew
    · exact Nat.lt_succ_of_lt (hlt id hold)
    · rw [List.mem_singleton.1 hnew]
      exact Nat.lt_succ_self _

/-- A table that is created gets the next number. The files of other tables stay, or they are no
longer registered. -/
theorem Numbered.createTable (h : c.Numbered) {name path : String} {schema : Schema}
    (hcreate : c.createTable disk name path schema = .ok (table, c', disk')) :
    c'.Numbered ∧ table.number = c.nextId ∧ c'.nextId = c.nextId + 1 ∧ disk'.Extends disk ∧
      ∀ (id : TableId) (f : HeapFile), c'.file id = .ok f → id = table ∨ c.file id = .ok f := by
  unfold Catalog.createTable at hcreate
  cases hopen : disk.openFile? path with
  | none =>
    rw [hopen] at hcreate
    cases hcreate
  | some opened =>
    obtain ⟨file, opened⟩ := opened
    rw [hopen] at hcreate
    cases hcreate
    have hnumbered := h.register (fun t => t.name ≠ name)
      ⟨name, ⟨⟨c.nextId⟩, file, schema, c.config.pageSize⟩⟩ rfl
    refine ⟨hnumbered, rfl, rfl, Disk.extends_openFile? hopen, fun id f hf => ?_⟩
    obtain ⟨t, ht, rfl, rfl⟩ := hnumbered.file_eq_ok_iff.1 hf
    rcases List.mem_append.1 ht with hold | hnew
    · exact .inr (h.file_eq_ok_iff.2 ⟨t, List.mem_of_mem_filter hold, rfl, rfl⟩)
    · rw [List.mem_singleton.1 hnew]
      exact .inl rfl

end Catalog

namespace Store

variable {s t : Store} {page page' : Page} {tx : TxId} {id : PageId}

/-! ### Pages that can be written -/

/-- A page in memory can be written if its table is registered. -/
structure Writable (s : Store) : Prop where
  files : s.catalog.DistinctFiles
  numbered : s.catalog.Numbered
  pages : s.pool.Distinct
  lt : ∀ page ∈ s.pool.pages, page.id.table.number < s.catalog.nextId
  holds : ∀ page ∈ s.pool.pages, ∀ f, s.catalog.file page.id.table = .ok f → f.Holds s.disk page

namespace Writable

/-- Pages in memory have changed, and files have become longer. -/
theorem with_pool (h : s.Writable) (hcatalog : t.catalog = s.catalog)
    (hextends : t.disk.Extends s.disk) (hdistinct : t.pool.Distinct)
    (hpages : ∀ page ∈ t.pool.pages, page ∈ s.pool.pages ∨
      page.id.table.number < s.catalog.nextId ∧
        ∀ f, s.catalog.file page.id.table = .ok f → f.Holds s.disk page) : t.Writable where
  files := hcatalog ▸ h.files
  numbered := hcatalog ▸ h.numbered
  pages := hdistinct
  lt := by
    intro page hpage
    rw [hcatalog]
    exact (hpages page hpage).elim (h.lt page) And.left
  holds := by
    intro page hpage f hf
    rw [hcatalog] at hf
    have hholds := (hpages page hpage).elim (h.holds page) And.right
    exact (hholds f hf).extends hextends

/-- A page is put back with other rows or another mark. -/
theorem put (h : s.Writable) (hpage : page ∈ s.pool.pages) (hid : page'.id = page.id)
    (hholds : ∀ f : HeapFile, f.Holds s.disk page → f.Holds s.disk page') :
    (s.put page').Writable := by
  refine h.with_pool rfl (.refl _) (h.pages.put page') fun other hother => ?_
  rcases mem_of_mem_put hother with rfl | hold
  · rw [hid]
    exact .inr ⟨h.lt page hpage, fun f hf => hholds f (h.holds page hpage f hf)⟩
  · exact .inl hold

/-- A page that is given out can be written. -/
theorem acquire (h : s.Writable) (hacquire : s.acquire tx id = .ok (page, t)) : t.Writable := by
  rcases acquire_cases hacquire with ⟨hpage, rfl⟩ | ⟨f, pool, hmiss, hf, hread, hload, rfl⟩
  · exact h.with_pool rfl (.refl _) h.pages fun _ => .inl
  · obtain ⟨hholds, rfl, -⟩ := HeapFile.holds_of_readPage hread
    have hdistinct : pool.Distinct := h.pages.load hmiss hload
    refine h.with_pool rfl (.refl _) hdistinct fun other hother => ?_
    rcases Pool.mem_of_load hload hother with hold | rfl
    · exact .inl hold
    · obtain ⟨table, htable, hid, -⟩ := h.numbered.file_eq_ok_iff.1 hf
      refine .inr ⟨h.numbered.lt _ (List.mem_map.2 ⟨table, htable, hid⟩), fun g hg => ?_⟩
      cases hf.symm.trans hg
      exact hholds

end Writable

/-- Pages can be written after any operation. -/
theorem stable_writable : Stable Tuple.Complete Writable where
  acquire := fun h hacquire => h.acquire hacquire
  insert := by
    intro s page page' row record h hpage hcomplete hinsert
    refine h.put hpage (Page.id_of_insert hinsert) fun f hholds => ?_
    obtain ⟨hsound, hid, hschema, hsize, -⟩ := hholds.sound.insert_eq_ok hcomplete hinsert
    exact hholds.of_layout hsound hid hschema hsize
  delete := by
    intro s page page' row h hpage hdelete
    refine h.put hpage (Page.id_of_delete hdelete) fun f hholds => ?_
    obtain ⟨hsound, hid, hschema, hsize, -⟩ := hholds.sound.delete_eq_ok hdelete
    exact hholds.of_layout hsound hid hschema hsize
  mark := fun tx h hpage => h.put hpage rfl fun f hholds => hholds.mark tx
  markDirty := by
    intro s tx id h
    have hdistinct := h.pages.modify id fun page (hpage : page.id = id) =>
      show (page.mark (some tx)).id = id from hpage
    refine h.with_pool rfl (.refl _) hdistinct fun other hother => ?_
    obtain ⟨old, hold, rfl | rfl⟩ := mem_of_mem_markDirty hother
    · exact .inl hold
    · exact .inr ⟨h.lt old hold, fun f hf => (h.holds old hold f hf).mark _⟩
  discard := fun id h => h.with_pool rfl (.refl _) (h.pages.discard id) fun _ hpage =>
    .inl (mem_of_mem_discard hpage)
  holds := fun _ h => h.with_pool rfl (.refl _) h.pages fun _ => .inl
  disk := fun h hextends => h.with_pool rfl hextends h.pages fun _ => .inl

/-- Pages can be written after a table was created, if it has a file of its own. -/
theorem Writable.createTable (h : s.Writable) {name path : String} {schema : Schema}
    {table : TableId} (hcreate : s.createTable name path schema = .ok (table, t))
    (hfiles : t.catalog.DistinctFiles) : t.Writable := by
  unfold Store.createTable at hcreate
  cases hcatalog : s.catalog.createTable s.disk name path schema with
  | error cause =>
    rw [hcatalog] at hcreate
    cases hcreate
  | ok created =>
    obtain ⟨id, catalog, disk⟩ := created
    rw [hcatalog] at hcreate
    cases hcreate
    obtain ⟨hnumbered, hid, hnext, hextends, hfile⟩ := h.numbered.createTable hcatalog
    refine ⟨hfiles, hnumbered, h.pages, fun page hpage => ?_, fun page hpage f hf => ?_⟩
    · have hlt := h.lt page hpage
      show page.id.table.number < catalog.nextId
      omega
    · rcases hfile _ _ hf with hnew | hold
      · -- no page in memory has the number that the new table gets
        have hlt := h.lt page hpage
        rw [hnew] at hlt
        omega
      · exact (h.holds page hpage f hold).extends hextends

/-! ### States of a database -/

/-- A state that a database gets into: it starts without tables on any disk, tables are created as
long as there are numbers, each with its own file, and operations are done. -/
inductive Arises (config : Config) : Store → Prop
  | new (disk : Disk) : Arises config { Database.new config with disk }
  | create {s t : Store} {name path : String} {schema : Schema} {table : TableId}
    (h : Arises config s) (hnumber : s.catalog.HasNumber)
    (hcreate : s.createTable name path schema = .ok (table, t)) (hfiles : t.catalog.DistinctFiles) : Arises config t
  | after {s : Store} (h : Arises config s) (a : Action) : Arises config (s.after a)

theorem Arises.writable {config : Config} (h : Arises config s) : s.Writable := by
  induction h with
  | new disk =>
    refine ⟨nofun, ⟨List.nodup_nil, nofun⟩, List.nodup_nil, nofun, nofun⟩
  | create _ _ hcreate hfiles ih => exact ih.createTable hcreate hfiles
  | after _ a ih => exact stable_writable.after ih a

theorem Arises.run {config : Config} (h : Arises config s) (actions : List Action) :
    Arises config (s.run actions) := by
  induction actions generalizing s with
  | nil => exact h
  | cons a actions ih => exact ih (h.after a)

end Store

end Rowstore
