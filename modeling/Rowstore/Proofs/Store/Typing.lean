import Mathlib
import Rowstore.Engine
import Rowstore.Proofs.Store.Keeping

/-!
# Typed rows

A row is typed under a schema when it has the shape of the schema and a value of the column's type
in every column, `Tuple.Typed`. The rows of the pages in memory are typed under the schemas of their
pages, and these agree with the schemas that the tables were created with, `Store.Typed`. It is so
after any operations, whatever others do to the files, and it says as much of tables that are no
longer registered: their numbers are never given again.

`Engine.Typed` says so of several databases, and `Happens` what can happen to them while somebody
works with their rows.
-/

namespace Rowstore

/-! ### Rows -/

namespace Tuple

variable {t l r : Tuple} {schema a b : Schema}

/-- A row has a value of its type in every column. -/
def Typed (t : Tuple) (schema : Schema) : Prop :=
  t.schema.SameShape schema ∧ t.values.map (Option.map Value.type) = schema.types.map some

instance (t : Tuple) (schema : Schema) : Decidable (t.Typed schema) :=
  inferInstanceAs (Decidable (_ ∧ _))

/-- A row that may be stored is typed. -/
theorem Fits.typed (h : t.Fits schema) : t.Typed schema := by
  obtain ⟨hshape, vs, hvalues, hfits⟩ := h
  refine ⟨hshape, ?_⟩
  have htypes : vs.map Value.type = schema.types := by
    rw [← List.forall₂_eq_eq_eq, List.forall₂_map_left_iff]
    refine hfits.imp fun v type hv => ?_
    by_contra hne
    unfold Value.Fits Value.checkStorable at hv
    rw [if_pos hne] at hv
    cases hv
  rw [hvalues, List.map_map, ← htypes, List.map_map]
  rfl

theorem Typed.congr (h : t.Typed a) (hshape : b.types = a.types) : t.Typed b :=
  ⟨h.1.trans hshape.symm, by rw [hshape]; exact h.2⟩

theorem Typed.relabel (h : t.Typed a) (hshape : b.types = a.types) : (t.relabel b).Typed b :=
  ⟨.refl b, by rw [hshape]; exact h.2⟩

theorem Typed.concat (hl : l.Typed a) (hr : r.Typed b) : (l.concat r).Typed (a.merge b) := by
  obtain ⟨hlshape, hlvalues⟩ := hl
  obtain ⟨hrshape, hrvalues⟩ := hr
  constructor
  · show (l.schema.merge r.schema).types = (a.merge b).types
    rw [Schema.types_merge, Schema.types_merge, hlshape, hrshape]
  · rw [values_concat, List.map_append, hlvalues, hrvalues, Schema.types_merge, List.map_append]

/-- A typed row has a value in each column. -/
theorem Typed.field (h : t.Typed schema) {index : Nat} {type : ColumnType}
    (hindex : schema.types[index]? = some type) : ∃ v, t.field index = .ok v ∧ v.type = type := by
  have hvalue : t.values[index]?.map (Option.map Value.type) = some (some type) := by
    rw [← List.getElem?_map, h.2, List.getElem?_map, hindex]
    rfl
  obtain ⟨o, ho, htype⟩ := Option.map_eq_some_iff.1 hvalue
  obtain ⟨v, rfl, rfl⟩ := Option.map_eq_some_iff.1 htype
  exact ⟨v, field_eq_ok_iff.2 ho, rfl⟩

end Tuple

theorem Schema.types_getElem? {schema : Schema} {index : Nat} {c : Column}
    (h : schema.column index = .ok c) : schema.types[index]? = some c.type := by
  unfold column at h
  split at h
  · rename_i hc
    cases h
    rw [types, List.getElem?_map, hc]
    rfl
  · cases h

/-! ### Pages -/

namespace Page

variable {p p' : Page} {row : Tuple}

/-- The rows of a page are typed. -/
def Typed (p : Page) : Prop := ∀ row, some row ∈ p.slots → row.Typed p.schema

theorem Sound.typed (h : p.Sound) : p.Typed := by
  intro row hrow
  obtain ⟨i, hi⟩ := List.mem_iff_getElem?.1 hrow
  exact (h.row_ok i row hi).1.typed

theorem Typed.setSlot (h : p.Typed) {slot : Nat} {o : Option Tuple}
    (ho : ∀ row, o = some row → row.Typed p.schema) : (p.setSlot slot o).Typed := by
  intro row hrow
  rcases List.mem_or_eq_of_mem_set hrow with hold | hnew
  · exact h row hold
  · exact ho row hnew.symm

/-- A row that has passed the check on storing keeps a page typed. -/
theorem Typed.insert (h : p.Typed) (hcomplete : row.Complete) {record : RecordId}
    (hinsert : p.insert row = .ok (record, p')) : p'.Typed ∧ p'.schema = p.schema := by
  obtain ⟨hstorable, -, -, -, rfl⟩ := insert_eq_ok_iff.1 hinsert
  have hfits := Tuple.fits_of_checkStorable hcomplete (Tuple.checkStorable_eq_ok_iff.2 hstorable)
  refine ⟨h.setSlot ?_, rfl⟩
  rintro _ ⟨⟩
  exact hfits.typed

theorem Typed.delete (h : p.Typed) (hdelete : p.delete row = .ok p') :
    p'.Typed ∧ p'.schema = p.schema := by
  obtain ⟨slot, -, -, rfl⟩ := delete_eq_ok_iff.1 hdelete
  exact ⟨h.setSlot nofun, rfl⟩

theorem Typed.mem_rows (h : p.Typed) (hrow : row ∈ p.rows) : row.Typed p.schema := by
  obtain ⟨o, ho, rfl⟩ := List.mem_filterMap.1 hrow
  exact h row ho

end Page

/-! ### Stores -/

namespace Store

variable {s t : Store} {created : TableId → Option (List ColumnType)} {tx : TxId} {id : PageId}
  {page : Page}

/-- The tables and the pages in memory agree with the column types that the tables were created
with. -/
structure Typed (created : TableId → Option (List ColumnType)) (s : Store) : Prop where
  tables : ∀ table ∈ s.catalog.tables,
    created table.file.table = some table.file.schema.types
  pages : ∀ page ∈ s.pool.pages, created page.id.table = some page.schema.types ∧ page.Typed
  unused : ∀ n, s.catalog.nextId ≤ n → created ⟨n⟩ = none

namespace Typed

theorem file (h : s.Typed created) {table : TableId} {f : HeapFile}
    (hf : s.catalog.file table = .ok f) : created table = some f.schema.types := by
  obtain rfl := Catalog.table_of_file hf
  unfold Catalog.file Catalog.table at hf
  split at hf
  · rename_i found hfound
    cases hf
    exact h.tables found (List.mem_of_find?_eq_some hfound)
  · cases hf

/-- Only the pages of the pool have changed. -/
theorem with_pool (h : s.Typed created) (hcatalog : t.catalog = s.catalog)
    (hpages : ∀ page ∈ t.pool.pages,
      page ∈ s.pool.pages ∨ created page.id.table = some page.schema.types ∧ page.Typed) :
    t.Typed created where
  tables := hcatalog ▸ h.tables
  pages := fun page hpage => (hpages page hpage).elim (h.pages page) id
  unused := hcatalog ▸ h.unused

theorem put (h : s.Typed created) {page' : Page} (hpage : page ∈ s.pool.pages)
    (hid : page'.id = page.id) (hpage' : page'.Typed ∧ page'.schema = page.schema) :
    (s.put page').Typed created := by
  obtain ⟨htyped, hschema⟩ := hpage'
  refine h.with_pool rfl fun other hother => ?_
  rcases mem_of_mem_put hother with rfl | hold
  · refine .inr ⟨?_, htyped⟩
    rw [hid, hschema]
    exact (h.pages page hpage).1
  · exact .inl hold

/-- A page that is given out has the types of its table. -/
theorem acquire (h : s.Typed created) (hacquire : s.acquire tx id = .ok (page, t)) :
    t.Typed created ∧ page.Typed ∧ created id.table = some page.schema.types := by
  rcases acquire_cases hacquire with ⟨hpage, rfl⟩ | ⟨f, pool, -, hf, hread, hload, rfl⟩
  · obtain ⟨hmem, rfl⟩ := Pool.mem_of_page? hpage
    obtain ⟨htypes, htyped⟩ := h.pages page hmem
    exact ⟨h.with_pool rfl fun _ => .inl, htyped, htypes⟩
  · obtain ⟨hholds, rfl, -⟩ := HeapFile.holds_of_readPage hread
    have htypes : created page.id.table = some page.schema.types := by
      rw [hholds.schema_eq]
      exact h.file hf
    refine ⟨h.with_pool rfl fun other hother => ?_, hholds.sound.typed, htypes⟩
    rcases Pool.mem_of_load hload hother with hold | rfl
    · exact .inl hold
    · exact .inr ⟨htypes, hholds.sound.typed⟩

theorem disk (h : s.Typed created) (disk : Disk) : { s with disk }.Typed created :=
  h.with_pool rfl fun _ => .inl

end Typed

/-- What is typed stays so, as long as complete rows are stored. -/
theorem stable_typed : Stable Tuple.Complete (Typed created) where
  acquire := fun h hacquire => (h.acquire hacquire).1
  insert := fun h hpage hcomplete hinsert =>
    h.put hpage (Page.id_of_insert hinsert) ((h.pages _ hpage).2.insert hcomplete hinsert)
  delete := fun h hpage hdelete =>
    h.put hpage (Page.id_of_delete hdelete) ((h.pages _ hpage).2.delete hdelete)
  mark := fun _ h hpage => h.put hpage rfl ⟨(h.pages _ hpage).2, rfl⟩
  markDirty := by
    intro s tx id h
    refine h.with_pool rfl fun other hother => ?_
    obtain ⟨old, hold, rfl | rfl⟩ := mem_of_mem_markDirty hother
    · exact .inl hold
    · exact .inr (h.pages old hold)
  discard := fun _ h => h.with_pool rfl fun _ hother => .inl (mem_of_mem_discard hother)
  holds := fun _ h => h.with_pool rfl fun _ => .inl
  disk := fun h _ => h.disk _

/-- A table that is created gets a number that no table had. -/
theorem Typed.createTable (h : s.Typed created) {name path : String} {schema : Schema}
    {table : TableId} (hcreate : s.createTable name path schema = .ok (table, t)) :
    created table = none ∧ t.Typed (Function.update created table (some schema.types)) := by
  unfold Store.createTable Catalog.createTable at hcreate
  cases hopen : s.disk.openFile? path with
  | none =>
    rw [hopen] at hcreate
    cases hcreate
  | some opened =>
    obtain ⟨file, disk⟩ := opened
    rw [hopen] at hcreate
    cases hcreate
    have hunused : created ⟨s.catalog.nextId⟩ = none := h.unused _ le_rfl
    have hother : ∀ {other : TableId} {types : List ColumnType}, created other = some types →
        Function.update created ⟨s.catalog.nextId⟩ (some schema.types) other = some types := by
      intro other types hcreated
      rw [Function.update_of_ne, hcreated]
      rintro rfl
      cases hunused.symm.trans hcreated
    refine ⟨hunused, ⟨?_, ?_, ?_⟩⟩
    · intro table htable
      rcases List.mem_append.1 htable with hold | hnew
      · exact hother (h.tables table (List.mem_of_mem_filter hold))
      · rw [List.mem_singleton.1 hnew]
        exact Function.update_self ..
    · exact fun page hpage => ⟨hother (h.pages page hpage).1, (h.pages page hpage).2⟩
    · intro n hn
      have hle : s.catalog.nextId + 1 ≤ n := hn
      rw [Function.update_of_ne]
      · exact h.unused n (by omega)
      · intro heq
        have hnumber : n = s.catalog.nextId := congrArg TableId.number heq
        omega

end Store

/-! ### Scans -/

namespace Scan

variable {scan : Scan} {s : Store} {created : TableId → Option (List ColumnType)} {schema : Schema}

/-- A scan is one of a table with the column types of a schema, and so are the rows it has read. -/
structure Typed (created : TableId → Option (List ColumnType)) (schema : Schema) (scan : Scan) :
    Prop where
  table : created scan.file.table = some schema.types
  rest : ∀ {rows}, scan.rest = some rows → ∀ row ∈ rows, row.Typed schema

theorem typed_load (scan : Scan) (hs : s.Typed created)
    (htable : created scan.file.table = some schema.types) (page : Nat) :
    (scan.load s page).2.Typed created ∧
      ∀ {rows}, (scan.load s page).1 = .ok rows → ∀ row ∈ rows, row.Typed schema := by
  unfold load
  cases hacquire : s.acquire scan.tx ⟨scan.file.table, page⟩ with
  | error cause => exact ⟨hs, nofun⟩
  | ok given =>
    obtain ⟨ht, hpage, htypes⟩ := hs.acquire hacquire
    refine ⟨ht, ?_⟩
    rintro _ ⟨⟩ row hrow
    exact (hpage.mem_rows hrow).congr (Option.some.inj (htable.symm.trans htypes))

namespace Typed

theorem close (h : scan.Typed created schema) : scan.close.Typed created schema := ⟨h.table, nofun⟩

theorem start (h : scan.Typed created schema) (hs : s.Typed created) :
    (scan.start s).2.1.Typed created schema ∧ (scan.start s).2.2.Typed created := by
  unfold Scan.start
  cases scan.file.pageCount s.disk with
  | error cause => exact ⟨h, hs⟩
  | ok pageCount =>
    dsimp only
    split_ifs
    · refine ⟨⟨h.table, ?_⟩, hs⟩
      rintro _ ⟨⟩
      exact nofun
    · obtain ⟨ht, hrows⟩ := typed_load { scan with page := 0, pageCount } hs h.table 0
      generalize load { scan with page := 0, pageCount } s 0 = o at ht hrows ⊢
      obtain ⟨cause | rows, t⟩ := o
      · exact ⟨⟨h.table, h.rest⟩, ht⟩
      · refine ⟨⟨h.table, ?_⟩, ht⟩
        rintro _ ⟨⟩
        exact hrows rfl

theorem seek (h : scan.Typed created schema) (hs : s.Typed created) (pages : Nat) :
    (scan.seek s pages).2.1.Typed created schema ∧ (scan.seek s pages).2.2.Typed created := by
  induction pages generalizing scan s with
  | zero => exact ⟨h, hs⟩
  | succ pages ih =>
    unfold Scan.seek
    obtain ⟨ht, hrows⟩ :=
      typed_load { scan with page := scan.page + 1 } hs h.table (scan.page + 1)
    dsimp only
    generalize load { scan with page := scan.page + 1 } s (scan.page + 1) = o at ht hrows ⊢
    obtain ⟨cause | rows, t⟩ := o
    · exact ⟨⟨h.table, h.rest⟩, ht⟩
    · have hread : Typed created schema { scan with page := scan.page + 1, rest := some rows } := by
        refine ⟨h.table, ?_⟩
        rintro _ ⟨⟩
        exact hrows rfl
      rw [Outcome.andThen_ok]
      split_ifs
      · exact ih hread ht
      · exact ⟨hread, ht⟩

theorem hasNext (h : scan.Typed created schema) (hs : s.Typed created) :
    (scan.hasNext s).2.1.Typed created schema ∧ (scan.hasNext s).2.2.Typed created := by
  unfold Scan.hasNext
  split
  · exact ⟨h, hs⟩
  · exact ⟨h, hs⟩
  · exact h.seek hs _

end Typed

end Scan

/-! ### Databases -/

namespace Engine

variable {e e' : Engine} {db : Nat} {s : Store}
  {created created' : Nat → TableId → Option (List ColumnType)}

/-- Each database agrees with the column types that its tables were created with. -/
def Typed (created : Nat → TableId → Option (List ColumnType)) (e : Engine) : Prop :=
  ∀ db, (e.store db).Typed (created db)

/-- All tables that were created before have the same column types. -/
def Extends (created' created : Nat → TableId → Option (List ColumnType)) : Prop :=
  ∀ {db table types}, created db table = some types → created' db table = some types

theorem typed_new (configs : List Config) : (new configs).Typed fun _ _ => none := by
  have hnew : ∀ config, (Database.new config).catalog.tables = [] ∧
      (Database.new config).pool.pages = [] := fun config => ⟨rfl, rfl⟩
  intro db
  obtain ⟨config, hconfig⟩ : ∃ config,
      (new configs).databases[db]?.getD (Database.new {}) = Database.new config := by
    unfold new
    rw [List.getElem?_map]
    cases configs[db]? with
    | none => exact ⟨{}, rfl⟩
    | some config => exact ⟨config, rfl⟩
  obtain ⟨htables, hpages⟩ := hnew config
  unfold store
  rw [hconfig]
  exact ⟨by rw [htables]; exact nofun, by rw [hpages]; exact nofun, fun _ _ => rfl⟩

/-- When a store is put back, the other databases are over the disk that it leaves. -/
theorem store_setStore_cases (e : Engine) (db : Nat) (s : Store) (other : Nat) :
    (other = db ∧ db < e.databases.length ∧ (e.setStore db s).store other = s) ∨
      (e.setStore db s).store other = { e.store other with disk := s.disk } := by
  by_cases hother : other = db
  · subst hother
    by_cases hdb : other < e.databases.length
    · exact .inl ⟨rfl, hdb, e.store_setStore s hdb⟩
    · refine .inr ?_
      unfold setStore
      rw [List.set_eq_of_length_le (not_lt.1 hdb)]
      rfl
  · refine .inr ?_
    simp only [store, setStore, List.getElem?_set_ne (Ne.symm hother)]

namespace Typed

theorem disk (h : e.Typed created) (disk : Disk) : { e with disk }.Typed created :=
  fun db => (h db).disk disk

theorem setStore (h : e.Typed created) (hs : s.Typed (created db)) :
    (e.setStore db s).Typed created := by
  intro other
  rcases e.store_setStore_cases db s other with ⟨rfl, -, hstore⟩ | hstore <;> rw [hstore]
  · exact hs
  · exact (h other).disk s.disk

end Typed

/-- Something happens to databases: an operation, no more than a change to a page in memory, a table
that is created while there are numbers, or files that others change. -/
inductive Happens (e : Engine) : Engine → Prop
  | operation (db : Nat) (a : Action) : Happens e (e.setStore db ((e.store db).after a))
  | insert {db : Nat} {page page' : Page} {row : Tuple} {record : RecordId}
    (hpage : page ∈ (e.store db).pool.pages) (hcomplete : row.Complete)
    (hinsert : page.insert row = .ok (record, page')) :
    Happens e (e.setStore db ((e.store db).put page'))
  | delete {db : Nat} {page page' : Page} {row : Tuple} (hpage : page ∈ (e.store db).pool.pages)
    (hdelete : page.delete row = .ok page') : Happens e (e.setStore db ((e.store db).put page'))
  | mark {db : Nat} {page : Page} (hpage : page ∈ (e.store db).pool.pages) (tx : Option TxId) :
    Happens e (e.setStore db ((e.store db).put (page.mark tx)))
  | create {db : Nat} {name path : String} {schema : Schema} {table : TableId} {s : Store}
    (hdb : db < e.databases.length) (hnumber : (e.store db).catalog.HasNumber)
    (hcreate : (e.store db).createTable name path schema = .ok (table, s)) :
    Happens e (e.setStore db s)
  | files (disk : Disk) : Happens e { e with disk }
  | begin : Happens e e.begin.2

/-- Whatever happens to databases, they stay typed, and the tables keep their column types. -/
theorem Typed.happens (h : e.Typed created) (hstep : e.Happens e') :
    ∃ created', e'.Typed created' ∧ Extends created' created := by
  cases hstep with
  | operation db a => exact ⟨created, h.setStore (Store.stable_typed.after (h db) a), id⟩
  | insert hpage hcomplete hinsert =>
    exact ⟨created, h.setStore (Store.stable_typed.insert (h _) hpage hcomplete hinsert), id⟩
  | delete hpage hdelete =>
    exact ⟨created, h.setStore (Store.stable_typed.delete (h _) hpage hdelete), id⟩
  | mark hpage tx => exact ⟨created, h.setStore (Store.stable_typed.mark tx (h _) hpage), id⟩
  | @create db name path schema table s hdb hnumber hcreate =>
    obtain ⟨hunused, hs⟩ := (h db).createTable hcreate
    refine ⟨Function.update created db (Function.update (created db) table (some schema.types)),
      fun other => ?_, fun {other table' types} hcreated => ?_⟩
    · by_cases hother : other = db
      · subst hother
        rw [e.store_setStore s hdb, Function.update_self]
        exact hs
      · rw [Function.update_of_ne hother]
        rcases e.store_setStore_cases db s other with ⟨heq, -, -⟩ | hstore
        · exact absurd heq hother
        · rw [hstore]
          exact (h other).disk s.disk
    · by_cases hother : other = db
      · subst hother
        rw [Function.update_self, Function.update_of_ne]
        · exact hcreated
        · rintro rfl
          cases hunused.symm.trans hcreated
      · rw [Function.update_of_ne hother]
        exact hcreated
  | files disk => exact ⟨created, h.disk disk, id⟩
  | begin => exact ⟨created, fun db => h db, id⟩

end Engine

end Rowstore
