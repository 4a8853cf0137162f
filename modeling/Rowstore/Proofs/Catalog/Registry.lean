import Mathlib
import Rowstore.Outcome
import Rowstore.Proofs.Store.Writable

/-!
# Registrations

Tables registered one after another, under names that may come again and with paths that may not
lead to a file. Between two calls the disk may change in any way.

* `Registry` keeps the tables by number, the numbers by name and a counter of 32 bits, and updates
  them one at a time.
* `Catalog.Records` is the invariant: of all tables that were ever registered, numbered from one on,
  a catalog has those that are the last with their names.
* `Catalog.after_consistent` is what follows for every history of calls.
-/

namespace Rowstore

/-! ### Calls -/

/-- A table to be registered, and the disk as it is then. -/
structure Registration where
  disk : Disk
  name : String
  path : String
  schema : Schema

namespace Registration

/-- The name of the file, if the path leads to one. -/
def opened? (call : Registration) : Option String := (call.disk.openFile? call.path).map Prod.fst

/-- The table that is registered under a number. -/
def entry (call : Registration) (config : Config) (id : TableId) (file : String) : Table :=
  ⟨call.name, ⟨id, file, call.schema, config.pageSize⟩⟩

end Registration

/-- The calls that open a file, with its name. -/
def opened (calls : List Registration) : List (Registration × String) :=
  calls.filterMap fun call => call.opened?.map fun file => (call, file)

/-- The tables that calls register, numbered from one on. -/
def registered (config : Config) (calls : List Registration) : List Table :=
  ((opened calls).zipIdx 1).map fun ((call, file), number) => call.entry config ⟨number⟩ file

/-- A table of a list is the last one with its name. -/
def Latest (log : List Table) (t : Table) : Prop :=
  t ∈ log ∧ ∀ u ∈ log, t.file.table.number < u.file.table.number → u.name ≠ t.name

section Registered

variable {config : Config} {calls : List Registration} {call : Registration} {file : String}

theorem length_registered (config : Config) (calls : List Registration) :
    (registered config calls).length = (opened calls).length := by
  rw [registered, List.length_map, List.length_zipIdx]

theorem length_registered_le (config : Config) (calls : List Registration) :
    (registered config calls).length ≤ calls.length := by
  rw [length_registered]
  exact List.length_filterMap_le _ _

theorem registered_concat_of_none (h : call.opened? = none) :
    registered config (calls ++ [call]) = registered config calls := by
  simp [registered, opened, h]

theorem registered_concat_of_some (h : call.opened? = some file) :
    registered config (calls ++ [call]) = registered config calls ++
      [call.entry config ⟨(registered config calls).length + 1⟩ file] := by
  rw [length_registered]
  simp [registered, opened, h, List.zipIdx_append, Nat.add_comm]

/-- Later calls leave the tables that were registered before them. -/
theorem registered_begins (config : Config) (calls later : List Registration) :
    registered config calls <+: registered config (calls ++ later) := by
  simp [registered, opened, List.zipIdx_append]

/-- A table was registered by the call with its number, among those that open a file. -/
theorem exists_call_of_mem {t : Table} (h : t ∈ registered config calls) :
    ∃ call, (opened calls)[t.file.table.number - 1]? = some (call, t.file.name) ∧
      t = call.entry config t.file.table t.file.name := by
  obtain ⟨⟨⟨call, file⟩, number⟩, hmem, rfl⟩ := List.mem_map.1 h
  obtain ⟨-, hget⟩ := List.mk_mem_zipIdx_iff_le_and_getElem?_sub.1 hmem
  exact ⟨call, hget, rfl⟩

theorem latest_concat_iff {log : List Table} {new t : Table}
    (h : ∀ u ∈ log, u.file.table.number < new.file.table.number) :
    Latest (log ++ [new]) t ↔ Latest log t ∧ t.name ≠ new.name ∨ t = new := by
  constructor
  · rintro ⟨hmem, hlater⟩
    rcases List.mem_append.1 hmem with ht | ht
    · refine .inl ⟨⟨ht, fun u hu => hlater u (List.mem_append_left _ hu)⟩, ?_⟩
      intro hname
      exact hlater new (by simp) (h t ht) hname.symm
    · exact .inr (List.mem_singleton.1 ht)
  · rintro (⟨⟨ht, hlater⟩, hname⟩ | rfl)
    · refine ⟨List.mem_append_left _ ht, fun u hu hlt => ?_⟩
      rcases List.mem_append.1 hu with hold | hnew
      · exact hlater u hold hlt
      · rw [List.mem_singleton.1 hnew]
        exact Ne.symm hname
    · refine ⟨by simp, fun u hu hlt => ?_⟩
      rcases List.mem_append.1 hu with hold | hnew
      · have := h u hold
        omega
      · rw [List.mem_singleton.1 hnew] at hlt
        omega

end Registered

/-! ### Catalogs -/

namespace Catalog

/-- Register the table of a call. When that fails the catalog is as it was. -/
def register (c : Catalog) (call : Registration) : Outcome Catalog TableId :=
  match c.createTable call.disk call.name call.path call.schema with
  | .ok (id, c, _) => (.ok id, c)
  | .error cause => (.error cause, c)

/-- The catalog after calls, from a new one on. -/
def after (config : Config) (calls : List Registration) : Catalog :=
  calls.foldl (fun c call => (c.register call).2) { config }

variable {c : Catalog} {call : Registration} {file : String} {log : List Table}

theorem after_concat (config : Config) (calls : List Registration) (call : Registration) :
    after config (calls ++ [call]) = ((after config calls).register call).2 := by
  simp [after]

theorem register_of_none (h : call.opened? = none) : c.register call = (.error .io, c) := by
  rw [Registration.opened?, Option.map_eq_none_iff] at h
  rw [register, createTable, h]

theorem register_of_some (h : call.opened? = some file) :
    c.register call = (.ok ⟨c.nextId⟩, { c with
      tables := c.tables.filter (fun t => t.name ≠ call.name) ++
        [call.entry c.config ⟨c.nextId⟩ file]
      nextId := c.nextId + 1 }) := by
  obtain ⟨⟨_, disk⟩, hopen, rfl⟩ := Option.map_eq_some_iff.1 h
  rw [register, createTable, hopen]
  rfl

theorem eq_of_table_eq_error {id : TableId} {cause : DbError} (h : c.table id = .error cause) :
    cause = .tableNotFound id := by
  unfold table at h
  split at h
  · cases h
  · cases h
    rfl

theorem config_register (c : Catalog) (call : Registration) :
    (c.register call).2.config = c.config := by
  cases h : call.opened? with
  | none => rw [register_of_none h]
  | some file => rw [register_of_some h]

theorem config_after (config : Config) (calls : List Registration) :
    (after config calls).config = config := by
  induction calls using List.reverseRecOn with
  | nil => rfl
  | append_singleton calls call ih => rw [after_concat, config_register, ih]

/-- Of the tables ever registered, a catalog has the last one of each name. -/
structure Records (c : Catalog) (log : List Table) : Prop where
  numbers : (log.map fun t => t.file.table.number) = List.range' 1 log.length
  nextId : c.nextId = log.length + 1
  mem_iff : ∀ t, t ∈ c.tables ↔ Latest log t
  ascending : c.tableIds.Pairwise fun a b => a.number < b.number

namespace Records

theorem lt_nextId (h : c.Records log) {t : Table} (ht : t ∈ log) :
    t.file.table.number < c.nextId := by
  have hmem : t.file.table.number ∈ log.map fun t => t.file.table.number :=
    List.mem_map_of_mem ht
  rw [h.numbers, List.mem_range'_1] at hmem
  have := h.nextId
  omega

theorem eq_of_number (h : c.Records log) {t u : Table} (ht : t ∈ log) (hu : u ∈ log)
    (hnumber : t.file.table.number = u.file.table.number) : t = u := by
  have hnodup : (log.map fun t => t.file.table.number).Nodup := by
    rw [h.numbers]
    exact List.nodup_range'
  exact List.inj_on_of_nodup_map hnodup ht hu hnumber

/-- No two tables of a catalog have the same name. -/
theorem eq_of_name (h : c.Records log) {t u : Table} (ht : t ∈ c.tables) (hu : u ∈ c.tables)
    (hname : t.name = u.name) : t = u := by
  obtain ⟨htlog, htlater⟩ := (h.mem_iff t).1 ht
  obtain ⟨hulog, hulater⟩ := (h.mem_iff u).1 hu
  rcases lt_trichotomy t.file.table.number u.file.table.number with hlt | hnumber | hgt
  · exact absurd hname.symm (htlater u hulog hlt)
  · exact h.eq_of_number htlog hulog hnumber
  · exact absurd hname (hulater t htlog hgt)

theorem numbered (h : c.Records log) : c.Numbered where
  nodup := by
    apply h.ascending.imp
    rintro a b hlt rfl
    omega
  lt := by
    intro id hid
    obtain ⟨t, ht, rfl⟩ := List.mem_map.1 hid
    exact h.lt_nextId ((h.mem_iff t).1 ht).1

/-- A new catalog has no tables, and none was registered. -/
theorem new (config : Config) : Records { config } [] where
  numbers := rfl
  nextId := rfl
  mem_iff := by simp [Latest]
  ascending := .nil

/-- A table that is registered is the last with its name, and nothing else changes but that the
earlier one with this name is gone. -/
theorem register (h : c.Records log) (hopened : call.opened? = some file) :
    (c.register call).2.Records (log ++ [call.entry c.config ⟨log.length + 1⟩ file]) := by
  have hlt : ∀ u ∈ log, u.file.table.number < log.length + 1 := by
    intro u hu
    rw [← h.nextId]
    exact h.lt_nextId hu
  rw [register_of_some hopened, h.nextId]
  constructor
  · rw [List.map_append, h.numbers, List.length_append, List.length_singleton, List.range'_concat]
    simp [Registration.entry, Nat.add_comm]
  · simp
  · intro t
    rw [latest_concat_iff hlt, ← h.mem_iff]
    simp [Registration.entry]
  · rw [tableIds, List.map_append, List.pairwise_append]
    refine ⟨?_, List.pairwise_singleton _ _, ?_⟩
    · exact h.ascending.sublist (List.filter_sublist.map _)
    · intro id hid new hnew
      obtain ⟨t, ht, rfl⟩ := List.mem_map.1 hid
      obtain rfl : new = ⟨log.length + 1⟩ := by simpa [Registration.entry] using hnew
      exact hlt t ((h.mem_iff t).1 (List.mem_of_mem_filter ht)).1

end Records

/-- After any calls a catalog has the last table of each name that they registered. -/
theorem records_after (config : Config) (calls : List Registration) :
    (after config calls).Records (registered config calls) := by
  induction calls using List.reverseRecOn with
  | nil => exact .new config
  | append_singleton calls call ih =>
    rw [after_concat]
    cases hopened : call.opened? with
    | none =>
      rw [register_of_none hopened, registered_concat_of_none hopened]
      exact ih
    | some file =>
      have hstep := ih.register hopened
      rw [config_after] at hstep
      rw [registered_concat_of_some hopened]
      exact hstep

end Catalog

/-! ### Two maps and a counter -/

/-- The registered tables, in two maps. -/
structure Registry where
  config : Config
  tables : Finmap fun _ : TableId => Table
  names : Finmap fun _ : String => TableId
  /-- The number the next table gets. It wraps around. -/
  nextId : UInt32

namespace Registry

/-- A registry without tables. -/
def new (config : Config) : Registry := ⟨config, ∅, ∅, 1⟩

/-- Register the table of a call: open the file, count, name the table, drop the one that had the
name, and put in the new one. -/
def register (r : Registry) (call : Registration) : Outcome Registry TableId :=
  let id : TableId := ⟨r.nextId.toNat⟩
  match call.opened? with
  | none => (.error .io, r)
  | some file =>
    let r := { r with nextId := r.nextId + 1 }
    let old := r.names.lookup call.name
    let r := { r with names := r.names.insert call.name id }
    let r := match old with
      | some old => { r with tables := r.tables.erase old }
      | none => r
    (.ok id, { r with tables := r.tables.insert id (call.entry r.config id file) })

/-- The registry after calls, from a new one on. -/
def after (config : Config) (calls : List Registration) : Registry :=
  calls.foldl (fun r call => (r.register call).2) (new config)

/-- The table with a number. -/
def table (r : Registry) (id : TableId) : Except DbError Table :=
  match r.tables.lookup id with
  | some t => .ok t
  | none => .error (.tableNotFound id)

/-- The number of the table with a name. -/
def tableId (r : Registry) (name : String) : Except DbError TableId :=
  match r.names.lookup name with
  | some id => .ok id
  | none => .error (.tableNameNotFound name)

instance : IsTrans TableId fun a b => a.number ≤ b.number := ⟨fun _ _ _ => Nat.le_trans⟩

instance : Std.Antisymm fun a b : TableId => a.number ≤ b.number :=
  ⟨fun ⟨_⟩ ⟨_⟩ hle hge => congrArg TableId.mk (Nat.le_antisymm hle hge)⟩

instance : Std.Total fun a b : TableId => a.number ≤ b.number :=
  ⟨fun a b => Nat.le_total a.number b.number⟩

/-- The numbers of all tables, sorted. -/
def tableIds (r : Registry) : List TableId := r.tables.keys.sort fun a b => a.number ≤ b.number

/-- A registry has the tables of a catalog, under their numbers and names. -/
structure Holds (r : Registry) (c : Catalog) : Prop where
  config : r.config = c.config
  nextId : r.nextId = UInt32.ofNat c.nextId
  table_iff : ∀ id t, r.tables.lookup id = some t ↔ t ∈ c.tables ∧ t.file.table = id
  name_iff : ∀ name id, r.names.lookup name = some id ↔
    ∃ t ∈ c.tables, t.name = name ∧ t.file.table = id

variable {r : Registry} {c : Catalog} {log : List Table} {call : Registration} {file : String}

theorem after_concat (config : Config) (calls : List Registration) (call : Registration) :
    after config (calls ++ [call]) = ((after config calls).register call).2 := by
  simp [after]

theorem register_of_none (h : call.opened? = none) : r.register call = (.error .io, r) := by
  rw [register, h]

/-- The tables without the one that has a name. -/
def dropName (r : Registry) (name : String) : Finmap fun _ : TableId => Table :=
  match r.names.lookup name with
  | some old => r.tables.erase old
  | none => r.tables

theorem register_of_some (h : call.opened? = some file) :
    r.register call = (.ok ⟨r.nextId.toNat⟩, {
      config := r.config
      tables := (r.dropName call.name).insert ⟨r.nextId.toNat⟩
        (call.entry r.config ⟨r.nextId.toNat⟩ file)
      names := r.names.insert call.name ⟨r.nextId.toNat⟩
      nextId := r.nextId + 1 }) := by
  simp only [register, h, dropName]
  cases r.names.lookup call.name <;> rfl

namespace Holds

theorem new (config : Config) : (Registry.new config).Holds { config } where
  config := rfl
  nextId := rfl
  table_iff := by simp [Registry.new]
  name_iff := by simp [Registry.new]

/-- Dropping a name drops the table with that name and no other one. -/
theorem lookup_dropName (h : r.Holds c) (hnumbered : c.Numbered) (name : String) {id : TableId}
    {t : Table} : (r.dropName name).lookup id = some t ↔
      t ∈ c.tables ∧ t.name ≠ name ∧ t.file.table = id := by
  unfold dropName
  cases hold : r.names.lookup name with
  | none =>
    rw [h.table_iff]
    constructor
    · rintro ⟨ht, hid⟩
      refine ⟨ht, ?_, hid⟩
      intro hname
      rw [(h.name_iff name id).2 ⟨t, ht, hname, hid⟩] at hold
      cases hold
    · rintro ⟨ht, -, hid⟩
      exact ⟨ht, hid⟩
  | some old =>
    obtain ⟨u, hu, huname, huid⟩ := (h.name_iff name old).1 hold
    by_cases hsame : id = old
    · subst hsame
      simp only [Finmap.lookup_erase, reduceCtorEq, false_iff]
      rintro ⟨ht, hname, hid⟩
      have heq : t = u := List.inj_on_of_nodup_map hnumbered.nodup ht hu (hid.trans huid.symm)
      exact hname (heq ▸ huname)
    · simp only [Finmap.lookup_erase_ne hsame, h.table_iff]
      constructor
      · rintro ⟨ht, hid⟩
        refine ⟨ht, ?_, hid⟩
        intro hname
        rw [(h.name_iff name id).2 ⟨t, ht, hname, hid⟩] at hold
        cases hold
        exact hsame rfl
      · rintro ⟨ht, -, hid⟩
        exact ⟨ht, hid⟩

/-- The tables by number, when one is put in under the next number. -/
theorem lookup_insert_table (h : r.Holds c) (hnumbered : c.Numbered) (new : Table)
    (hnew : new.file.table = ⟨c.nextId⟩) (id : TableId) (t : Table) :
    ((r.dropName new.name).insert ⟨c.nextId⟩ new).lookup id = some t ↔
      t ∈ c.tables.filter (fun t => t.name ≠ new.name) ++ [new] ∧ t.file.table = id := by
  simp only [List.mem_append, List.mem_filter, List.mem_singleton, decide_eq_true_eq]
  by_cases hsame : id = ⟨c.nextId⟩
  · subst hsame
    simp only [Finmap.lookup_insert, Option.some.injEq]
    constructor
    · rintro rfl
      exact ⟨.inr rfl, hnew⟩
    · rintro ⟨⟨hold, -⟩ | rfl, hid⟩
      · have hlt := hnumbered.lt _ (List.mem_map_of_mem hold)
        rw [hid] at hlt
        exact absurd hlt (lt_irrefl _)
      · rfl
  · simp only [Finmap.lookup_insert_of_ne _ hsame, h.lookup_dropName hnumbered]
    constructor
    · rintro ⟨ht, hname, hid⟩
      exact ⟨.inl ⟨ht, hname⟩, hid⟩
    · rintro ⟨⟨ht, hname⟩ | rfl, hid⟩
      · exact ⟨ht, hname, hid⟩
      · exact absurd (hid.symm.trans hnew) hsame

/-- The numbers by name, when a name is given to the next number. -/
theorem lookup_insert_name (h : r.Holds c) (new : Table) (hnew : new.file.table = ⟨c.nextId⟩)
    (name : String) (id : TableId) :
    (r.names.insert new.name ⟨c.nextId⟩).lookup name = some id ↔
      ∃ t ∈ c.tables.filter (fun t => t.name ≠ new.name) ++ [new],
        t.name = name ∧ t.file.table = id := by
  simp only [List.mem_append, List.mem_filter, List.mem_singleton, decide_eq_true_eq]
  by_cases hsame : name = new.name
  · subst hsame
    simp only [Finmap.lookup_insert, Option.some.injEq]
    constructor
    · rintro rfl
      exact ⟨new, .inr rfl, rfl, hnew⟩
    · rintro ⟨t, ⟨-, hne⟩ | rfl, hname, hid⟩
      · exact absurd hname hne
      · exact hnew.symm.trans hid
  · simp only [Finmap.lookup_insert_of_ne _ hsame, h.name_iff]
    constructor
    · rintro ⟨t, ht, rfl, hid⟩
      exact ⟨t, .inl ⟨ht, hsame⟩, rfl, hid⟩
    · rintro ⟨t, ⟨ht, -⟩ | rfl, hname, hid⟩
      · exact ⟨t, ht, hname, hid⟩
      · exact absurd hname.symm hsame

/-- A call answers the same, and both maps still have the tables of the catalog. -/
theorem register (h : r.Holds c) (hnumbered : c.Numbered) (hnext : c.HasNumber)
    (call : Registration) :
    (r.register call).1 = (c.register call).1 ∧
      (r.register call).2.Holds (c.register call).2 := by
  cases hopened : call.opened? with
  | none =>
    rw [register_of_none hopened, Catalog.register_of_none hopened]
    exact ⟨rfl, h⟩
  | some file =>
    have hnumber : r.nextId.toNat = c.nextId := by
      rw [h.nextId, UInt32.toNat_ofNat_of_lt' hnext]
    have hcount : r.nextId + 1 = UInt32.ofNat (c.nextId + 1) := by
      rw [h.nextId, UInt32.ofNat_add]
      rfl
    rw [register_of_some hopened, Catalog.register_of_some hopened, hnumber, h.config]
    refine ⟨rfl, rfl, hcount, ?_, ?_⟩
    · exact h.lookup_insert_table hnumbered (call.entry c.config ⟨c.nextId⟩ file) rfl
    · exact h.lookup_insert_name (call.entry c.config ⟨c.nextId⟩ file) rfl

/-- Tables are found as in the catalog. -/
theorem table_eq (h : r.Holds c) (hnumbered : c.Numbered) (id : TableId) :
    r.table id = c.table id := by
  have hfind : r.tables.lookup id = c.tables.find? fun t => t.file.table = id := by
    apply Option.ext
    intro t
    rw [h.table_iff, Catalog.find?_eq_some_iff_of_nodup hnumbered.nodup]
  cases hfound : c.tables.find? fun t => t.file.table = id <;>
    simp only [table, Catalog.table, hfind, hfound]

/-- Names lead to the same tables as in the catalog. -/
theorem tableId_eq (h : r.Holds c) (hnames : (c.tables.map Table.name).Nodup) (name : String) :
    r.tableId name = c.tableId name := by
  have hfind : r.names.lookup name =
      (c.tables.find? fun t => t.name = name).map fun t => t.file.table := by
    apply Option.ext
    intro id
    rw [h.name_iff, Option.map_eq_some_iff]
    simp only [Catalog.find?_eq_some_iff_of_nodup hnames, and_assoc]
  rw [tableId, Catalog.tableId, hfind]
  cases c.tables.find? fun t => t.name = name <;> rfl

/-- The numbers, sorted, come in the order of the catalog. -/
theorem tableIds_eq (h : r.Holds c)
    (hascending : c.tableIds.Pairwise fun a b => a.number < b.number) :
    r.tableIds = c.tableIds := by
  have hnodup : c.tableIds.Nodup := by
    apply hascending.imp
    rintro a b hlt rfl
    omega
  have hkeys : r.tables.keys = c.tableIds.toFinset := by
    ext id
    rw [Finmap.mem_keys, Finmap.mem_iff, List.mem_toFinset, Catalog.tableIds, List.mem_map]
    exact exists_congr fun t => h.table_iff id t
  rw [tableIds, hkeys, List.toFinset_sort _ hnodup]
  exact hascending.imp Nat.le_of_lt

end Holds

/-- As long as the counter does not wrap around, a registry has the tables of the catalog. -/
theorem holds_after (config : Config) {calls : List Registration} (hcount : calls.length < 2 ^ 32) :
    (after config calls).Holds (Catalog.after config calls) := by
  induction calls using List.reverseRecOn with
  | nil => exact .new config
  | append_singleton calls call ih =>
    rw [List.length_append, List.length_singleton] at hcount
    have hrecords := Catalog.records_after config calls
    have hnext : (Catalog.after config calls).HasNumber := by
      have hle := length_registered_le config calls
      rw [Catalog.HasNumber, hrecords.nextId]
      omega
    rw [after_concat, Catalog.after_concat]
    exact ((ih (by omega)).register hrecords.numbered hnext call).2

end Registry

namespace Catalog

variable {c : Catalog} {log : List Table}

namespace Records

theorem nodup_names (h : c.Records log) : (c.tables.map Table.name).Nodup := by
  have htables : c.tables.Nodup := h.numbered.nodup.of_map _
  exact htables.map_on fun t ht u hu => h.eq_of_name ht hu

/-- The table with a number is the one that was registered under it, if its name was not given
again. -/
theorem table_eq_ok_iff (h : c.Records log) {id : TableId} {t : Table} :
    c.table id = .ok t ↔ t.file.table = id ∧ Latest log t := by
  rw [h.numbered.table_eq_ok_iff, h.mem_iff, and_comm]

/-- Names and numbers lead to each other. -/
theorem tableId_eq_ok_iff (h : c.Records log) {name : String} {id : TableId} :
    c.tableId name = .ok id ↔ c.tableName id = .ok name := by
  have hid : c.tableId name = .ok id ↔ ∃ t ∈ c.tables, t.name = name ∧ t.file.table = id := by
    simp only [← and_assoc, ← find?_eq_some_iff_of_nodup h.nodup_names, tableId]
    cases c.tables.find? fun t => t.name = name with
    | none => simp
    | some found => simp
  have hname : c.tableName id = .ok name ↔ ∃ t ∈ c.tables, t.name = name ∧ t.file.table = id := by
    constructor
    · intro hname
      rw [tableName] at hname
      cases htable : c.table id with
      | error cause =>
        rw [htable] at hname
        cases hname
      | ok t =>
        rw [htable] at hname
        cases hname
        obtain ⟨ht, hnumber⟩ := h.numbered.table_eq_ok_iff.1 htable
        exact ⟨t, ht, rfl, hnumber⟩
    · rintro ⟨t, ht, rfl, hnumber⟩
      rw [tableName, h.numbered.table_eq_ok_iff.2 ⟨ht, hnumber⟩]
      rfl
  rw [hid, hname]

theorem mem_tableIds_iff (h : c.Records log) {id : TableId} :
    id ∈ c.tableIds ↔ ∃ t, c.table id = .ok t := by
  simp only [h.numbered.table_eq_ok_iff, tableIds, List.mem_map]

/-- A table whose name was given again is not found. -/
theorem not_found (h : c.Records log) {t u : Table} (ht : t ∈ log) (hu : u ∈ log)
    (hlt : t.file.table.number < u.file.table.number) (hname : u.name = t.name) :
    c.table t.file.table = .error (.tableNotFound t.file.table) := by
  cases hfind : c.table t.file.table with
  | error cause => rw [eq_of_table_eq_error hfind]
  | ok found =>
    obtain ⟨hid, hfound, hlater⟩ := h.table_eq_ok_iff.1 hfind
    obtain rfl : found = t := h.eq_of_number hfound ht (congrArg TableId.number hid)
    exact absurd hname (hlater u hu hlt)

end Records

/-- No table is found under a number. -/
structure Lacks (c : Catalog) (id : TableId) : Prop where
  table : c.table id = .error (.tableNotFound id)
  file : c.file id = .error (.tableNotFound id)
  schema : c.schema id = .error (.tableNotFound id)
  tableName : c.tableName id = .error (.tableNotFound id)

theorem lacks_of_table {id : TableId} (h : c.table id = .error (.tableNotFound id)) :
    c.Lacks id := by
  have hfile : c.file id = .error (.tableNotFound id) := by
    rw [file, h]
    rfl
  refine ⟨h, hfile, ?_, ?_⟩
  · rw [schema, hfile]
    rfl
  · rw [tableName, h]
    rfl

/-- A catalog in order, after calls, beside its registry and the tables that the calls
registered. -/
structure InOrder (config : Config) (calls : List Registration) (c : Catalog) (r : Registry)
    (log : List Table) : Prop where
  /-- Two maps and a counter tell every table as the one list does. -/
  table_eq : ∀ id, r.table id = c.table id
  tableId_eq : ∀ name, r.tableId name = c.tableId name
  tableIds_eq : r.tableIds = c.tableIds
  /-- They have answered every call alike. -/
  answers_eq : ∀ earlier call later, calls = earlier ++ call :: later →
    ((Registry.after config earlier).register call).1 = ((after config earlier).register call).1
  /-- A name leads to a number exactly if the number leads to the name. -/
  name_iff : ∀ name id, c.tableId name = .ok id ↔ c.tableName id = .ok name
  /-- A number leads to the table that has it, if that is the last one with its name. -/
  table_iff : ∀ id t, c.table id = .ok t ↔ t.file.table = id ∧ Latest log t
  /-- What a number leads to was registered under it, with its name, file and schema. -/
  registered_as : ∀ id f, c.file id = .ok f → f.table = id ∧ ∃ call,
    (opened calls)[id.number - 1]? = some (call, f.name) ∧
      c.schema id = .ok call.schema ∧ c.tableName id = .ok call.name
  /-- The next call gets the number after the count of those that opened a file, or it fails. -/
  answer : ∀ call, (c.register call).1 =
    if call.opened?.isSome then .ok ⟨log.length + 1⟩ else .error .io
  /-- If it fails, all is left as it is. -/
  failed : ∀ call, call.opened? = none →
    c.register call = (.error .io, c) ∧ r.register call = (.error .io, r)
  /-- A table whose name was given again is not found any more, whatever calls follow. -/
  replaced : ∀ t ∈ log, ∀ u ∈ log, t.file.table.number < u.file.table.number → u.name = t.name →
    ∀ later, (after config (calls ++ later)).Lacks t.file.table
  ascending : c.tableIds.Pairwise fun a b => a.number < b.number
  mem_iff : ∀ id, id ∈ c.tableIds ↔ ∃ t, c.table id = .ok t

/-- **Registrations leave a catalog in order**, fewer than 2^32 of them, of any names and paths. -/
theorem after_consistent (config : Config) (calls : List Registration)
    (hcount : calls.length < 2 ^ 32) :
    InOrder config calls (after config calls) (Registry.after config calls)
      (registered config calls) := by
  have hrecords : (after config calls).Records (registered config calls) :=
    records_after config calls
  have hholds : (Registry.after config calls).Holds (after config calls) :=
    Registry.holds_after config hcount
  exact {
    table_eq := hholds.table_eq hrecords.numbered
    tableId_eq := hholds.tableId_eq hrecords.nodup_names
    tableIds_eq := hholds.tableIds_eq hrecords.ascending
    answers_eq := by
      rintro earlier call later rfl
      rw [List.length_append, List.length_cons] at hcount
      have hearlier := records_after config earlier
      have hnext : (after config earlier).HasNumber := by
        have hle := length_registered_le config earlier
        rw [HasNumber, hearlier.nextId]
        omega
      have hsame : (Registry.after config earlier).Holds (after config earlier) :=
        Registry.holds_after config (by omega)
      exact (hsame.register hearlier.numbered hnext call).1
    name_iff := fun name id => hrecords.tableId_eq_ok_iff
    table_iff := fun id t => hrecords.table_eq_ok_iff
    registered_as := by
      intro id f hf
      obtain ⟨t, ht, rfl, rfl⟩ := hrecords.numbered.file_eq_ok_iff.1 hf
      have hfound := hrecords.numbered.table_eq_ok_iff.2 ⟨ht, rfl⟩
      obtain ⟨call, hget, hentry⟩ := exists_call_of_mem ((hrecords.mem_iff t).1 ht).1
      refine ⟨rfl, call, hget, ?_, ?_⟩
      · rw [schema, hf]
        exact congrArg (fun t : Table => Except.ok t.file.schema) hentry
      · rw [tableName, hfound]
        exact congrArg (fun t : Table => Except.ok t.name) hentry
    answer := by
      intro call
      cases hopened : call.opened? with
      | none =>
        rw [register_of_none hopened]
        rfl
      | some file =>
        rw [register_of_some hopened, hrecords.nextId]
        rfl
    failed := fun call hclosed => ⟨register_of_none hclosed, Registry.register_of_none hclosed⟩
    replaced := by
      intro t ht u hu hlt hname later
      have hmore := (registered_begins config calls later).subset
      exact lacks_of_table
        ((records_after config (calls ++ later)).not_found (hmore ht) (hmore hu) hlt hname)
    ascending := hrecords.ascending
    mem_iff := fun id => hrecords.mem_tableIds_iff }

/-- A table of integers is registered under a name. -/
def integersAt (name path : String) : Registration := ⟨{}, name, path, .single ⟨.int, none⟩⟩

/-- Two tables, a path that leads to no file, and the name of the first again. -/
def nameAgain : List Registration :=
  [integersAt "t" "f", integersAt "u" "g", integersAt "u" "", integersAt "t" "h"]

/-- The third table has the name of the first now, and the numbers are without a gap. -/
theorem after_nameAgain :
    nameAgain.length < 2 ^ 32 ∧ (after {} nameAgain).tableIds = [⟨2⟩, ⟨3⟩] ∧
      (Registry.after {} nameAgain).tableIds = [⟨2⟩, ⟨3⟩] ∧
      (after {} nameAgain).tableId "t" = .ok ⟨3⟩ ∧ (after {} nameAgain).tableName ⟨3⟩ = .ok "t" ∧
      (after {} nameAgain).tableId "u" = .ok ⟨2⟩ ∧
      (after {} (nameAgain ++ nameAgain)).Lacks ⟨1⟩ ∧
      ((after {} nameAgain).register (integersAt "t" "f")).1 = .ok ⟨4⟩ ∧
      (after {} nameAgain).register (integersAt "v" "") = (.error .io, after {} nameAgain) := by
  have hcount : nameAgain.length < 2 ^ 32 := by decide
  have horder := after_consistent {} nameAgain hcount
  have hfirst : (integersAt "t" "f").opened? = some "f" := by cbv
  have hsecond : (integersAt "u" "g").opened? = some "g" := by cbv
  have hclosed : (integersAt "u" "").opened? = none := by cbv
  have hthird : (integersAt "t" "h").opened? = some "h" := by cbv
  have hafter : after {} nameAgain = ⟨{}, [(integersAt "u" "g").entry {} ⟨2⟩ "g",
      (integersAt "t" "h").entry {} ⟨3⟩ "h"], 4⟩ := by
    rw [after, nameAgain, List.foldl_cons, register_of_some hfirst, List.foldl_cons,
      register_of_some hsecond, List.foldl_cons, register_of_none hclosed, List.foldl_cons,
      register_of_some hthird, List.foldl_nil]
    decide +kernel
  have hlog : registered {} nameAgain =
      [(integersAt "t" "f").entry {} ⟨1⟩ "f", (integersAt "u" "g").entry {} ⟨2⟩ "g",
        (integersAt "t" "h").entry {} ⟨3⟩ "h"] := by
    simp [registered, opened, nameAgain, hfirst, hsecond, hclosed, hthird]
  have htables : (after {} nameAgain).tableIds = [⟨2⟩, ⟨3⟩] := by
    rw [hafter]
    decide
  have hagain : (after {} nameAgain).tableId "t" = .ok ⟨3⟩ := by
    rw [hafter]
    decide +kernel
  have hother : (after {} nameAgain).tableId "u" = .ok ⟨2⟩ := by
    rw [hafter]
    decide +kernel
  refine ⟨hcount, htables, horder.tableIds_eq.trans htables, hagain, (horder.name_iff _ _).1 hagain,
    hother, ?_, ?_, (horder.failed _ (by cbv)).1⟩
  · have hreplaced := horder.replaced
    rw [hlog] at hreplaced
    exact hreplaced ((integersAt "t" "f").entry {} ⟨1⟩ "f") (by simp)
      ((integersAt "t" "h").entry {} ⟨3⟩ "h") (by simp) (by decide) rfl nameAgain
  · rw [horder.answer, hlog, hfirst]
    rfl

end Catalog

end Rowstore
