import Rowstore.HeapFile

/-!
# Catalogs

The tables of a database, by number and by name. Numbers are given in order from 1 and never given
again. A table created under a name that is taken takes the place of the earlier one, which is then
no longer registered; a table whose file cannot be opened changes nothing.
-/

namespace Rowstore

/-- The sizes a database is made with. -/
structure Config where
  /-- The bytes of a page. -/
  pageSize : Nat := 4096
  /-- The most pages kept in memory. -/
  poolPages : Nat := 50
deriving DecidableEq

/-- A registered table. -/
structure Table where
  name : String
  file : HeapFile
deriving DecidableEq

/-- The registered tables, in the order of their numbers. -/
structure Catalog where
  config : Config
  tables : List Table := []
  /-- The number the next table gets, if that is a number of a table. -/
  nextId : Nat := 1
deriving DecidableEq

namespace Catalog

/-- There is a number for another table: numbers of tables have 32 bits. -/
def HasNumber (c : Catalog) : Prop := c.nextId < 0x100000000

instance (c : Catalog) : Decidable c.HasNumber := inferInstanceAs (Decidable (_ < _))

/-- The table with a number. -/
def table (c : Catalog) (id : TableId) : Except DbError Table :=
  match c.tables.find? (fun t => t.file.table = id) with
  | some t => .ok t
  | none => .error (.tableNotFound id)

/-- The file of a table. -/
def file (c : Catalog) (id : TableId) : Except DbError HeapFile := (c.table id).map Table.file

/-- The name of a table. -/
def tableName (c : Catalog) (id : TableId) : Except DbError String := (c.table id).map Table.name

/-- The schema of a table. -/
def schema (c : Catalog) (id : TableId) : Except DbError Schema :=
  (c.file id).map HeapFile.schema

/-- The number of the table with a name. -/
def tableId (c : Catalog) (name : String) : Except DbError TableId :=
  match c.tables.find? (fun t => t.name = name) with
  | some t => .ok t.file.table
  | none => .error (.tableNameNotFound name)

/-- The numbers of all tables, in order. -/
def tableIds (c : Catalog) : List TableId := c.tables.map fun t => t.file.table

/-- Register a table under a name, with its file at a path, as long as there is a number for it:
`Catalog.HasNumber`. -/
def createTable (c : Catalog) (disk : Disk) (name path : String) (schema : Schema) :
    Except DbError (TableId × Catalog × Disk) :=
  match disk.openFile? path with
  | none => .error .io
  | some (file, disk) =>
    let id : TableId := ⟨c.nextId⟩
    let new : Table := ⟨name, ⟨id, file, schema, c.config.pageSize⟩⟩
    .ok (id, { c with
      tables := c.tables.filter (fun t => t.name ≠ name) ++ [new]
      nextId := c.nextId + 1 }, disk)

end Catalog

end Rowstore
