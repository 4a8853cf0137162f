import Rowstore.Operator.Pull

/-!
# A demonstration

A session on one database in a few lines: two tables are filled and committed, a join is summarised
by group, some rows are deleted, and the rest are counted. `Demo.transcript` is what it prints.
-/

namespace Rowstore.Demo

/-- A session on databases: what fails ends it. -/
abbrev Session := ExceptT DbError (StateM Engine)

/-- The steps allowed for one pull; the tables of the demonstration need far fewer. -/
def steps : Nat := 100000

/-- The sizes of the database. -/
def config : Config := { pageSize := 512, poolPages := 16 }

/-- The columns of the employees' table. -/
def employees : Schema :=
  ⟨[⟨.int, some "id"⟩, ⟨.int, some "dept"⟩, ⟨.int, some "salary"⟩], by simp⟩

/-- The columns of the departments' table. -/
def departments : Schema := .pair ⟨.int, some "id"⟩ ⟨.str, some "name"⟩

/-- The rows of the employees' table. -/
def employeeRows : List Tuple := (List.range 40).map fun id =>
  Tuple.ofList employees ([id, id % 3 + 1, 1000 + id * 25].map fun n => .int (Int32.ofNat n))

/-- The rows of the departments' table. -/
def departmentRows : List Tuple :=
  [(1, "engineering"), (2, "sales"), (3, "support")].map fun (id, name) =>
    Tuple.ofList departments [.int (Int32.ofNat id), .str name]

/-- Do an operation on the database. -/
def onStore {α : Type} (operation : Store → Outcome Store α) : Session α :=
  ExceptT.mk fun e => e.run 0 operation

/-- Do an operation that makes an operator or a place, and changes nothing. -/
def ask {α : Type} (question : Engine → Except DbError α) : Session α := do
  match question (← get) with
  | .ok answer => return answer
  | .error cause => throw cause

/-- Begin a transaction. -/
def begin : Session TxId := modifyGet Engine.begin

/-- Pull from a tree of operators; the tree after that. -/
def pulling {α : Type} (op : Operator) (pull : Operator → Engine → Operator.Pulled α) :
    Session (α × Operator) :=
  ExceptT.mk fun e =>
    match pull op e with
    | (.ok a, op, e) => (.ok (a, op), e)
    | (.error cause, _, e) => (.error cause, e)

/-- Create a table of a schema in a file of its own. -/
def create (name : String) (schema : Schema) : Session TableId :=
  onStore fun s => Outcome.ofExcept s (s.createTable name (name ++ ".dat") schema)

/-- Store rows in a table. -/
def load (tx : TxId) (table : TableId) (rows : List Tuple) : Session Unit :=
  rows.forM fun row => onStore fun s => s.insertRow tx table row

/-- The rows of a table under an alias. -/
def scan (tx : TxId) (table : TableId) (label : String) : Session Operator :=
  ask fun e => Operator.ofTable e 0 tx table label

/-- The session, and the text it prints. -/
def session : Session String := do
  let employeeTable ← create "emp" employees
  let departmentTable ← create "dept" departments
  let loading ← begin
  load loading departmentTable departmentRows
  load loading employeeTable employeeRows
  onStore fun s => s.complete loading true
  let pages ← ask fun e => (e.store 0).pageCount employeeTable
  let working ← begin
  let pairs := Operator.join ⟨1, .equal, 0⟩ (← scan working employeeTable "e")
    (← scan working departmentTable "d")
  let average ← ask fun _ => Operator.aggregated pairs 2 (some 4) .avg
  let (_, average) ← pulling average Operator.start
  let (results, average) ← pulling average (Operator.collect steps)
  let low := Operator.filtered ⟨2, .less, .int 1250⟩ (← scan working employeeTable "e")
  let (_, deletion) ← pulling (Operator.deleting 0 working low) Operator.start
  let (deleted, _) ← pulling deletion (Operator.next steps)
  onStore fun s => s.complete working true
  let counting ← begin
  let all ← scan counting employeeTable "e"
  let count ← ask fun _ => Operator.aggregated all 0 none .count
  let (_, count) ← pulling count Operator.start
  let (remaining, _) ← pulling count (Operator.next steps)
  onStore fun s => s.complete counting true
  return "Pagedb - heap storage and iterator execution in Rust\n" ++
    "====================================================\n\n" ++
    s!"Page size {config.pageSize} bytes, buffer pool of {config.poolPages} pages\n\n" ++
    s!"Loaded 40 employees across {pages} pages\n" ++
    "\n" ++ average.schema.text ++ "\n" ++
    String.join (results.map fun row => "  " ++ row.text ++ "\n") ++
    "\nDeleted " ++ deleted.text ++ " rows\n" ++
    remaining.text ++ " rows remain\n" ++
    "\nDemo completed successfully!\n"

/-- What the demonstration prints. -/
def transcript : Except DbError String := (session.run.run (Engine.new [config])).1

end Rowstore.Demo
