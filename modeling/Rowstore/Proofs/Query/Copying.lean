import Mathlib
import Rowstore.Proofs.Query.Exhausting
import Rowstore.Proofs.Query.Storing
import Rowstore.Proofs.Run.Copying
import Rowstore.Proofs.Run.FirstFit

/-!
# Insertions of a table into itself

The rows of a table, or those of them that satisfy a predicate, are inserted into the same table:
`Operator.intoItself`. The scan under the insertion takes a page as it is when the scan comes to it,
with the copies that were put there before.

* What the child does in a pull is told by the scan: the rows that it skips and the one that it
  gives, `Operator.Skims`.
* Between two rows the copies are those of the rows given that satisfy the predicate,
  `Operator.Copying`, and storing another row keeps it so, `Operator.Copying.fill`.
* Every row that the table held is copied once, and so is every copy that was put on a page that the
  scan had counted and not come to: `Operator.insertion_into_itself`. The pull tells the count of
  all copies. The pages of the table must have numbers in the end.
-/

namespace Rowstore

/-- Whether a row satisfies a predicate, if there is one. -/
def Row.passes (p : Option Predicate) (row : Row) : Bool :=
  p.all fun p => row.values[p.column]?.join.any fun v => v.satisfies p.op p.operand

theorem Row.passes_at (p : Option Predicate) (row : Row) (record : RecordId) :
    (row.at record).passes p = row.passes p := rfl

theorem Row.passes_of_holds {p : Predicate} {row : Tuple} {b : Bool} (h : p.holds row = .ok b) :
    row.row.passes (some p) = b := by
  unfold Predicate.holds at h
  cases hfield : row.field p.column with
  | error cause =>
    rw [hfield] at h
    cases h
  | ok v =>
    rw [hfield] at h
    cases h
    have hvalue : row.row.values[p.column]? = some (some v) := Tuple.field_eq_ok_iff.1 hfield
    simp [passes, hvalue]

namespace Operator

variable {db : Nat} {tx tx' : TxId} {table : TableId} {label : String} {schema : Schema}
  {f : HeapFile} {p : Option Predicate} {e e' : Engine} {op op' child child' : Operator}
  {place place' : Scan} {o : Option Tuple} {n : Nat}

/-! ### Rows of the child -/

/-- The rows of an operator, or those of them that satisfy a predicate. -/
def picked (c : Cursor) (op : Operator) : Option Predicate → Operator
  | none => op
  | some p => filter p op c

/-- An insertion into a table of its own rows, or of those that satisfy a predicate. -/
def intoItself (db : Nat) (tx tx' : TxId) (f : HeapFile) (label : String) (p : Option Predicate) :
    Operator :=
  insert db tx f.table f.schema
    (picked {} (scan db f.table label (f.schema.qualified label) (f.scan tx') {}) p) false {}

/-- It is built from a scan of the table. -/
theorem intoItself_of_built (hf : (e.store db).catalog.file table = .ok f)
    (hchild : ofTable e db tx' table label = .ok child) :
    inserting e db tx table (picked {} child p) = .ok (intoItself db tx tx' f label p) := by
  obtain rfl := Catalog.table_of_file hf
  unfold ofTable at hchild
  rw [hf] at hchild
  cases hchild
  have hshape : (picked {} (scan db f.table label (f.schema.qualified label) (f.scan tx') {})
      p).schema.SameShape f.schema := by
    cases p <;> exact Schema.types_qualified ..
  unfold inserting Catalog.schema
  rw [hf]
  simp only [Except.map, Bind.bind, Except.bind, hshape, not_true_eq_false, if_false]
  rfl

/-- The child between two pulls. -/
def picking (db : Nat) (table : TableId) (label : String) (schema : Schema)
    (p : Option Predicate) (place : Scan) : Operator :=
  picked .ready (scan db table label schema place .ready) p

/-- A scan goes on to the next row that satisfies a predicate, or to its end. The rows before that
are skipped. -/
inductive Skims (p : Option Predicate) :
    Scan × Store → List Row → Option Tuple → Scan × Store → Prop
  | ended {place s place' t} (hlook : place.hasNext s = (.ok false, place', t)) :
      Skims p (place, s) [] none (place', t)
  | gave {place s place' t row rest} (hlook : place.hasNext s = (.ok true, place', t))
      (hrest : place'.rest = some (row :: rest)) (hpass : row.row.passes p) :
      Skims p (place, s) [] (some row) ({ place' with rest := some rest }, t)
  | skipped {place s place' t row rest skipped o last}
      (hlook : place.hasNext s = (.ok true, place', t))
      (hrest : place'.rest = some (row :: rest)) (hpass : ¬ row.row.passes p)
      (hskims : Skims p ({ place' with rest := some rest }, t) skipped o last) :
      Skims p (place, s) (row.row :: skipped) o last

/-- A pull of a scan. -/
theorem look_of_pull_scan
    (h : (scan db table label schema place .ready).pull n e = (.ok o, child, e')) :
    (o = none ∧ ∃ place' s, place.hasNext (e.store db) = (.ok false, place', s) ∧
      child = scan db table label schema place' .ready ∧ e' = e.setStore db s) ∨
    ∃ place' s row rest, place.hasNext (e.store db) = (.ok true, place', s) ∧
      place'.rest = some (row :: rest) ∧ o = some (row.relabel schema) ∧
      child = scan db table label schema { place' with rest := some rest } .ready ∧
      e' = e.setStore db s := by
  rw [pull, pullWith_eq_of_ready rfl] at h
  cases n with
  | zero => cases h
  | succ n =>
    unfold fetch at h
    dsimp only at h
    cases hlook : place.hasNext (e.store db) with | mk result moment
    obtain ⟨place', s⟩ := moment
    rw [hlook] at h
    cases result with
    | error cause => cases h
    | ok more =>
      rcases Scan.hasNext_cases hlook with ⟨rfl, -⟩ | ⟨rfl, row, rest, hrest⟩
      · cases h
        exact .inl ⟨rfl, place', s, rfl, rfl, rfl⟩
      · simp only [Scan.next_of_rest hrest] at h
        cases h
        exact .inr ⟨place', s, row, rest, rfl, hrest, rfl, rfl, rfl⟩

theorem setStore_setStore (e : Engine) (db : Nat) (s t : Store) :
    (e.setStore db s).setStore db t = e.setStore db t := by
  simp [Engine.setStore]

theorem length_setStore (e : Engine) (db : Nat) (s : Store) :
    (e.setStore db s).databases.length = e.databases.length := List.length_set

/-- A pull of the child is one of the scan, or several. -/
theorem skims_of_pull (hdb : db < e.databases.length)
    (h : (picking db table label schema p place).pull n e = (.ok o, child, e')) :
    ∃ skipped last place' t, Skims p (place, e.store db) skipped last (place', t) ∧
      child = picking db table label schema p place' ∧ e' = e.setStore db t ∧
      o = last.map (Tuple.relabel · schema) := by
  cases p with
  | none =>
    rcases look_of_pull_scan h with
      ⟨rfl, place', t, hlook, rfl, rfl⟩ | ⟨place', t, row, rest, hlook, hrest, rfl, rfl, rfl⟩
    · exact ⟨[], none, place', t, .ended hlook, rfl, rfl, rfl⟩
    · exact ⟨[], some row, _, t, .gave hlook hrest rfl, rfl, rfl, rfl⟩
  | some p =>
    induction n generalizing place e with
    | zero => cases h
    | succ n ih =>
      rw [pull, pullWith_eq_of_ready rfl] at h
      unfold picking picked fetch at h
      obtain ⟨given, ⟨child₁, e₁⟩, hpull, h⟩ := Outcome.andThen_eq_ok_iff.1 h
      rcases look_of_pull_scan hpull with
        ⟨rfl, place', t, hlook, rfl, rfl⟩ | ⟨place', t, row, rest, hlook, hrest, rfl, rfl, rfl⟩
      · cases h
        exact ⟨[], none, place', t, .ended hlook, rfl, rfl, rfl⟩
      · dsimp only at h
        cases hholds : p.holds (row.relabel schema) with
        | error cause =>
          rw [hholds] at h
          cases h
        | ok pass =>
          have hpass : row.row.passes (some p) = pass := Row.passes_of_holds hholds
          rw [hholds] at h
          cases pass with
          | true =>
            cases h
            exact ⟨[], some row, _, t, .gave hlook hrest hpass, rfl, rfl, rfl⟩
          | false =>
            have hnext : (picking db table label schema (some p)
                { place' with rest := some rest }).pull n (e.setStore db t) =
                (.ok o, child, e') := by
              rw [pull, pullWith_eq_of_ready rfl]
              exact h
            obtain ⟨skipped, last, place'', u, hskims, hchild, rfl, ho⟩ :=
              ih (by rwa [length_setStore]) hnext
            rw [e.store_setStore t hdb] at hskims
            exact ⟨_, last, place'', u, .skipped hlook hrest (by simp [hpass]) hskims, hchild,
              setStore_setStore e db t u, ho⟩

/-! ### Between two rows -/

/-- Rows that a scan gave are being copied into its table. The scan counted `count` pages. -/
structure Copying (s t : Store) (f : HeapFile) (count : Nat) (place : Scan) (given : List Row)
    (copies : List Copy) : Prop where
  backed : t.Backed
  catalog_eq : t.catalog = s.catalog
  copied : s.Copied t f.table copies
  gathers : place.Gathers t f copies given
  count_eq : place.pageCount = count

section Copying

variable {s t u : Store} {count : Nat} {given skipped : List Row} {copies : List Copy}

/-- The scan looks for another row. -/
theorem Copying.look (h : Copying s t f count place given copies)
    (hf : s.catalog.file f.table = .ok f) {more : Bool}
    (hlook : place.hasNext t = (.ok more, place', u)) :
    Copying s u f count place' given copies ∧
      (more = false → place'.rest = some [] ∧ count ≤ place'.page + 1) := by
  obtain ⟨hstays, hgathers, hcount, -, hend⟩ :=
    h.gathers.look h.backed (h.catalog_eq ▸ hf) hlook
  obtain rfl := h.count_eq
  exact ⟨⟨hstays.1.backed, hstays.1.catalog_eq.trans h.catalog_eq,
    h.copied.of_shown (Scan.shownAt_of_stays hstays), hgathers, hcount⟩, fun hnone =>
    hcount ▸ hend hnone⟩

/-- A row is given. -/
theorem Copying.give (h : Copying s t f count place given copies) {row : Tuple}
    {rest : List Tuple} (hrest : place.rest = some (row :: rest)) :
    Copying s t f count { place with rest := some rest } (given ++ [row.row]) copies :=
  ⟨h.backed, h.catalog_eq, h.copied, h.gathers.give hrest, h.count_eq⟩

/-- What is known when the child has given a row, which is on the page that the scan is on, or has
come to its end. -/
def Skimmed (p : Option Predicate) (s : Store) (f : HeapFile) (count : Nat) (given : List Row)
    (copies : List Copy) : Option Tuple → Scan × Store → Prop
  | none, (place, t) => Copying s t f count place given copies ∧ place.rest = some [] ∧
    count ≤ place.page + 1
  | some row, (place, t) => row.row.passes p ∧
    Copying s t f count place (given ++ [row.row]) copies ∧
    ∃ record, row.record = some record ∧ record.page.number = place.page

theorem Copying.skim {now next : Scan × Store} (hskims : Skims p now skipped o next)
    (h : Copying s now.2 f count now.1 given copies) (hf : s.catalog.file f.table = .ok f) :
    (∀ row ∈ skipped, ¬ row.passes p) ∧ Skimmed p s f count (given ++ skipped) copies o next := by
  induction hskims generalizing given with
  | ended hlook =>
    obtain ⟨hcopying, hend⟩ := h.look hf hlook
    rw [List.append_nil]
    exact ⟨nofun, hcopying, hend rfl⟩
  | gave hlook hrest hpass =>
    have hcopying := (h.look hf hlook).1
    rw [List.append_nil]
    exact ⟨nofun, hpass, hcopying.give hrest, hcopying.gathers.here _ hrest _ (by simp)⟩
  | skipped hlook hrest hpass _ ih =>
    obtain ⟨hskipped, hlast⟩ := ih ((h.look hf hlook).1.give hrest)
    rw [List.append_assoc] at hlast
    refine ⟨?_, hlast⟩
    rintro row (_ | ⟨_, hrow⟩)
    · exact hpass
    · exact hskipped row hrow

/-- A row that was given is where it was read. -/
theorem Copying.shownAt_of_mem (h : Copying s t f count place given copies) {row : Row}
    (hrow : row ∈ given) {source : RecordId} (hsource : row.record = some source) :
    source.page.table = f.table ∧ t.shownAt source = some row := by
  obtain ⟨rest, -, hall⟩ := h.gathers.rows_eq
  obtain ⟨n, i, -, -, hfound⟩ := mem_rowsOf.1 (hall ▸ List.mem_append_left _ hrow)
  have hshown := Store.shownAt_of_found hfound
  cases (h.backed.row_of_shownAt hshown).1.symm.trans hsource
  exact ⟨rfl, hshown⟩

/-- A row of the page that the scan is on is stored in the table. -/
theorem Copying.copy (h : Copying s t f count place given copies)
    (hf : s.catalog.file f.table = .ok f) {row : Tuple} (hgiven : row.row ∈ given)
    {source : RecordId} (hsource : row.record = some source)
    (hpage : source.page.number = place.page) (hcount : f.Countable t.disk)
    (hinsert : t.insertRow tx f.table { row.relabel f.schema with record := none } =
      (.ok (), u)) :
    ∃ c : Copy, c.source = source ∧ Copying s u f count place given (copies ++ [c]) := by
  have hf' : t.catalog.file f.table = .ok f := h.catalog_eq ▸ hf
  obtain ⟨htable, hshown⟩ := h.shownAt_of_mem hgiven hsource
  obtain ⟨-, g, hg, -, -, htypes, hcomplete⟩ := h.backed.row_of_shownAt hshown
  rw [htable] at hg
  cases hf'.symm.trans hg
  have hrow : ({ row.relabel f.schema with record := none } : Tuple).Complete := hcomplete
  obtain ⟨g, record, hg, hslots, hlands, -, -, hshows⟩ :=
    h.backed.insertOutcome hf' hrow hcount hinsert
  cases hf'.symm.trans hg
  have hinserted := h.backed.inserted hslots hlands hshows.view_eq
  have hrowAt : ({ row.relabel f.schema with record := none } : Tuple).rowAt record =
      row.row.at record := by
    have hsame : f.schema.types = row.schema.types := htypes.symm
    simp only [Tuple.rowAt, Row.at, Tuple.row, Tuple.relabel, hsame]
  rw [hrowAt] at hinserted
  exact ⟨⟨source, record⟩, rfl, hshows.backed, hshows.catalog_eq.trans h.catalog_eq,
    h.copied.snoc hshown hlands.1 hinserted.free hinserted.shownAt_eq,
    h.gathers.copy hinserted.free hinserted.shownAt_eq hpage, h.count_eq⟩

/-! ### The whole insertion -/

theorem Copying.readable (h : Copying s (e.store db) f count place given copies)
    (hf : s.catalog.file f.table = .ok f) :
    (picking db f.table label schema p place).Readable e := by
  have hscan : (e.store db).catalog.file f.table = .ok place.file ∧
      (e.store db).Current f.table := by
    rw [h.catalog_eq, h.gathers.file_eq]
    exact ⟨hf, h.backed.current f.table⟩
  cases p <;> exact hscan

/-- The child goes on to its next row. -/
theorem Copying.pull (h : Copying s (e.store db) f count place given copies)
    (hf : s.catalog.file f.table = .ok f)
    (hpull : (picking db f.table label schema p place).pull n e = (.ok o, child, e')) :
    ∃ skipped last place', child = picking db f.table label schema p place' ∧
      o = last.map (Tuple.relabel · schema) ∧ (∀ row ∈ skipped, ¬ row.passes p) ∧
      Skimmed p s f count (given ++ skipped) copies last (place', e'.store db) := by
  have hdb := Engine.lt_of_file (h.catalog_eq.symm ▸ hf)
  obtain ⟨skipped, last, place', t, hskims, rfl, rfl, rfl⟩ := skims_of_pull hdb hpull
  obtain ⟨hskipped, hskimmed⟩ := Copying.skim hskims h hf
  refine ⟨skipped, last, place', rfl, rfl, hskipped, ?_⟩
  rwa [e.store_setStore t hdb]

/-- Rows that are skipped are not copied. -/
theorem filter_skipped (h : ∀ row ∈ skipped, ¬ row.passes p) :
    (given ++ skipped).filter (Row.passes p) = given.filter (Row.passes p) := by
  rw [List.filter_append, List.filter_eq_nil_iff.2 h, List.append_nil]

/-- Rows of the child are stored, and the copies are again those of the rows that were given and
satisfy the predicate. -/
theorem Copying.fill {now last : Operator × Engine} {rows : List Tuple}
    (hfills : Fills db tx f.table f.schema now rows last)
    (hnow : now.1 = picking db f.table label schema p place)
    (h : Copying s (now.2.store db) f count place given copies)
    (hf : s.catalog.file f.table = .ok f)
    (hcopies : copies.map (some ∘ Copy.source) =
      (given.filter (Row.passes p)).map Row.record) (hcount : f.Countable last.2.disk) :
    ∃ place' given' copies', last.1 = picking db f.table label schema p place' ∧
      copies'.length = copies.length + rows.length ∧
      Copying s (last.2.store db) f count place' given' copies' ∧
      copies'.map (some ∘ Copy.source) = (given'.filter (Row.passes p)).map Row.record := by
  induction hfills generalizing place given copies with
  | refl => exact ⟨place, given, copies, hnow, rfl, h, hcopies⟩
  | @cons op op' e e' n row t rows last hpull hinsert hrest ih =>
    obtain rfl : op = picking db f.table label schema p place := hnow
    obtain ⟨skipped, given', place', rfl, hrow, hskipped, hskimmed⟩ := h.pull hf hpull
    obtain ⟨row, rfl, rfl⟩ := Option.map_eq_some_iff.1 hrow.symm
    obtain ⟨hpass, hcopying, source, hsource, hpage⟩ := hskimmed
    have hcountable : f.Countable e'.disk :=
      Fills.countable hpull hinsert hrest (h.readable hf) (h.catalog_eq.symm ▸ hf) hcount
    obtain ⟨c, rfl, hcopied⟩ := hcopying.copy hf (by simp) hsource hpage hcountable hinsert
    have hsources : (copies ++ [c]).map (some ∘ Copy.source) =
        ((given ++ skipped ++ [row.row]).filter (Row.passes p)).map Row.record := by
      have hrecord : row.row.record = some c.source := hsource
      rw [List.map_append, hcopies, List.filter_append, filter_skipped hskipped, List.map_append]
      simp [hpass, hrecord]
    have ht := e'.store_setStore t (Engine.lt_of_file (hcopying.catalog_eq.symm ▸ hf))
    obtain ⟨place'', given'', copies', hlast, hlength, hcopying', hcopies'⟩ :=
      ih rfl (ht.symm ▸ hcopied) hsources hcount
    refine ⟨place'', given'', copies', hlast, ?_, hcopying', hcopies'⟩
    rw [hlength, List.length_append, List.length_singleton, List.length_cons]
    omega

/-- When all rows of the child have been stored, the copies are those of all rows that the scan
finds and that satisfy the predicate. -/
theorem Copying.whole {now mid last : Operator × Engine} {rows : List Tuple}
    (h : Copying s (now.2.store db) f count place [] []) (hf : s.catalog.file f.table = .ok f)
    (hfills : Fills db tx f.table f.schema now rows mid)
    (hnow : now.1 = picking db f.table label schema p place)
    (hstops : Stops db tx f.table f.schema mid (.ok ()) last) (hcount : f.Countable mid.2.disk) :
    ∃ copies, copies.length = rows.length ∧ (last.2.store db).Backed ∧
      (last.2.store db).catalog = s.catalog ∧ s.Copied (last.2.store db) f.table copies ∧
      copies.map Copy.source = (last.2.store db).sources f count copies (Row.passes p) := by
  obtain ⟨place', given, copies, hmid, hlength, hcopying, hcopies⟩ :=
    h.fill hfills hnow hf rfl hcount
  obtain ⟨op, e'⟩ := mid
  obtain rfl : op = picking db f.table label schema p place' := hmid
  obtain @⟨_, _, n, ⟨child, e''⟩, hpull⟩ := hstops
  obtain ⟨skipped, o, place'', -, ho, hskipped, hskimmed⟩ := hcopying.pull hf hpull
  obtain rfl : o = none := Option.map_eq_none_iff.1 ho.symm
  obtain ⟨hended, hrest, hlast⟩ := hskimmed
  refine ⟨copies, hlength.trans (Nat.zero_add _), hended.backed, hended.catalog_eq, hended.copied,
    hended.backed.map_source_eq ?_⟩
  -- the scan has come to its end, so it gave all rows that it finds
  obtain ⟨rest, hrest', hrows⟩ := hended.gathers.rows_eq
  cases hrest.symm.trans hrest'
  rw [hended.count_eq, Nat.min_eq_left hlast, List.map_nil, List.append_nil] at hrows
  rw [hcopies, ← filter_skipped hskipped, hrows]

end Copying

theorem start_picked {e₁ : Engine}
    (h : (picked {} (scan db table label schema place {}) p).start e = (.ok (), child, e₁)) :
    ∃ place' t, place.start (e.store db) = (.ok (), place', t) ∧
      child = picking db table label schema p place' ∧ e₁ = e.setStore db t := by
  have hscan : ∀ {child : Operator}, (scan db table label schema place {}).start e =
      (.ok (), child, e₁) → ∃ place' t, place.start (e.store db) = (.ok (), place', t) ∧
        child = scan db table label schema place' .ready ∧ e₁ = e.setStore db t := by
    intro child h
    unfold start at h
    dsimp only at h
    generalize place.start (e.store db) = o at h ⊢
    obtain ⟨cause | u, place', t⟩ := o
    · cases h
    · cases h
      exact ⟨place', t, rfl, rfl, rfl⟩
  cases p with
  | none => exact hscan h
  | some p =>
    obtain ⟨u, ⟨child₁, e'⟩, hstart, h⟩ := Outcome.andThen_eq_ok_iff.1 h
    cases h
    obtain ⟨place', t, hplace, rfl, he⟩ := hscan hstart
    exact ⟨place', t, hplace, rfl, he⟩

/-- **A table that is inserted into itself** has each of its rows copied once, and a copy exactly if
the scan comes to it. -/
theorem insertion_into_itself {e₁ e₂ : Engine} (hs : (e.store db).Backed)
    (hf : (e.store db).catalog.file f.table = .ok f)
    (hopens : (intoItself db tx tx' f label p).start e = (.ok (), op, e₁))
    (hpull : op.pull n e₁ = (.ok o, op', e₂)) (hcount : f.Countable e₂.disk) :
    let s := e.store db
    let t := e₂.store db
    ∃ copies : List Copy, o = some (countRow copies.length) ∧ s.Copied t f.table copies ∧
      copies.map Copy.source =
        t.sources f (s.wholePages f.table) copies (Row.passes p) ∧
      (∀ record row, record.page.table = f.table → s.shownAt record = some row →
        row.passes p → (copies.map Copy.source).count record = 1) ∧
      (∀ c ∈ copies, (copies.map Copy.source).count c.place =
        if c.Ahead ∧ c.place.page.number < s.wholePages f.table then 1 else 0) ∧
      copies.length = (s.tableRows f.table).countP (Row.passes p) +
        copies.countP fun c => c.Ahead ∧ c.place.page.number < s.wholePages f.table := by
  intro s t
  obtain ⟨u, ⟨child, e'⟩, hstart, hopens⟩ := Outcome.andThen_eq_ok_iff.1 hopens
  cases hopens
  obtain ⟨place, t₁, hplace, rfl, rfl⟩ := start_picked hstart
  obtain ⟨hstays, hpages, hgathers⟩ := Scan.gathers_of_start hs hf hplace
  have hcopying : Copying s ((e.setStore db t₁).store db) f place.pageCount place [] [] := by
    rw [e.store_setStore t₁ (Engine.lt_of_file hf)]
    exact ⟨hstays.1.backed, hstays.1.catalog_eq,
      (Store.Copied.refl s f.table).of_shown (Scan.shownAt_of_stays hstays), hgathers, rfl⟩
  obtain ⟨rows, mid, last, hfills, ⟨hstops, hrow, hlast⟩ | ⟨cause, -, hrow, -⟩⟩ :=
    fills_of_pull hpull nofun
  · cases hrow
    cases hlast
    obtain ⟨hcountFirst, hcountMid⟩ := hstops.countable hfills (hcopying.readable hf)
      (hcopying.catalog_eq.symm ▸ hf) hcount
    have hcountable : f.Countable s.disk := by
      have hdisk : (e.setStore db t₁).disk = s.disk := hstays.2
      rwa [HeapFile.Countable, hdisk] at hcountFirst
    have hcounted : place.pageCount = s.wholePages f.table := by
      rw [hpages, Store.wholePages_eq hf]
      exact Nat.mod_eq_of_lt hcountable
    rw [hcounted] at hcopying
    obtain ⟨copies, hlength, hbacked, hcatalog, hcopied, hall⟩ :=
      hcopying.whole hf hfills rfl hstops hcountMid
    have hpasses := Row.passes_at p
    exact ⟨copies, by rw [hlength], hcopied, hall,
      fun record row htable hrow hpass => hcopied.count_source hf hall hs hrow htable hpass,
      fun c hc => hcopied.count_place hf hall hbacked hcatalog hpasses hc,
      hcopied.length_eq hf hall hbacked hcatalog hpasses hs hcountable⟩
  · cases hrow

/-- The numbers of the table of numbers, or those that satisfy a predicate, are inserted into it. -/
def numbersAgain (p : Option Predicate) : Operator :=
  intoItself 0 ⟨1⟩ ⟨2⟩ ⟨Store.only, "rows", Store.numbers, 5⟩ "r" p

/-- A table of two pages of one slot each, a 7 in the second one. -/
def sevenLast : Engine :=
  alone (Store.single Store.numbers 5 2 [0, 0, 0, 0, 0, 1, 7, 0, 0, 0] 0)

/-- A table of two pages of one slot each, a 7 in the first one. -/
def sevenFirst : Engine := alone (Store.single Store.numbers 5 4 [1, 7, 0, 0, 0] 5)

/-- The copy goes to the page that the scan has passed. -/
theorem insertion_into_itself_sevenLast :
    let opened := (numbersAgain (some ⟨0, .greater, .int 5⟩)).start sevenLast
    let pulled := opened.2.1.pull 9 opened.2.2
    (sevenLast.store 0).Backed ∧ opened.1 = .ok () ∧ pulled.1 = .ok (some (countRow 1)) ∧
      ∃ copies : List Copy, some (countRow 1) = some (countRow copies.length) ∧
        (sevenLast.store 0).Copied (pulled.2.2.store 0) Store.only copies ∧
        (copies.map Copy.source).count ⟨⟨Store.only, 1⟩, 0⟩ = 1 := by
  intro opened pulled
  have hs : (sevenLast.store 0).Backed := Store.single_unread.backed
  have hf : (sevenLast.store 0).catalog.file Store.only =
      .ok ⟨Store.only, "rows", Store.numbers, 5⟩ := rfl
  have hopened : opened.1 = .ok () := by decide +kernel
  have hpulled : pulled.1 = .ok (some (countRow 1)) := by decide +kernel
  have hcount : HeapFile.Countable ⟨Store.only, "rows", Store.numbers, 5⟩ pulled.2.2.disk := by
    decide +kernel
  have hseven : (sevenLast.store 0).shownAt ⟨⟨Store.only, 1⟩, 0⟩ =
      some ((Store.number 7).rowAt ⟨⟨Store.only, 1⟩, 0⟩) := by decide +kernel
  have hopens : (numbersAgain (some ⟨0, .greater, .int 5⟩)).start sevenLast =
      (.ok (), opened.2.1, opened.2.2) := Prod.ext hopened rfl
  have hpull : opened.2.1.pull 9 opened.2.2 =
      (.ok (some (countRow 1)), pulled.2.1, pulled.2.2) := Prod.ext hpulled rfl
  obtain ⟨copies, htold, hcopied, -, honce, -⟩ :=
    insertion_into_itself hs hf hopens hpull hcount
  exact ⟨hs, hopened, hpulled, copies, htold, hcopied, honce _ _ rfl hseven rfl⟩

/-- The copy goes to the page that the scan comes to next. The table held one number when the
insertion was opened, and two are inserted: the number and its copy. -/
theorem seven_inserted_twice :
    let opened := (numbersAgain none).start sevenFirst
    let pulled := opened.2.1.pull 9 opened.2.2
    let seven record := (Store.number 7).rowAt record
    opened.1 = .ok () ∧ ((sevenFirst.store 0).tableRows Store.only).countP (Row.passes none) = 1 ∧
      pulled.1 = .ok (some (countRow 2)) ∧
      (pulled.2.2.store 0).tableRows Store.only = [seven ⟨⟨Store.only, 0⟩, 0⟩,
        seven ⟨⟨Store.only, 1⟩, 0⟩, seven ⟨⟨Store.only, 2⟩, 0⟩] := by
  decide +kernel

end Operator

end Rowstore
