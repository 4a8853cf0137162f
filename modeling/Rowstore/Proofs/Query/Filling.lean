import Mathlib
import Rowstore.Proofs.Query.Obeying
import Rowstore.Proofs.Query.Sparing
import Rowstore.Proofs.Query.Storing
import Rowstore.Proofs.Query.Widths

/-!
# Filling a table from a tree

The rows of a tree over other tables are pulled and stored, one after another, until the rows end,
the tree fails, or a row cannot be stored: `Operator.Fills` and `Operator.Stops`. An insertion does
that in a pull, `Operator.Supplies.pull_insert`.

* The tables under the tree and the store that is filled stay as they should be,
  `Operator.Keeps`, so the rows that are pulled are those that were to come.
* What the store shows is what it would be if the rows were stored with nobody reading,
  `Operator.Supplies.fill`. A row that the tree gives is made room for in spite of the pages that
  the tree holds, so there is room for it without them.
-/

namespace Rowstore

namespace Feed

variable {ts us : List Tuple} {f g : Feed}

/-- The rows that come before the end or a failure. -/
def rows : Feed → List Tuple
  | ended | failed _ => []
  | row t rest => t :: rest.rows

end Feed

namespace Store

variable {s t u : Store} {tx : TxId} {table : TableId} {f : HeapFile} {row : Tuple}

/-- The rows are the same, and the file of a table has at most one page more. -/
structure Spared (s t : Store) (table : TableId) : Prop where
  rows : s.SameRows t
  pages : t.wholePages = s.wholePages ∨ s.OnePageMore t table

theorem Spared.of_stays (h : t.Spared u table) (hstays : s.Stays t) : s.Spared u table := by
  have hrows := sameRows_of_view hstays.1.view_eq
  have hpages : t.wholePages = s.wholePages := wholePages_congr hstays.1.catalog_eq hstays.2
  refine ⟨⟨h.rows.storedAt_eq.trans hrows.storedAt_eq, h.rows.shownAt_eq.trans hrows.shownAt_eq,
    h.rows.mark_eq.trans hrows.mark_eq⟩, h.pages.imp (·.trans hpages) ?_⟩
  rintro ⟨hwhole, hcount⟩
  rw [hpages] at hwhole hcount
  exact ⟨hwhole, hcount⟩

end Store

namespace Operator

variable {e₀ e e' e'' : Engine} {op op' child : Operator} {s s' mid last : Operator × Engine}
  {db : Nat} {tx : TxId} {table : TableId} {schema : Schema} {f : HeapFile} {row : Tuple}
  {rows : List Tuple} {n : Nat}

/-! ### What stays as it is -/

/-- The tables that a tree scans are the same in other databases, and a table can be filled
there. -/
structure Keeps (child : Operator) (db : Nat) (f : HeapFile) (e e' : Engine) : Prop where
  untouched : child.Untouched e e'
  file_eq : (e'.store db).catalog.file f.table = .ok f
  backed : (e'.store db).Backed
  tidy : (e'.store db).Tidy

namespace Keeps

theorem beside (h : Keeps child db f e e') (hchild : child.Beside e f.name) :
    child.Beside e' f.name := hchild.of_untouched h.untouched

theorem borrows (h : Keeps child db f e e') (hchild : child.Beside e f.name)
    (hborrows : e'.Borrows e'') : Keeps child db f e e'' where
  untouched := h.untouched.trans ((h.beside hchild).untouched_of_borrows hborrows)
  file_eq := by
    rw [(hborrows.store db).reads.catalog_eq]
    exact h.file_eq
  backed := ((hborrows.store db).stays h.backed).1.backed
  tidy := (hborrows.store db).tidy h.tidy

theorem insertRow (h : Keeps child db f e e') (hchild : child.Beside e f.name)
    (hrow : row.Complete) (hcount : f.Countable e'.disk) {result : Except DbError Unit}
    (hinsert : (e'.store db).insertRow tx f.table row = (result, t)) :
    Keeps child db f e (e'.setStore db t) := by
  have hcounts : (e'.store db).Counts (.insert tx f.table row hrow) := fun g hg _ => by
    cases h.file_eq.symm.trans hg
    exact .inl hcount
  obtain rfl : ((e'.store db).insertRow tx f.table row).2 = t := congrArg Prod.snd hinsert
  have hstore := e'.store_setStore ((e'.store db).insertRow tx f.table row).2
    (Engine.lt_of_file h.file_eq)
  refine ⟨h.untouched.trans ((h.beside hchild).untouched_insertRow h.backed h.file_eq hrow hcount),
    ?_, ?_, ?_⟩ <;> rw [hstore]
  · rw [Store.catalog_insertRow]
    exact h.file_eq
  · exact h.backed.after hcounts
  · exact (h.tidy.insertRow tx f.table row).tidy h.tidy

end Keeps

/-- A tree is somewhere in its rows, over databases in which a table can be filled from it. -/
structure Supplies (e : Engine) (child : Operator) (db : Nat) (f : HeapFile)
    (s : Operator × Engine) : Prop where
  fresh_eq : s.1.fresh = child.fresh
  keeps : Keeps child db f e s.2

namespace Supplies

theorem readable (h : Supplies e child db f s) (hchild : child.Beside e f.name) :
    s.1.Readable s.2 :=
  (readable_congr h.fresh_eq).2 (h.keeps.beside hchild).readable

theorem lent (h : Supplies e child db f s) (hchild : child.Beside e f.name)
    (hlent : s.1.Lent s.2 s') : Supplies e child db f s' :=
  ⟨hlent.fresh_eq.trans h.fresh_eq, h.keeps.borrows hchild hlent.borrows⟩

/-- What is said of the tree in the databases of now, and in those of before. -/
theorem prospect_eq (h : Supplies e child db f s) (hchild : child.Beside e f.name) :
    s.1.prospect s.2 = s.1.prospect e :=
  (h.keeps.untouched.congr h.fresh_eq).prospect_eq ((readable_congr h.fresh_eq).2 hchild.readable)

theorem steady_iff (h : Supplies e child db f s) (hchild : child.Beside e f.name) :
    s.1.Steady True s.2 ↔ s.1.Steady True e :=
  (h.keeps.untouched.congr h.fresh_eq).steady_iff ((readable_congr h.fresh_eq).2 hchild.readable)

/-- A pull gives the first row that is to come. -/
theorem met (h : Supplies e child db f s) (hchild : child.Beside e f.name) {o : Option Tuple}
    (hpull : s.1.pull n s.2 = (.ok o, s')) :
    Supplies e child db f s' ∧ s.1.Follows True e s'.1 ∧
      (s.1.prospect e).now = afterRow o (s'.1.prospect e).now := by
  have hlent := Lent.of_pull (h.readable hchild) hpull
  obtain ⟨-, hfollows, hnow⟩ :=
    met_of_pull True (h.readable hchild) (.refl s.2) hpull nofun
  -- the tree after the pull, in the databases before it
  have hafter : Supplies e child db f (s'.1, s.2) :=
    ⟨hlent.fresh_eq.trans h.fresh_eq, h.keeps⟩
  rw [h.prospect_eq hchild, hafter.prospect_eq hchild] at hnow
  refine ⟨h.lent hchild hlent, ⟨hlent.fresh_eq, ?_, fun hsteady => ?_⟩, hnow⟩
  · rw [← hafter.prospect_eq hchild, ← h.prospect_eq hchild]
    exact hfollows.again_eq
  · exact (hafter.steady_iff hchild).1 (hfollows.steady ((h.steady_iff hchild).2 hsteady))

end Supplies

/-! ### Storing rows while somebody reads -/

/-- Rows are stored as fast as a tree gives them. They are the first that were to come from it, and
without the tree they could be stored as well. -/
theorem Supplies.fill (h : Supplies e child db f s) (hchild : child.Beside e f.name)
    (hfills : Fills db tx f.table f.schema s rows last)
    (hwide : (s.1.prospect e).now.Wide f.schema.arity)
    (hslots : 0 < slotCount f.pageSize f.schema.size) (hcount : f.Countable last.2.disk)
    {base : Store} (hlighter : (s.2.store db).Lighter base) :
    Supplies e child db f last ∧ s.1.Follows True e last.1 ∧
      (s.1.prospect e).now = .prepend rows (last.1.prospect e).now ∧
      ∃ filled, base.insertRows tx f.table (rows.map (Tuple.toStore f.schema)) = (.ok (), filled) ∧
        (last.2.store db).Lighter filled := by
  induction hfills generalizing base with
  | refl s => exact ⟨h, .refl _, rfl, base, rfl, hlighter⟩
  | @cons op op' e₁ e₂ n row t rows last hpull hinsert hrest ih =>
    obtain ⟨hgiven, hfollows, hnow⟩ := h.met hchild hpull
    have hlent := Lent.of_pull (h.readable hchild) hpull
    have hf : (e₂.store db).catalog.file f.table = .ok f := hgiven.keeps.file_eq
    have hstore : (e₂.setStore db t).store db = t := e₂.store_setStore t (Engine.lt_of_file hf)
    rw [hnow] at hwide
    have hrow : (row.toStore f.schema).Complete := hwide.1
    have hcountable : f.Countable e₂.disk :=
      Fills.countable hpull hinsert hrest (h.readable hchild) h.keeps.file_eq hcount
    have hstored := hgiven.keeps.insertRow hchild hrow hcountable hinsert
    obtain ⟨base', hbase, hlighter'⟩ := (hlighter.borrowed (hlent.borrows.store db)).insertRow hf
      hslots hrow hcountable hinsert
    obtain ⟨hlast, hrestFollows, hrestNow, filled, hfilled, hend⟩ :=
      ih ⟨hgiven.fresh_eq, hstored⟩ hwide.2 hcount (hstore.symm ▸ hlighter')
    refine ⟨hlast, hfollows.trans hrestFollows, ?_, filled, ?_, hend⟩
    · rw [hnow]
      exact congrArg (Feed.row row) hrestNow
    · rw [List.map_cons, Store.insertRows_cons hbase]
      exact hfilled

/-! ### Where it stops -/

/-- Rows have been stored in a table, one after another, and nothing is seen of what else
happened. -/
def Stores (db : Nat) (tx : TxId) (f : HeapFile) (e e' : Engine) (rows : List Tuple) : Prop :=
  ∃ stored, (e.store db).insertRows tx f.table (rows.map (Tuple.toStore f.schema)) =
      (.ok (), stored) ∧ (e'.store db).view = stored.view ∧ e'.disk = stored.disk

/-- A pull of an insertion has stored all rows that were to come, and tells their count. -/
structure Filled (db : Nat) (tx : TxId) (f : HeapFile) (feed : Feed) (e : Engine)
    (given : Option Tuple) (e' : Engine) : Prop where
  ends : feed.Ends
  count : given = some (countRow feed.rows.length)
  stores : Stores db tx f e e' feed.rows

end Operator

end Rowstore
