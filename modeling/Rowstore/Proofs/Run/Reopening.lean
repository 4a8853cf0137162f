import Mathlib
import Rowstore.Proofs.File.Renumbering
import Rowstore.Proofs.Run.Rows

/-!
# Reopening

What a fresh database finds in the files of another one, `Store.Reopens`. It reads what is stored.
So it has the rows of the other one, in the same order, if nothing is marked there:
`Store.Reopens.tableRows_eq`.
-/

namespace Rowstore

namespace Store

/-- A fresh database that has registered files of another one: nothing is in memory, and each table
has a file of its own. The tables may have got other numbers. -/
structure Reopens (s t : Store) : Prop where
  disk_eq : t.disk = s.disk
  empty : t.pool.pages = []
  files : t.catalog.DistinctFiles
  registered : ∀ table g, t.catalog.file table = .ok g →
    ∃ f, s.catalog.file f.table = .ok f ∧ g = { f with table }

/-- A database reopens itself when it starts over with the files as they have become. -/
theorem Initial.reopens {s t : Store} (h : t.Initial) (hcatalog : s.catalog = t.catalog) :
    s.Reopens { t with disk := s.disk } where
  disk_eq := rfl
  empty := h.empty
  files := h.files
  registered := fun table g hg => by
    obtain rfl := Catalog.table_of_file hg
    exact ⟨g, hcatalog ▸ hg, rfl⟩

namespace Reopens

variable {s t : Store} {f : HeapFile} {table : TableId}

/-- Everything that is stored can be read by the fresh database. -/
theorem initial (h : s.Reopens t) (hsound : s.Sound) : t.Initial where
  empty := h.empty
  files := h.files
  readable := by
    intro table g number hg hhas
    obtain ⟨f, hf, rfl⟩ := h.registered table g hg
    rw [h.disk_eq] at hhas ⊢
    obtain ⟨cells, hcells⟩ := hsound.readable ⟨f.table, number⟩ hf hhas
    obtain ⟨page, hread, -⟩ := HeapFile.cells?_eq_some_iff.1 hcells
    obtain ⟨page', hread', -⟩ := HeapFile.readPage_inTable hread table
    exact ⟨page', hread'⟩

/-- The fresh database counts the same pages. -/
theorem pageCount_eq (h : s.Reopens t) (hf : s.catalog.file f.table = .ok f)
    (hg : t.catalog.file table = .ok { f with table }) :
    t.pageCount table = s.pageCount f.table := by
  rw [pageCount, pageCount, hf, hg, h.disk_eq]
  rfl

section

variable (h : s.Reopens t) (hsound : s.Sound) (hf : s.catalog.file f.table = .ok f)
  (hg : t.catalog.file table = .ok { f with table })
include h hsound hf hg

/-- The fresh database shows what is stored. -/
theorem shown_eq (number : Nat) : t.shown ⟨table, number⟩ =
    (s.stored ⟨f.table, number⟩).map (List.map (Option.map fun row => row.inTable table)) := by
  rw [shown_of_none ((h.initial hsound).page?_eq_none _)]
  cases hstored : s.stored ⟨f.table, number⟩ with
  | none =>
    have hsome := hsound.stored_isSome_iff ⟨f.table, number⟩ hf
    rw [hstored, ← h.disk_eq] at hsome
    have hsame := (h.initial hsound).sound.stored_isSome_iff ⟨table, number⟩ hg
    refine Option.not_isSome_iff_eq_none.1 fun hother => ?_
    exact absurd (hsome.2 (hsame.1 hother)) Bool.false_ne_true
  | some cells =>
    rw [stored_eq ⟨f.table, number⟩ hf] at hstored
    obtain ⟨page, hread, rfl⟩ := HeapFile.cells?_eq_some_iff.1 hstored
    obtain ⟨page', hread', hcells⟩ := HeapFile.readPage_inTable hread table
    rw [stored_eq ⟨table, number⟩ hg, h.disk_eq]
    exact HeapFile.cells?_eq_some_iff.2 ⟨page', hread', hcells⟩

/-- The fresh database has the same rows, in the same order, if nothing is marked. -/
theorem tableRows_eq (hclean : ∀ id, s.mark id = none) :
    t.tableRows table = (s.tableRows f.table).map fun row => row.inTable table := by
  have hpage : ∀ number, t.pageRows ⟨table, number⟩ =
      (s.pageRows ⟨f.table, number⟩).map fun row => row.inTable table := fun number => by
    have hsame : s.shown ⟨f.table, number⟩ = s.stored ⟨f.table, number⟩ :=
      hsound.clean _ (hclean _)
    rw [pageRows, pageRows, h.shown_eq hsound hf hg, hsame]
    cases s.stored ⟨f.table, number⟩ with
    | none => rfl
    | some cells => simp [List.reduceOption, List.filterMap_map, List.map_filterMap]
  rw [tableRows, tableRows, h.pageCount_eq hf hg]
  cases s.pageCount f.table with
  | error cause => rfl
  | ok count => simp only [rowsFrom, hpage, List.map_flatMap]

end

end Reopens

end Store

end Rowstore
