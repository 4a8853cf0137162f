import Mathlib
import Rowstore.Proofs.Run.Reopening
import Rowstore.Proofs.Run.Transparency

/-!
# Settlement

What the files hold when every transaction has committed. Only a transaction that inserts or deletes
leaves marks, and its commit takes all of its marks away, whoever's marks these pages had before. So
nothing is marked after the last commit, and the files have the rows that the operations say,
`Store.ledger`: the initial ones and those that were inserted, but for the ones that were deleted,
each in its record. A fresh database reads them there, in the same order. All this holds as long as
pages can be counted when one is added. A page that is added later keeps the rows exactly if it does
not take the place of one that has some.
-/

namespace Rowstore

namespace Store

variable {s t : Store} {a : Action} {actions : List Action}

/-- The rows after an operation, from those before it. -/
def book (s : Store) (rows : RecordId → Option Row) (a : Action) : RecordId → Option Row :=
  match a, s.result a with
  | .insert _ table row _, .ok () =>
    Function.update rows (s.landing table) (some (row.rowAt (s.landing table)))
  | .delete _ row, .ok () => row.record.elim rows fun record => Function.update rows record none
  | _, _ => rows

/-- The rows after operations one after another: those before them and all that were inserted, but
for the ones that were deleted. -/
def ledger (s : Store) (rows : RecordId → Option Row) : List Action → RecordId → Option Row
  | [] => rows
  | a :: actions => (s.after a).ledger (s.book rows a) actions

/-- Each transaction that inserts or deletes commits after that. -/
def Settled (s : Store) : List Action → Prop
  | [] => True
  | a :: actions =>
    (∀ tx ∈ a.mutator, s.result a = .ok () → .complete tx true ∈ actions) ∧
      (s.after a).Settled actions

instance decidableSettled : (s : Store) → (actions : List Action) → Decidable (s.Settled actions)
  | _, [] => isTrue trivial
  | s, a :: actions =>
    have := decidableSettled (s.after a) actions
    inferInstanceAs (Decidable ((∀ tx ∈ a.mutator, s.result a = .ok () →
      .complete tx true ∈ actions) ∧ (s.after a).Settled actions))

/-! ### Rows -/

theorem book_of_idle (hidle : a.mutator.isSome → s.result a ≠ .ok ())
    (rows : RecordId → Option Row) : s.book rows a = rows := by
  cases a with
  | insert | delete =>
    unfold book
    split
    · rename_i hresult
      exact absurd hresult (hidle rfl)
    · rename_i hresult
      exact absurd hresult (hidle rfl)
    · rfl
  | _ => rfl

/-- A reader gets the rows that the operation says. -/
theorem Sound.shownAt_after (h : s.Sound) (hcounts : s.Counts a) (hkeep : ¬ a.GivesUp) :
    (s.after a).shownAt = s.book s.shownAt a := by
  have hmoves := h.moves hcounts
  generalize hresult : s.result a = result at hmoves
  cases hmoves with
  | same idle rows => rw [rows.shownAt_eq, book_of_idle fun hsome => hresult ▸ idle hsome]
  | insert rows =>
    simp only [book, hresult]
    exact rows.shownAt_eq
  | delete place rows =>
    simp only [book, hresult, place, Option.elim_some]
    exact rows.shownAt_eq
  | write idle keeps rows =>
    have hidle : a.mutator.isSome → s.result a ≠ .ok () := fun hsome => by
      rw [idle] at hsome
      cases hsome
    rw [rows.shownAt_eq, book_of_idle hidle]
  | giveUp idle gives rows => exact absurd gives hkeep

/-- A reader gets the rows that the operations of a run say. -/
theorem Sound.shownAt_run (h : s.Sound) (hcounted : s.Counted actions)
    (hkeep : ∀ a ∈ actions, ¬ a.GivesUp) :
    (s.run actions).shownAt = s.ledger s.shownAt actions := by
  induction actions generalizing s with
  | nil => rfl
  | cons a actions ih =>
    obtain ⟨hfirst, hrest⟩ := List.forall_mem_cons.1 hkeep
    rw [run_cons, ih (h.after hcounted.1) hcounted.2 hrest, h.shownAt_after hcounted.1 hfirst]
    rfl

/-! ### Marks -/

/-- A mark is that of a transaction that has just inserted or deleted, or it was there before and
its transaction has not just committed. -/
theorem Sound.mark_after (h : s.Sound) (hcounts : s.Counts a) (hkeep : ¬ a.GivesUp) {id : PageId}
    {tx : TxId} (hmark : (s.after a).mark id = some tx) :
    a.mutator = some tx ∧ s.result a = .ok () ∨
      s.mark id = some tx ∧ a ≠ .complete tx true := by
  have hupdate : ∀ (other : TxId) (page : PageId),
      Function.update s.mark page (some other) id = some tx →
      other = tx ∨ s.mark id = some tx := fun other page hother => by
    by_cases hid : id = page
    · rw [hid, Function.update_self] at hother
      exact .inl (Option.some.inj hother)
    · rw [Function.update_of_ne hid] at hother
      exact .inr hother
  by_cases hcommit : a = .complete tx true
  · -- the commit takes all marks of its transaction away
    subst hcommit
    have rows := h.written_of_commit tx
    rw [rows.mark_eq] at hmark
    split_ifs at hmark with hown
    exact absurd (by simpa using hmark) hown
  · refine (or_congr_right (and_iff_left hcommit)).2 ?_
    have hmoves := h.moves hcounts
    generalize hresult : s.result a = result at hmoves
    cases hmoves with
    | same idle rows => exact .inr (rows.mark_eq ▸ hmark)
    | insert rows =>
      rw [rows.mark_eq] at hmark
      exact (hupdate _ _ hmark).imp_left fun hown => ⟨congrArg some hown, rfl⟩
    | delete place rows =>
      rw [rows.mark_eq] at hmark
      exact (hupdate _ _ hmark).imp_left fun hown => ⟨congrArg some hown, rfl⟩
    | write idle keeps rows =>
      rw [rows.mark_eq] at hmark
      split_ifs at hmark
      exact .inr hmark
    | giveUp idle gives rows => exact absurd gives hkeep

/-- Nothing is marked after a run in which every mark is met by a commit. -/
theorem Sound.mark_run (h : s.Sound) (hcounted : s.Counted actions)
    (hkeep : ∀ a ∈ actions, ¬ a.GivesUp) (hsettled : s.Settled actions)
    (hmarks : ∀ id tx, s.mark id = some tx → .complete tx true ∈ actions) (id : PageId) :
    (s.run actions).mark id = none := by
  -- the commits that are still to come are for all marks that are still there
  induction actions generalizing s with
  | nil => exact Option.eq_none_iff_forall_ne_some.2 fun tx hmark => nomatch hmarks id tx hmark
  | cons a actions ih =>
    obtain ⟨hfirst, hrest⟩ := List.forall_mem_cons.1 hkeep
    refine ih (h.after hcounted.1) hcounted.2 hrest hsettled.2 fun id tx hmark => ?_
    rcases h.mark_after hcounted.1 hfirst hmark with ⟨hmutator, hresult⟩ | ⟨hbefore, hne⟩
    · exact hsettled.1 tx hmutator hresult
    · exact (List.mem_cons.1 (hmarks id tx hbefore)).resolve_left (Ne.symm hne)

/-! ### The end -/

/-- A page that is added past the last page number takes the rows away whose place it takes. -/
theorem Sound.append_stores_iff (h : s.Sound) {table : TableId} {f : HeapFile}
    (hf : s.catalog.file table = .ok f) (hresult : s.result (.append table) = .ok ()) :
    (s.after (.append table)).storedAt = s.storedAt ↔
      f.Countable s.disk ∨ ∀ slot, s.storedAt ⟨f.nextPage s.disk, slot⟩ = none := by
  have hafter : (s.after (.append table)).storedAt = fun r =>
      if r.page = f.nextPage s.disk then none else s.storedAt r := funext fun r => by
    rw [storedAt, (h.pages_of_append hf hresult).1]
    split_ifs with hpage
    · rw [rowIn_of_some (by rw [hpage, Function.update_self]), HeapFile.blank_join]
    · rw [rowIn, Function.update_of_ne hpage, storedAt, rowIn]
  have hcount : f.Countable s.disk → ∀ slot, s.storedAt ⟨f.nextPage s.disk, slot⟩ = none :=
    fun hcount _ => rowIn_of_none ((h.stored_nextPage hf hresult).2 hcount)
  rw [hafter, or_iff_right_of_imp hcount]
  constructor
  · intro hsame slot
    rw [← hsame]
    exact if_pos rfl
  · intro hnone
    funext r
    split_ifs with hpage
    · obtain ⟨page, slot⟩ := r
      obtain rfl : page = f.nextPage s.disk := hpage
      exact (hnone slot).symm
    · rfl

/-- **The files hold what was committed**, when every transaction has committed. -/
theorem rows_of_settled (h : s.Initial) (hcounted : s.Counted actions)
    (hkeep : ∀ a ∈ actions, ¬ a.GivesUp) (hsettled : s.Settled actions) :
    let ended := s.run actions
    let rows := s.ledger s.storedAt actions
    ended.AllClean ∧ ended.storedAt = rows ∧ ended.shownAt = rows ∧
      (∀ f, s.catalog.file f.table = .ok f → f.Countable ended.disk →
        ended.tableRows f.table = rowsOf rows f.table (f.wholePages ended.disk) f.slots) ∧
      (∀ fresh, ended.Reopens fresh → fresh.ScansTables ∧
        ∀ table f, s.catalog.file f.table = .ok f →
          fresh.catalog.file table = .ok { f with table } →
          fresh.tableRows table = (ended.tableRows f.table).map fun row => row.inTable table) ∧
      ∀ table f, s.catalog.file table = .ok f → ended.result (.append table) = .ok () →
        ((ended.after (.append table)).storedAt = rows ↔
          f.Countable ended.disk ∨ ∀ slot, rows ⟨f.nextPage ended.disk, slot⟩ = none) := by
  intro ended rows
  obtain ⟨hended, hcatalog⟩ := h.sound.run hcounted
  -- nothing is in memory at first
  have hclean : ∀ id, s.mark id = none := fun id => mark_of_none (h.page?_eq_none id)
  have hmarks : ∀ id, ended.mark id = none :=
    h.sound.mark_run hcounted hkeep hsettled fun id tx hmark => by
      rw [hclean] at hmark
      cases hmark
  have hbefore : s.storedAt = s.shownAt :=
    funext fun r => h.sound.storedAt_of_clean (hclean r.page)
  have hshown : ended.shownAt = rows := by
    rw [h.sound.shownAt_run hcounted hkeep, ← hbefore]
  have hstored : ended.storedAt = rows :=
    (funext fun r => hended.storedAt_of_clean (hmarks r.page)).trans hshown
  refine ⟨hended.allClean_iff.2 hmarks, hstored, hshown, fun f hf hcount => ?_,
    fun fresh hfresh => ?_, ?_⟩
  · have hf' : ended.catalog.file f.table = .ok f := hcatalog ▸ hf
    rw [hended.tableRows_eq hf' hcount, hshown, wholePages_eq hf']
  · refine ⟨(hfresh.initial hended).sound.scansTables, fun table f hf hg => ?_⟩
    exact hfresh.tableRows_eq hended (hcatalog ▸ hf) hg hmarks
  · intro table f hf hresult
    rw [← hstored]
    exact hended.append_stores_iff (hcatalog ▸ hf) hresult

/-- Two transactions insert in one page and commit. A fresh database has both rows. -/
theorem numbers_settled :
    let actions := [.append only, insertNumber ⟨1⟩ 7, insertNumber ⟨2⟩ 8, .complete ⟨1⟩ true,
      .complete ⟨2⟩ true]
    let ended := noNumbers.run actions
    let fresh : Store := { noNumbers with disk := ended.disk }
    noNumbers.Counted actions ∧ (∀ a ∈ actions, ¬ a.GivesUp) ∧ noNumbers.Settled actions ∧
      ended.AllClean ∧ ended.storedAt = noNumbers.ledger noNumbers.storedAt actions ∧
      fresh.ScansTables ∧
      fresh.tableRows only =
        [(number 7).rowAt ⟨⟨only, 0⟩, 0⟩, (number 8).rowAt ⟨⟨only, 0⟩, 1⟩] := by
  intro actions ended fresh
  have hcounted : noNumbers.Counted actions := by decide +kernel
  have hkeep : ∀ a ∈ actions, ¬ a.GivesUp := by decide
  have hsettled : noNumbers.Settled actions := by decide +kernel
  have hcatalog : ended.catalog = noNumbers.catalog := by decide +kernel
  have hfile : noNumbers.catalog.file only = .ok ⟨only, "rows", numbers, 64⟩ :=
    file_single.2 ⟨rfl, rfl⟩
  have hrows : (ended.tableRows only).map (fun row => row.inTable only) =
      [(number 7).rowAt ⟨⟨only, 0⟩, 0⟩, (number 8).rowAt ⟨⟨only, 0⟩, 1⟩] := by decide +kernel
  obtain ⟨hclean, hstored, -, -, hfresh, -⟩ :=
    rows_of_settled noNumbers_initial hcounted hkeep hsettled
  have hreopens : ended.Reopens fresh := noNumbers_initial.reopens hcatalog
  obtain ⟨hscans, hsame⟩ := hfresh fresh hreopens
  have hfresh := hsame only ⟨only, "rows", numbers, 64⟩ hfile hfile
  exact ⟨hcounted, hkeep, hsettled, hclean, hstored, hscans, hfresh.trans hrows⟩

/-- The first row is lost though every transaction committed, where the page numbers are used up. -/
theorem settled_number_lost :
    let actions := [insertNumber ⟨1⟩ 9, .complete ⟨1⟩ true]
    let ended := sevenAndZeros.run actions
    sevenAndZeros.Initial ∧ sevenAndZeros.Settled actions ∧ (∀ a ∈ actions, ¬ a.GivesUp) ∧
      sevenAndZeros.result (insertNumber ⟨1⟩ 9) = .ok () ∧
      sevenAndZeros.storedAt ⟨⟨only, 0⟩, 0⟩ = some ((number 7).rowAt ⟨⟨only, 0⟩, 0⟩) ∧
      ended.storedAt ⟨⟨only, 0⟩, 0⟩ = some ((number 9).rowAt ⟨⟨only, 0⟩, 0⟩) := by
  refine ⟨sevenAndZeros_initial, ?_⟩
  decide +kernel

end Store

end Rowstore
