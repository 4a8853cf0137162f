import Mathlib
import Rowstore.Proofs.Run.Record

/-!
# Transparency of the pool

The pool cannot be told from the files. What is shown of a page, from memory or from the disk, stays
the same in every step of a run that gives nothing up, but for the one slot that an insertion fills
or a deletion frees: `Store.shown_of_step`.

This takes that pages can be counted. A file with more pages than there are page numbers is not
made longer by a page that is added to it. The page takes the place of an earlier one instead, and
that one is lost unless it is in memory or was blank: `Store.Sound.append_keeps_iff`.
-/

namespace Rowstore

namespace Store

variable {s t : Store} {a : Action} {table : TableId} {f : HeapFile}

/-- What is shown changes by one slot at most: it is filled by an insertion, or freed by a deletion.
New pages have every slot free. -/
def ShowsOnly (s t : Store) : Action → Except DbError Unit → Prop
  | .insert _ table row _, .ok () => ∃ record cells, record.page.table = table ∧
      (s.shown record.page = some cells ∨
        s.shown record.page = none ∧ ∀ o ∈ cells, o = none) ∧
      cells[record.slot]? = some none ∧
      t.shown = Function.update s.shown record.page
        (some (cells.set record.slot (some (row.rowAt record))))
  | .delete _ row, .ok () => ∃ record cells old, row.record = some record ∧
      s.shown record.page = some cells ∧ cells[record.slot]? = some (some old) ∧
      t.shown = Function.update s.shown record.page (some (cells.set record.slot none))
  | _, _ => ∀ id, (s.shown id = none ∧ ∀ cells, t.shown id = some cells → ∀ o ∈ cells, o = none) ∨
      t.shown id = s.shown id

theorem mem_blank {o : Option Row} (h : o ∈ f.blank) : o = none := List.eq_of_mem_replicate h

theorem shown_of_grown (h : s.view.Grown t.view table f.blank) (id : PageId) :
    (s.shown id = none ∧ ∀ cells, t.shown id = some cells → ∀ o ∈ cells, o = none) ∨
      t.shown id = s.shown id := by
  rcases h.pages id with ⟨-, hshown⟩ | ⟨-, -, hshown, -, hblank⟩
  · exact .inr hshown
  · refine .inl ⟨hshown, fun cells hcells o ho => ?_⟩
    cases hblank.symm.trans hcells
    exact mem_blank ho

/-- A step shows what is allowed. -/
theorem Sound.showsOnly (h : s.Sound) (hcounts : s.Counts a) (hkeep : ¬ a.GivesUp) :
    s.ShowsOnly (s.after a) a (s.result a) := by
  obtain ⟨w, hreaches, hallows⟩ := h.step hcounts
  obtain rfl := hreaches.view_eq
  cases a with
  | acquire | release | scan =>
    exact fun id => .inr (congrFun (congrArg View.shown hallows) id)
  | insert tx table row complete =>
    cases hresult : s.result (.insert tx table row complete) with
    | error cause =>
      rw [hresult] at hallows
      rcases hallows with hsame | ⟨f, -, hgrown⟩
      · exact fun id => .inr (congrFun (congrArg View.shown hsame) id)
      · exact shown_of_grown hgrown
    | ok _ =>
      rw [hresult] at hallows
      obtain ⟨f, record, hf, hslots, ⟨htable, -, hplace⟩, hview⟩ := hallows
      have hshown := congrArg View.shown hview
      rcases hplace with ⟨cells, hcells, hslot⟩ | ⟨hnone, -, hzero⟩
      · have hsome : s.stored record.page ≠ none := by
          rw [← Option.isSome_iff_ne_none, ← h.shown_isSome_iff, hcells]
          rfl
        rw [View.insert_old hsome, setCell_eq hcells] at hshown
        exact ⟨record, cells, htable, .inl hcells, Page.freeSlot?_eq_some hslot, hshown⟩
      · have hnone' : s.shown record.page = none := h.shown_eq_none_iff.2 hnone
        rw [View.insert_new hnone] at hshown
        refine ⟨record, f.blank, htable, .inr ⟨hnone', fun o => mem_blank⟩, ?_, hshown⟩
        rw [hzero, HeapFile.blank, Page.blank, List.getElem?_replicate, if_pos hslots]
  | delete tx row =>
    cases hresult : s.result (.delete tx row) with
    | error cause =>
      rw [hresult] at hallows
      exact fun id => .inr (congrFun (congrArg View.shown hallows) id)
    | ok _ =>
      rw [hresult] at hallows
      obtain ⟨record, cells, old, hrecord, hcells, hold, hview⟩ := hallows
      have hshown := congrArg View.shown hview
      rw [View.delete, setCell_eq hcells] at hshown
      exact ⟨record, cells, old, hrecord, hcells, hold, hshown⟩
  | flush | flushAll => exact fun id => .inr (congrFun (congrArg View.shown hallows.2) id)
  | discard => exact absurd trivial hkeep
  | complete tx commit =>
    cases commit with
    | true => exact fun id => .inr (congrFun (congrArg View.shown hallows.2) id)
    | false => exact absurd rfl hkeep
  | append table =>
    have happend : (s.after (.append table)).view = s.view ∨
        ∃ f, s.catalog.file table = .ok f ∧
          s.view.Grown (s.after (.append table)).view table f.blank := hallows
    rcases happend with hsame | ⟨f, -, hgrown⟩
    · exact fun id => .inr (congrFun (congrArg View.shown hsame) id)
    · exact shown_of_grown hgrown

theorem append_eq_ok (hf : s.catalog.file table = .ok f)
    (hresult : s.result (.append table) = .ok ()) :
    ∃ disk, f.appendPage s.disk = .ok (f.nextPage s.disk, disk) ∧
      s.after (.append table) = { s with disk } := by
  unfold after result perform Store.appendPage at *
  simp only [hf, Bind.bind, Except.bind] at *
  cases happend : f.appendPage s.disk with
  | error cause =>
    rw [happend] at hresult
    cases hresult
  | ok added =>
    obtain ⟨id, disk⟩ := added
    obtain ⟨-, -, rfl, -⟩ := HeapFile.appendPage_eq_ok_iff.1 happend
    exact ⟨disk, rfl, rfl⟩

/-- A page that is added is blank, and it may take the place of another one. Who has that one in
memory does not notice. -/
theorem Sound.pages_of_append (h : s.Sound) (hf : s.catalog.file table = .ok f)
    (hresult : s.result (.append table) = .ok ()) :
    (s.after (.append table)).stored =
        Function.update s.stored (f.nextPage s.disk) (some f.blank) ∧
      (s.after (.append table)).shown =
        if (s.pool.page? (f.nextPage s.disk)).isSome then s.shown
        else Function.update s.shown (f.nextPage s.disk) (some f.blank) := by
  obtain ⟨disk, happend, hafter⟩ := append_eq_ok hf hresult
  obtain rfl := Catalog.table_of_file hf
  have hf' : s.catalog.file (f.nextPage s.disk).table = .ok f := hf
  have hstored := h.backed.stored_of_writes (t := { s with disk }) rfl hf'
    (HeapFile.writes_of_appendPage happend)
  rw [hafter]
  refine ⟨hstored, funext fun id => ?_⟩
  by_cases hid : id = f.nextPage s.disk
  · subst hid
    cases hpage : s.pool.page? (f.nextPage s.disk) with
    | none =>
      rw [if_neg (by simp), Function.update_self]
      refine (shown_of_none (s := { s with disk }) hpage).trans ?_
      rw [hstored, Function.update_self, HeapFile.blank]
    | some page =>
      rw [if_pos (Option.isSome_some), shown_of_page? hpage]
      exact shown_of_page? (s := { s with disk }) hpage
  · have hsame : ({ s with disk } : Store).shown id = s.shown id := by
      simp only [shown, hstored, Function.update_of_ne hid]
    rw [hsame]
    split_ifs
    · rfl
    · rw [Function.update_of_ne hid]

/-- A file that can be counted has no page yet where one is added. -/
theorem Sound.stored_nextPage (h : s.Sound) (hf : s.catalog.file table = .ok f)
    (hresult : s.result (.append table) = .ok ()) :
    s.stored (f.nextPage s.disk) = none ↔ f.Countable s.disk := by
  obtain ⟨disk, happend, -⟩ := append_eq_ok hf hresult
  obtain ⟨hpos, -⟩ := HeapFile.appendPage_eq_ok_iff.1 happend
  obtain rfl := Catalog.table_of_file hf
  rw [← Option.not_isSome_iff_eq_none, h.stored_isSome_iff (f.nextPage s.disk) hf]
  refine ⟨fun hnone => Nat.not_le.1 fun hle => hnone ?_, fun hcount => (hcount.nextPage hpos).2⟩
  rw [HeapFile.has_iff_lt hpos]
  exact lt_of_lt_of_le (Nat.mod_lt _ (by decide)) hle

/-- Adding a page to a file keeps the pages that are shown exactly if the file has a place for it,
or else if the page whose place it takes is in memory or blank. -/
theorem Sound.append_keeps_iff (h : s.Sound) (hf : s.catalog.file table = .ok f)
    (hresult : s.result (.append table) = .ok ()) :
    (∀ id, (s.shown id).isSome → (s.after (.append table)).shown id = s.shown id) ↔
      f.Countable s.disk ∨ (s.pool.page? (f.nextPage s.disk)).isSome ∨
        s.shown (f.nextPage s.disk) = some f.blank := by
  rw [(h.pages_of_append hf hresult).2, ← h.stored_nextPage hf hresult]
  by_cases hpage : (s.pool.page? (f.nextPage s.disk)).isSome
  · rw [if_pos hpage]
    exact ⟨fun _ => .inr (.inl hpage), fun _ _ _ => rfl⟩
  · -- nothing in memory hides the page that was added
    rw [if_neg hpage, or_iff_right hpage]
    constructor
    · intro hkeep
      refine or_iff_not_imp_left.2 fun hstored => ?_
      have hsome := h.shown_isSome_iff.2 (Option.isSome_iff_ne_none.2 hstored)
      have hsame := hkeep _ hsome
      rw [Function.update_self] at hsame
      exact hsame.symm
    · rintro hplace id hsome
      by_cases hid : id = f.nextPage s.disk
      · subst hid
        rw [Function.update_self]
        rcases hplace with hnone | hblank
        · rw [h.shown_isSome_iff, hnone] at hsome
          cases hsome
        · exact hblank.symm
      · rw [Function.update_of_ne hid]

/-- **The view law.** What is shown stays the same in every step, but for the slot that an insertion
fills or a deletion frees. -/
theorem shown_of_step (h : s.Reachable) :
    (∀ a, ¬ a.GivesUp → s.Counts a → s.ShowsOnly (s.after a) a (s.result a)) ∧
      ∀ table f, s.catalog.file table = .ok f → s.result (.append table) = .ok () →
        ((∀ id, (s.shown id).isSome → (s.after (.append table)).shown id = s.shown id) ↔
          f.Countable s.disk ∨ (s.pool.page? (f.nextPage s.disk)).isSome ∨
            s.shown (f.nextPage s.disk) = some f.blank) :=
  ⟨fun _ hkeep hcounts => h.sound.showsOnly hcounts hkeep,
    fun _ _ hf hresult => h.sound.append_keeps_iff hf hresult⟩

/-- The view law, where one transaction deletes the row of another one. -/
theorem shown_of_deleteNumber :
    let s := noNumbers.run [.append only, insertNumber ⟨1⟩ 7]
    let a := deleteNumber ⟨2⟩ 7 ⟨⟨only, 0⟩, 0⟩
    s.Reachable ∧ ¬ a.GivesUp ∧ s.Counts a ∧ s.result a = .ok () ∧
      s.ShowsOnly (s.after a) a (s.result a) := by
  intro s a
  have h : s.Reachable := ⟨noNumbers, _, noNumbers_initial, by decide +kernel, rfl⟩
  have hkeep : ¬ a.GivesUp := by decide
  have hcounts : s.Counts a := by decide +kernel
  exact ⟨h, hkeep, hcounts, by decide +kernel, (shown_of_step h).1 a hkeep hcounts⟩

/-- A page that is added where the page numbers are used up takes the place of the first page. -/
theorem page_lost_by_append :
    let a := Action.append only
    sevenAndZeros.Reachable ∧ ¬ a.GivesUp ∧ sevenAndZeros.result a = .ok () ∧
      sevenAndZeros.shown ⟨only, 0⟩ = some [some ((number 7).rowAt ⟨⟨only, 0⟩, 0⟩)] ∧
      (sevenAndZeros.after a).shown ⟨only, 0⟩ = some [none] := by
  refine ⟨sevenAndZeros_initial.reachable, by decide, ?_, ?_, ?_⟩
  all_goals decide +kernel

end Store

end Rowstore
