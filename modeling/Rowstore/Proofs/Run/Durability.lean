import Mathlib
import Rowstore.Proofs.Run.Record

/-!
# Durability

What becomes of a row whose transaction has committed. A row that is on the disk and shown stays so
until it is deleted, whatever transactions insert, commit or abort: `Store.Sound.durable_after`.

A page remembers only the transaction that changed it last, and a commit writes only the pages that
remember it. So the commit makes a row durable exactly if no other transaction's mark is on the
page, or the row was written before: `Store.Kept`. It does if the page was left to the transaction
alone since the row was inserted, `Store.Disturbs`.
-/

namespace Rowstore

namespace Store

variable {s t : Store} {a : Action} {tx : TxId} {record : RecordId} {row : Row}

/-- The row is on the disk, and a reader gets it. -/
structure Durable (s : Store) (record : RecordId) (row : Row) : Prop where
  stored : s.storedAt record = some row
  shown : s.shownAt record = some row

/-- The row of a record is deleted. -/
def Deletes (s : Store) (record : RecordId) (a : Action) : Prop :=
  s.result a = .ok () ∧ ∃ tx row, a = .delete tx row ∧ row.record = some record

/-- A durable row stays durable until it is deleted. -/
theorem Sound.durable_after (h : s.Sound) (hcounts : s.Counts a) (hkeep : ¬ s.Deletes record a)
    (hdurable : s.Durable record row) : (s.after a).Durable record row := by
  obtain ⟨hstored, hshown⟩ := hdurable
  have hmoves := h.moves hcounts
  generalize hresult : s.result a = result at hmoves
  cases hmoves with
  | same idle rows => exact ⟨rows.storedAt_eq ▸ hstored, rows.shownAt_eq ▸ hshown⟩
  | @insert tx table row' complete rows =>
    have hne := rows.ne hshown
    refine ⟨?_, ?_⟩
    · rw [rows.storedAt_eq]
      split_ifs
      · rw [Function.update_of_ne hne, hstored]
      · exact hstored
    · rw [rows.shownAt_eq, Function.update_of_ne hne, hshown]
  | @delete tx row' other place rows =>
    have hne : record ≠ other := by
      rintro rfl
      exact hkeep ⟨hresult, tx, row', rfl, place⟩
    refine ⟨rows.storedAt_eq ▸ hstored, ?_⟩
    rw [rows.shownAt_eq, Function.update_of_ne hne, hshown]
  | write idle keeps rows =>
    refine ⟨?_, rows.shownAt_eq ▸ hshown⟩
    rw [rows.storedAt_eq]
    split_ifs <;> assumption
  | giveUp idle gives rows =>
    refine ⟨rows.storedAt_eq ▸ hstored, ?_⟩
    rw [rows.shownAt_eq]
    split_ifs <;> assumption

/-! ### Commits -/

/-- A transaction that commits makes the row durable: its page is clean or has the transaction's own
mark, or the row is on the disk already. -/
def Kept (s : Store) (tx : TxId) (record : RecordId) (row : Row) : Prop :=
  s.shownAt record = some row ∧
    (s.mark record.page = none ∨ s.mark record.page = some tx ∨ s.storedAt record = some row)

/-- The row is durable after the commit exactly if it is kept. -/
theorem Sound.durable_commit_iff (h : s.Sound) :
    (s.after (.complete tx true)).Durable record row ↔ s.Kept tx record row := by
  have rows := h.written_of_commit tx
  constructor
  · rintro ⟨hstored, hshown⟩
    rw [rows.shownAt_eq] at hshown
    rw [rows.storedAt_eq] at hstored
    refine ⟨hshown, ?_⟩
    split_ifs at hstored with hmark
    · exact .inr (.inl (by simpa using hmark))
    · exact .inr (.inr hstored)
  · rintro ⟨hshown, hkept⟩
    refine ⟨?_, rows.shownAt_eq ▸ hshown⟩
    rw [rows.storedAt_eq]
    split_ifs with hmark
    · exact hshown
    · rcases hkept with hnone | hown | hstored
      · rw [h.storedAt_of_clean hnone, hshown]
      · exact absurd (by simpa using hown) hmark
      · exact hstored

/-! ### Between the insertion and the commit -/

/-- The operation comes between a row and the commit of its transaction: the row is deleted, its
page is changed by another transaction, or changes in the page are given up. -/
def Disturbs (s : Store) (tx : TxId) (record : RecordId) : Action → Prop
  | .insert other table row complete => s.result (.insert other table row complete) = .ok () ∧
      other ≠ tx ∧ (s.landing table).page = record.page
  | .delete other row => s.result (.delete other row) = .ok () ∧
      ∃ place, row.record = some place ∧
        (place = record ∨ other ≠ tx ∧ place.page = record.page)
  | .discard id => id = record.page
  | .complete other commit => commit = false ∧ other = tx
  | _ => False

/-- The row is shown, and either marked for its transaction or on the disk. -/
def Awaits (s : Store) (tx : TxId) (record : RecordId) (row : Row) : Prop :=
  s.shownAt record = some row ∧ (s.mark record.page = some tx ∨ s.storedAt record = some row)

theorem Awaits.kept (h : s.Awaits tx record row) : s.Kept tx record row := ⟨h.1, .inr h.2⟩

/-- A page that is given up has the row on the disk: the mark on it is another transaction's. -/
theorem Awaits.stored_of_settled (h : s.Awaits tx record row) (hgives : a.GivesUp)
    (hcalm : ¬ s.Disturbs tx record a) (hsettled : s.settledBy a record.page = true) :
    s.storedAt record = some row := by
  cases a with
  | discard id =>
    have hid : record.page = id := by simpa [settledBy] using hsettled
    exact absurd hid.symm hcalm
  | complete other commit =>
    have hmark : s.mark record.page = some other := by simpa [settledBy] using hsettled
    refine h.2.resolve_left fun hown => hcalm ⟨hgives, ?_⟩
    rw [hmark] at hown
    exact Option.some.inj hown
  | _ => cases hgives

/-- What does not disturb a row leaves it ready for the commit. -/
theorem Sound.awaits_after (h : s.Sound) (hcounts : s.Counts a)
    (hcalm : ¬ s.Disturbs tx record a) (hawaits : s.Awaits tx record row) :
    (s.after a).Awaits tx record row := by
  have ⟨hshown, hready⟩ := hawaits
  have hmoves := h.moves hcounts
  generalize hresult : s.result a = result at hmoves
  cases hmoves with
  | same idle rows =>
    refine ⟨rows.shownAt_eq ▸ hshown, ?_⟩
    rwa [rows.mark_eq, rows.storedAt_eq]
  | @insert other table row' complete rows =>
    have hne := rows.ne hshown
    refine ⟨by rw [rows.shownAt_eq, Function.update_of_ne hne, hshown], ?_⟩
    by_cases hpage : (s.landing table).page = record.page
    · have hown : other = tx := by
        by_contra hother
        exact hcalm ⟨hresult, hother, hpage⟩
      rw [rows.mark_eq, hpage, Function.update_self, hown]
      exact .inl rfl
    · rw [rows.mark_eq, Function.update_of_ne (Ne.symm hpage), rows.storedAt_eq]
      split_ifs
      · rwa [Function.update_of_ne hne]
      · exact hready
  | @delete other row' place hplace rows =>
    have hne : record ≠ place := by
      rintro rfl
      exact hcalm ⟨hresult, record, hplace, .inl rfl⟩
    refine ⟨by rw [rows.shownAt_eq, Function.update_of_ne hne, hshown], ?_⟩
    by_cases hpage : place.page = record.page
    · have hown : other = tx := by
        by_contra hother
        exact hcalm ⟨hresult, place, hplace, .inr ⟨hother, hpage⟩⟩
      rw [rows.mark_eq, hpage, Function.update_self, hown]
      exact .inl rfl
    · rwa [rows.mark_eq, Function.update_of_ne (Ne.symm hpage), rows.storedAt_eq]
  | write idle keeps rows =>
    refine ⟨rows.shownAt_eq ▸ hshown, ?_⟩
    rw [rows.storedAt_eq, rows.mark_eq]
    split_ifs with hwritten
    · exact .inr hshown
    · exact hready
  | giveUp idle gives rows =>
    rw [Awaits, rows.shownAt_eq, rows.storedAt_eq, rows.mark_eq]
    split_ifs with hgiven
    · have hstored := hawaits.stored_of_settled gives hcalm hgiven
      exact ⟨hstored, .inr hstored⟩
    · exact ⟨hshown, hready⟩

/-- A row that was just inserted is ready for the commit. -/
theorem Sound.awaits_of_insert (h : s.Sound) {table : TableId} {row : Tuple}
    {complete : row.Complete} (hcounts : s.Counts (.insert tx table row complete))
    (hinsert : s.result (.insert tx table row complete) = .ok ()) :
    (s.after (.insert tx table row complete)).Awaits tx (s.landing table)
      (row.rowAt (s.landing table)) := by
  have hmoves := h.moves hcounts
  rw [hinsert] at hmoves
  cases hmoves with
  | same idle rows => exact absurd rfl (idle rfl)
  | insert rows =>
    rw [Awaits, rows.shownAt_eq, rows.mark_eq, Function.update_self, Function.update_self]
    exact ⟨rfl, .inl rfl⟩
  | write idle keeps rows => cases idle
  | giveUp idle gives rows => cases idle

/-- **A row is durable from the commit of its transaction on** exactly if it is kept then. It is if
nothing has disturbed it. -/
theorem committed_row_durable_iff (h : s.Reachable) {table : TableId} {row : Tuple}
    {complete : row.Complete} (hcounts : s.Counts (.insert tx table row complete))
    (hinsert : s.result (.insert tx table row complete) = .ok ()) {between : List Action}
    (hbetween : (s.after (.insert tx table row complete)).Counted between) :
    let record := s.landing table
    let inserted := s.after (.insert tx table row complete)
    let ended := inserted.run between
    let committed := ended.after (.complete tx true)
    ended.result (.complete tx true) = .ok () ∧
      ((∀ later, committed.Counted later →
          committed.Along (fun u a => ¬ u.Deletes record a) later →
          (committed.run later).Durable record (row.rowAt record)) ↔
        ended.Kept tx record (row.rowAt record)) ∧
      (inserted.Along (fun u a => ¬ u.Disturbs tx record a) between →
        ended.Kept tx record (row.rowAt record)) := by
  intro record inserted ended committed
  have hinserted : inserted.Sound := h.sound.after hcounts
  have hended : ended.Sound := (hinserted.run hbetween).1
  have hcommitted : committed.Sound := hended.after (a := .complete tx true) trivial
  refine ⟨hended.complete_ok tx true, ⟨fun hlater => ?_, fun hkept later hcounted hkeep => ?_⟩,
    fun hcalm => ?_⟩
  · -- a row that is durable in all later states is so at once
    exact hended.durable_commit_iff.1 (hlater [] trivial trivial)
  · exact hcommitted.run_induction hcounted hkeep
      (hended.durable_commit_iff.2 hkept) fun u a hu hcounts hkeep hdurable =>
        hu.durable_after hcounts hkeep hdurable
  · exact (hinserted.run_induction hbetween hcalm (h.sound.awaits_of_insert hcounts hinsert)
      fun u a hu hcounts hcalm hawaits => hu.awaits_after hcounts hcalm hawaits).kept

/-- A committed row is durable though another transaction changed its page: the page was written. -/
theorem committed_number_durable :
    let a := insertNumber ⟨1⟩ 7
    let between := [insertNumber ⟨2⟩ 8, .flushAll, insertNumber ⟨2⟩ 9]
    let s := noNumbers.run [.append only]
    let committed := ((s.after a).run between).after (.complete ⟨1⟩ true)
    s.Reachable ∧ s.Counts a ∧ s.result a = .ok () ∧ (s.after a).Counted between ∧
      ∀ later, committed.Counted later →
        committed.Along (fun u a => ¬ u.Deletes ⟨⟨only, 0⟩, 0⟩ a) later →
        (committed.run later).Durable ⟨⟨only, 0⟩, 0⟩ ((number 7).rowAt ⟨⟨only, 0⟩, 0⟩) := by
  intro a between s committed
  have h : s.Reachable := ⟨noNumbers, _, noNumbers_initial, by decide +kernel, rfl⟩
  have hcounts : s.Counts a := by decide +kernel
  have hinsert : s.result a = .ok () := by decide +kernel
  have hbetween : (s.after a).Counted between := by decide +kernel
  have hlanding : s.landing only = ⟨⟨only, 0⟩, 0⟩ := by decide +kernel
  have hdurable := committed_row_durable_iff h hcounts hinsert hbetween
  rw [hlanding] at hdurable
  exact ⟨h, hcounts, hinsert, hbetween, hdurable.2.1.2
    ⟨by decide +kernel, .inr (.inr (by decide +kernel))⟩⟩

/-- A committed row is not on the disk if another transaction changed its page before the commit,
and it is gone when that one aborts. -/
theorem committed_number_lost :
    let a := insertNumber ⟨1⟩ 7
    let ended := (noNumbers.run [.append only, a, insertNumber ⟨2⟩ 8])
    let committed := ended.after (.complete ⟨1⟩ true)
    let aborted := committed.after (.complete ⟨2⟩ false)
    (noNumbers.run [.append only]).result a = .ok () ∧
      (noNumbers.run [.append only]).landing only = ⟨⟨only, 0⟩, 0⟩ ∧
      ended.result (.complete ⟨1⟩ true) = .ok () ∧ committed.storedAt ⟨⟨only, 0⟩, 0⟩ = none ∧
      aborted.storedAt ⟨⟨only, 0⟩, 0⟩ = none ∧ aborted.shownAt ⟨⟨only, 0⟩, 0⟩ = none := by
  decide +kernel

end Store

end Rowstore
