import Mathlib
import Rowstore.Proofs.Run.Durability
import Rowstore.Proofs.Run.Removal

/-!
# Staleness

What a row is good for that was read before its record was freed. A deletion goes by the record
alone, and slots that were freed are filled again. So a row that was read and deleted since is

* refused as long as its slot stays free: `Store.Backed.shownAt_of_deletes` says that it is free
  then, and `Store.Backed.shownAt_run_none` that it stays so until a row is inserted there;
* taken for the row that was inserted in its slot, if there is one: `Store.Backed.shownAt_run_some`.

Both are part of `Store.deletion_by_record`.
-/

namespace Rowstore

namespace Store

variable {s t : Store} {a : Action} {actions : List Action} {tx : TxId} {row : Tuple}
  {record : RecordId} {cause : DbError}

/-- A row is inserted in the record. -/
def Inserts (s : Store) (record : RecordId) (row : Tuple) (a : Action) : Prop :=
  s.result a = .ok () ∧ ∃ tx table complete, a = .insert tx table row complete ∧
    s.landing table = record

/-! ### What a slot holds -/

/-- The slot of a row that was deleted is free. -/
theorem Backed.shownAt_of_deletes (h : s.Backed) (hdeletes : s.Deletes record a) :
    (s.after a).shownAt record = none := by
  obtain ⟨hresult, tx, row, rfl, hrecord⟩ := hdeletes
  obtain ⟨place, hplace, hdeleted, -⟩ := h.deleted_of_result hresult
  cases hrecord.symm.trans hplace
  rw [hdeleted.shownAt_eq, Function.update_self]

/-- The slot of a row that was inserted has it. -/
theorem Backed.shownAt_of_inserts (h : s.Backed) (hcounts : s.Counts a)
    (hinserts : s.Inserts record row a) :
    (s.after a).shownAt record = some (row.rowAt record) := by
  obtain ⟨hresult, tx, table, complete, rfl, rfl⟩ := hinserts
  have hmoves := h.moves hcounts
  rw [hresult] at hmoves
  cases hmoves with
  | same idle => exact absurd rfl (idle rfl)
  | insert rows => rw [rows.shownAt_eq, Function.update_self]
  | write idle => cases idle
  | giveUp idle => cases idle

/-- A free slot stays free until a row is inserted in it. -/
theorem Backed.shownAt_after_none (h : s.Backed) (hcounts : s.Counts a) (hkeep : ¬ a.GivesUp)
    (hfree : ∀ row, ¬ s.Inserts record row a) (hnone : s.shownAt record = none) :
    (s.after a).shownAt record = none := by
  have hmoves := h.moves hcounts
  generalize hresult : s.result a = result at hmoves
  cases hmoves with
  | same idle rows => rw [rows.shownAt_eq, hnone]
  | @insert tx table row complete rows =>
    have hne : record ≠ s.landing table := fun hrecord =>
      hfree row ⟨hresult, tx, table, complete, rfl, hrecord.symm⟩
    rw [rows.shownAt_eq, Function.update_of_ne hne, hnone]
  | @delete tx row place hplace rows =>
    rw [rows.shownAt_eq]
    by_cases hrecord : record = place
    · rw [hrecord, Function.update_self]
    · rw [Function.update_of_ne hrecord, hnone]
  | write idle keeps rows => rw [rows.shownAt_eq, hnone]
  | giveUp idle gives rows => exact absurd gives hkeep

/-- A slot that is used keeps its row until that is deleted. -/
theorem Backed.shownAt_after_some (h : s.Backed) (hcounts : s.Counts a) (hkeep : ¬ a.GivesUp)
    (hstays : ¬ s.Deletes record a) {stored : Row} (hrow : s.shownAt record = some stored) :
    (s.after a).shownAt record = some stored := by
  have hmoves := h.moves hcounts
  generalize hresult : s.result a = result at hmoves
  cases hmoves with
  | same idle rows => rw [rows.shownAt_eq, hrow]
  | @insert tx table row complete rows =>
    -- a row is inserted in a free slot only
    have hne := rows.ne hrow
    rw [rows.shownAt_eq, Function.update_of_ne hne, hrow]
  | @delete tx row place hplace rows =>
    have hne : record ≠ place := fun hrecord =>
      hstays ⟨hresult, tx, row, rfl, hrecord ▸ hplace⟩
    rw [rows.shownAt_eq, Function.update_of_ne hne, hrow]
  | write idle keeps rows => rw [rows.shownAt_eq, hrow]
  | giveUp idle gives rows => exact absurd gives hkeep

/-- A slot is free after a run in which no row is inserted in it. -/
theorem Backed.shownAt_run_none (h : s.Backed) (hcounted : s.Counted actions)
    (hkeep : ∀ a ∈ actions, ¬ a.GivesUp)
    (hfree : s.Along (fun t a => ∀ row, ¬ t.Inserts record row a) actions)
    (hnone : s.shownAt record = none) : (s.run actions).shownAt record = none :=
  h.run_induction hcounted (along_and.2 ⟨along_of_forall hkeep, hfree⟩) hnone
    fun _ _ ht hcounts hstep hnone => ht.shownAt_after_none hcounts hstep.1 hstep.2 hnone

/-- A slot has its row after a run in which that is not deleted. -/
theorem Backed.shownAt_run_some (h : s.Backed) (hcounted : s.Counted actions)
    (hkeep : ∀ a ∈ actions, ¬ a.GivesUp)
    (hstays : s.Along (fun t a => ¬ t.Deletes record a) actions) {stored : Row}
    (hrow : s.shownAt record = some stored) : (s.run actions).shownAt record = some stored :=
  h.run_induction hcounted (along_and.2 ⟨along_of_forall hkeep, hstays⟩) hrow
    fun _ _ ht hcounts hstep hrow => ht.shownAt_after_some hcounts hstep.1 hstep.2 hrow

/-! ### What a row is refused for -/

/-- The page is counted, and can be given to the transaction. -/
def Lendable (s : Store) (tx : TxId) (id : PageId) : Prop :=
  ∃ count given, s.pageCount id.table = .ok count ∧ id.number < count ∧
    s.acquire tx id = .ok given

/-- A row is refused if its slot is free. -/
theorem Backed.exists_refuses (h : s.Backed) (tx : TxId) (hrecord : row.record = some record)
    (hnone : s.shownAt record = none) :
    ∃ cause, s.result (.delete tx row) = .error cause ∧ s.Refuses tx row cause := by
  cases hresult : s.result (.delete tx row) with
  | error cause => exact ⟨cause, rfl, h.delete_error_iff_refuses.1 hresult⟩
  | ok _ =>
    obtain ⟨place, hplace, hdeleted, -⟩ := h.deleted_of_result hresult
    cases hrecord.symm.trans hplace
    have hused := hdeleted.used
    rw [hnone] at hused
    cases hused

/-- A row of a page that can be given out is refused only because its slot is free. -/
theorem Lendable.refuses (hlendable : s.Lendable tx record.page)
    (hrecord : row.record = some record) (hrefuses : s.Refuses tx row cause) :
    s.shownAt record = none ∧ cause = .slotNotOccupied record.page record.slot := by
  obtain ⟨count, given, hcount, hnumber, hacquire⟩ := hlendable
  obtain ⟨f, hf, hpages⟩ := pageCount_eq_ok_iff.1 hcount
  cases hrefuses with
  | unplaced place => cases hrecord.symm.trans place
  | unregistered place table =>
    cases hrecord.symm.trans place
    exact absurd hf (table f)
  | uncounted place table size =>
    cases hrecord.symm.trans place
    cases hf.symm.trans table
    rw [HeapFile.pageCount, if_pos size] at hpages
    cases hpages
  | foreign place pages number =>
    cases hrecord.symm.trans place
    cases hcount.symm.trans pages
    exact absurd hnumber number.not_gt
  | unavailable place pages number page =>
    cases hrecord.symm.trans place
    cases hacquire.symm.trans page
  | free place pages number page slot =>
    cases hrecord.symm.trans place
    exact ⟨slot, rfl⟩

/-- **A deletion goes by the record alone**: it takes away the row that is there now, or is refused
if there is none. -/
theorem deletion_by_record (h : s.Occurs) {d : Action} (hdeletes : s.Deletes record d)
    (hcounted : s.Counted (d :: actions)) (hkeep : ∀ a ∈ actions, ¬ a.GivesUp)
    (hrecord : row.record = some record) (tx : TxId) :
    let freed := s.after d
    let ended := freed.run actions
    let deletion := .delete tx row
    let after := ended.after deletion
    (ended.result deletion = .ok () → ended.Deleted after tx record) ∧
      (freed.Along (fun t a => ∀ other, ¬ t.Inserts record other a) actions →
        ∃ cause, ended.result deletion = .error cause ∧ ended.Refuses tx row cause ∧
          ended.SameRows after ∧ after.disk = ended.disk ∧
          (ended.Lendable tx record.page →
            cause = .slotNotOccupied record.page record.slot)) ∧
      ∀ xs a ys other, actions = xs ++ a :: ys → (freed.run xs).Inserts record other a →
        (freed.run (xs ++ [a])).Along (fun t b => ¬ t.Deletes record b) ys →
        ended.shownAt record = some (other.rowAt record) ∧
          (ended.Lendable tx record.page → ended.result deletion = .ok ()) := by
  intro freed ended deletion after
  have hbacked := h.backed
  have hfreed : freed.Backed := hbacked.after hcounted.1
  have hended : ended.Backed := (hfreed.run hcounted.2).1
  refine ⟨fun hresult => ?_, fun hfree => ?_, ?_⟩
  · obtain ⟨place, hplace, hdeleted, -⟩ := hended.deleted_of_result hresult
    cases hrecord.symm.trans hplace
    exact hdeleted
  · have hnone : ended.shownAt record = none :=
      hfreed.shownAt_run_none hcounted.2 hkeep hfree (hbacked.shownAt_of_deletes hdeletes)
    obtain ⟨cause, hresult, hrefuses⟩ := hended.exists_refuses tx hrecord hnone
    obtain ⟨hsame, hdisk⟩ := hended.sameRows_of_refuses hrefuses
    exact ⟨cause, hresult, hrefuses, hsame, hdisk, fun hlendable =>
      (hlendable.refuses hrecord hrefuses).2⟩
  · rintro xs a ys other rfl hinserts hstays
    obtain ⟨hxs, ha, hys⟩ := along_append.1 hcounted.2
    rw [run_append] at hstays
    have hbefore : (freed.run xs).Backed := (hfreed.run hxs).1
    have hrow : ended.shownAt record = some (other.rowAt record) := by
      have hthere := hbefore.shownAt_of_inserts ha hinserts
      have hrest := (hbefore.after ha).shownAt_run_some hys
        (fun b hb => hkeep b (by simp [hb])) hstays hthere
      rwa [← run_cons, ← run_append] at hrest
    refine ⟨hrow, fun hlendable => ?_⟩
    cases hresult : ended.result deletion with
    | ok _ => rfl
    | error cause =>
      have hrefuses := hended.delete_error_iff_refuses.1 hresult
      exact nomatch (hlendable.refuses hrecord hrefuses).1.symm.trans hrow

/-- A number that was deleted is refused, and then taken for the one that was inserted in its
place. -/
theorem numbers_by_record :
    let s := noNumbers.run [insertNumber ⟨1⟩ 1]
    let row : Tuple := { number 1 with record := some ⟨⟨only, 0⟩, 0⟩ }
    let freed := s.after (.delete ⟨1⟩ row)
    let filled := freed.after (insertNumber ⟨1⟩ 2)
    s.Occurs ∧ s.Deletes ⟨⟨only, 0⟩, 0⟩ (.delete ⟨1⟩ row) ∧
      freed.Refuses ⟨1⟩ row (.slotNotOccupied ⟨only, 0⟩ 0) ∧
      filled.shownAt ⟨⟨only, 0⟩, 0⟩ = some ((number 2).rowAt ⟨⟨only, 0⟩, 0⟩) ∧
      filled.Deleted (filled.after (.delete ⟨1⟩ row)) ⟨1⟩ ⟨⟨only, 0⟩, 0⟩ := by
  intro s row freed filled
  have hcounted : noNumbers.Counted [insertNumber ⟨1⟩ 1] := by decide +kernel
  have hoccurs : s.Occurs := noNumbers_initial.unread.occurs.run hcounted
  have hdeletes : s.Deletes ⟨⟨only, 0⟩, 0⟩ (.delete ⟨1⟩ row) :=
    ⟨by decide +kernel, ⟨1⟩, row, rfl, rfl⟩
  have hinserts : freed.Inserts ⟨⟨only, 0⟩, 0⟩ (number 2) (insertNumber ⟨1⟩ 2) :=
    ⟨by decide +kernel, ⟨1⟩, only, rfl, rfl, by decide +kernel⟩
  have hrecord : row.record = some ⟨⟨only, 0⟩, 0⟩ := rfl
  have hcounts : s.Counted [.delete ⟨1⟩ row, insertNumber ⟨1⟩ 2] := by decide +kernel
  have hfirst : s.Counted [.delete ⟨1⟩ row] := ⟨hcounts.1, trivial⟩
  have hlendable : ∀ t : Store, t.pageCount only = .ok 1 → (t.pool.page? ⟨only, 0⟩).isSome →
      t.Lendable ⟨1⟩ ⟨only, 0⟩ := fun t hcount hsome => by
    obtain ⟨page, hpage⟩ := Option.isSome_iff_exists.1 hsome
    exact ⟨1, _, hcount, Nat.one_pos, acquire_of_page? hpage⟩
  have hfree : freed.Lendable ⟨1⟩ ⟨only, 0⟩ := hlendable _ (by decide +kernel) (by decide +kernel)
  have hfull : filled.Lendable ⟨1⟩ ⟨only, 0⟩ := hlendable _ (by decide +kernel) (by decide +kernel)
  obtain ⟨-, hrefused, -⟩ :=
    deletion_by_record hoccurs hdeletes hfirst (by decide) hrecord ⟨1⟩
  obtain ⟨cause, -, hrefuses, -, -, hcause⟩ := hrefused trivial
  rw [hcause hfree] at hrefuses
  obtain ⟨hdeleted, -, htaken⟩ :=
    deletion_by_record hoccurs hdeletes hcounts (by decide) hrecord ⟨1⟩
  obtain ⟨hrow, hresult⟩ := htaken [] (insertNumber ⟨1⟩ 2) [] (number 2) rfl hinserts trivial
  exact ⟨hoccurs, hdeletes, hrefuses, hrow, hdeleted (hresult hfull)⟩

/-- A number that a scan has found is deleted twice, and the second time another one is gone. -/
theorem number_gone_with_stale :
    let scan := HeapFile.scan ⟨only, "rows", numbers, 64⟩ ⟨1⟩
    let s := (noNumbers.run [insertNumber ⟨1⟩ 1]).after (.scan scan .start)
    let row : Tuple := { number 1 with record := some ⟨⟨only, 0⟩, 0⟩ }
    let deletion := .delete ⟨1⟩ row
    let ended := s.run [deletion, insertNumber ⟨1⟩ 2]
    s.Occurs ∧ ((scan.start (noNumbers.run [insertNumber ⟨1⟩ 1])).2.1.next s).1 = .ok row ∧
      s.result deletion = .ok () ∧
      ended.tableRows only = [(number 2).rowAt ⟨⟨only, 0⟩, 0⟩] ∧
      ended.result deletion = .ok () ∧ (ended.after deletion).tableRows only = [] := by
  intro scan s row deletion ended
  have hcounted : noNumbers.Counted [insertNumber ⟨1⟩ 1, .scan scan .start] := by decide +kernel
  exact ⟨noNumbers_initial.unread.occurs.run hcounted, by decide +kernel⟩

end Store

end Rowstore
