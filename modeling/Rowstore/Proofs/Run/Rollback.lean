import Mathlib
import Rowstore.Proofs.Run.Rows

/-!
# Rollback

What an abort undoes. A transaction that works alone in a store without marks marks every page it
changes, and the abort gives these pages up, so that rows are shown as they are stored. So the abort
restores the rows of all tables exactly if none of the transaction's rows was stored before: if no
insertion made a file grow, `Store.Grows`, because the row is written together with the new page.
-/

namespace Rowstore

/-- The operation leaves the pages to one transaction: it is one of its insertions or deletions, or
nothing is inserted, deleted, written or given up. -/
def Action.LeavesTo (tx : TxId) : Action → Prop
  | insert other _ _ _ => other = tx
  | delete other _ => other = tx
  | acquire _ _ => True
  | release _ _ => True
  | scan _ _ => True
  | _ => False

instance (a : Action) (tx : TxId) : Decidable (a.LeavesTo tx) := by
  unfold Action.LeavesTo
  split <;> infer_instance

namespace Store

variable {s t : Store} {a : Action} {tx : TxId} {table : TableId} {record : RecordId}
  {actions : List Action}

/-- A row is inserted in a new page. -/
def Grows (s : Store) : Action → Prop
  | .insert tx table row complete => s.result (.insert tx table row complete) = .ok () ∧
      s.stored (s.landing table).page = none
  | _ => False

instance (s : Store) (a : Action) : Decidable (s.Grows a) := by
  unfold Grows
  split <;> infer_instance

theorem settledBy_eq_false (h : a.LeavesTo tx) (id : PageId) : s.settledBy a id = false := by
  cases a with
  | acquire | release | insert | delete | scan => rfl
  | flush | flushAll | discard | complete | append => cases h

/-! ### Steps of a lone transaction -/

/-- The pages that are marked have the mark of one transaction. -/
def MarksOf (s : Store) (tx : TxId) : Prop := ∀ id, s.mark id = none ∨ s.mark id = some tx

namespace Sound

theorem marksOf_after (h : s.Sound) (hcounts : s.Counts a) (hlone : a.LeavesTo tx)
    (hmarks : s.MarksOf tx) : (s.after a).MarksOf tx := by
  intro id
  have hupdate : ∀ page, Function.update s.mark page (some tx) id = none ∨
      Function.update s.mark page (some tx) id = some tx := fun page => by
    by_cases hid : id = page
    · rw [hid, Function.update_self]
      exact .inr rfl
    · rw [Function.update_of_ne hid]
      exact hmarks id
  have hmoves := h.moves hcounts
  generalize s.result a = result at hmoves
  cases hmoves with
  | same idle rows => exact rows.mark_eq ▸ hmarks id
  | insert rows =>
    rw [rows.mark_eq, show _ = tx from hlone]
    exact hupdate _
  | delete place rows =>
    rw [rows.mark_eq, show _ = tx from hlone]
    exact hupdate _
  | write idle keeps rows =>
    rw [rows.mark_eq, settledBy_eq_false hlone]
    exact hmarks id
  | giveUp idle gives rows =>
    rw [rows.mark_eq, settledBy_eq_false hlone]
    exact hmarks id

/-- Only a row that makes the file grow is stored. -/
theorem storedAt_of_not_grows (h : s.Sound) (hcounts : s.Counts a) (hlone : a.LeavesTo tx)
    (hgrows : ¬ s.Grows a) : (s.after a).storedAt = s.storedAt := by
  have hmoves := h.moves hcounts
  generalize hresult : s.result a = result at hmoves
  cases hmoves with
  | same idle rows => exact rows.storedAt_eq
  | insert rows =>
    rw [rows.storedAt_eq, if_neg fun hnew => hgrows ⟨hresult, hnew⟩]
  | delete place rows => exact rows.storedAt_eq
  | write idle keeps rows =>
    funext r
    rw [rows.storedAt_eq, settledBy_eq_false hlone]
    rfl
  | giveUp idle gives rows => exact rows.storedAt_eq

/-- A row that makes the file grow is stored. -/
theorem storedAt_of_grows (h : s.Sound) (hcounts : s.Counts a) (hgrows : s.Grows a) :
    ∃ record row, s.stored record.page = none ∧ row.record = some record ∧
      (s.after a).storedAt = Function.update s.storedAt record (some row) := by
  cases a with
  | insert tx table row complete =>
    have hmoves := h.moves hcounts
    rw [hgrows.1] at hmoves
    cases hmoves with
    | same idle rows => exact absurd rfl (idle rfl)
    | insert rows =>
      refine ⟨s.landing table, row.rowAt (s.landing table), hgrows.2, rfl, ?_⟩
      rw [rows.storedAt_eq, if_pos hgrows.2]
    | write idle => cases idle
    | giveUp idle => cases idle
  | _ => cases hgrows

/-- What is stored stays stored. -/
theorem storedAt_after (h : s.Sound) (hcounts : s.Counts a) (hlone : a.LeavesTo tx) {row : Row}
    (hstored : s.storedAt record = some row) : (s.after a).storedAt record = some row := by
  by_cases hgrows : s.Grows a
  · obtain ⟨other, _, hnone, -, hafter⟩ := h.storedAt_of_grows hcounts hgrows
    have hne : record ≠ other := by
      rintro rfl
      rw [storedAt, rowIn_of_none hnone] at hstored
      cases hstored
    rw [hafter, Function.update_of_ne hne, hstored]
  · rw [h.storedAt_of_not_grows hcounts hlone hgrows, hstored]

/-! ### The abort -/

/-- After the abort of a lone transaction rows are shown as they are stored. -/
theorem shownAt_of_abort (h : s.Sound) (hmarks : s.MarksOf tx) :
    (s.after (.complete tx false)).shownAt = s.storedAt := by
  have rows := h.givenUp_of_abort tx
  funext r
  rw [rows.shownAt_eq]
  rcases hmarks r.page with hnone | hown
  · simp [hnone, h.storedAt_of_clean hnone]
  · simp [hown]

/-! ### Runs of a lone transaction -/

section

variable (h : s.Sound) (hcounted : s.Counted actions) (hlone : ∀ a ∈ actions, a.LeavesTo tx)
include h hcounted hlone

theorem marksOf_run (hmarks : s.MarksOf tx) : (s.run actions).MarksOf tx :=
  h.run_induction hcounted (along_of_forall hlone) hmarks fun _ _ ht hcounts hleaves hmarks =>
    ht.marksOf_after hcounts hleaves hmarks

/-- As long as no file grows, nothing is stored. -/
theorem storedAt_run (hgrows : s.Along (fun t a => ¬ t.Grows a) actions) :
    (s.run actions).storedAt = s.storedAt :=
  h.run_induction (I := fun t => t.storedAt = s.storedAt) hcounted
    (along_and.2 ⟨along_of_forall hlone, hgrows⟩) rfl fun _ _ ht hcounts hstep hsame =>
      (ht.storedAt_of_not_grows hcounts hstep.1 hstep.2).trans hsame

/-- When a file has grown, a row is stored that was not there before. -/
theorem exists_stored (hgrows : ¬ s.Along (fun t a => ¬ t.Grows a) actions) :
    ∃ record row, s.stored record.page = none ∧ row.record = some record ∧
      (s.run actions).storedAt record = some row := by
  induction actions generalizing s with
  | nil => exact absurd trivial hgrows
  | cons a actions ih =>
    obtain ⟨hcounts, hrest⟩ := hcounted
    obtain ⟨hleaves, hlater⟩ := List.forall_mem_cons.1 hlone
    have hsound := h.after hcounts
    by_cases hgrow : s.Grows a
    · obtain ⟨record, row, hnone, hrecord, hafter⟩ := h.storedAt_of_grows hcounts hgrow
      refine ⟨record, row, hnone, hrecord, ?_⟩
      -- the row is on the disk, and the rest of the run does not take it from there
      exact hsound.run_induction (I := fun t => t.storedAt record = some row) hrest
        (along_of_forall hlater) (by rw [hafter, Function.update_self])
        fun _ _ ht hcounts hleaves hstored => ht.storedAt_after hcounts hleaves hstored
    · obtain ⟨record, row, hnone, hrecord, hstored⟩ :=
        ih hsound hrest hlater fun hrest => hgrows ⟨hgrow, hrest⟩
      refine ⟨record, row, ?_, hrecord, hstored⟩
      by_contra hsome
      have hstill := h.stored_after hcounts (Option.isSome_iff_ne_none.2 hsome)
      rw [hnone] at hstill
      cases hstill

/-- The pages that are stored stay stored. -/
theorem stored_run {id : PageId} (hstored : (s.stored id).isSome) :
    ((s.run actions).stored id).isSome :=
  h.run_induction (I := fun t => (t.stored id).isSome) hcounted (along_of_forall hlone) hstored
    fun _ _ ht hcounts _ hstored => ht.stored_after hcounts hstored

end

end Sound

/-- The rows of all tables are restored by the abort of a lone transaction exactly if none of its
insertions made a file grow. The abort always succeeds. -/
theorem abort_restores_iff (h : s.Reachable) (hclean : s.AllClean)
    (hcounted : s.Counted actions) (hlone : ∀ a ∈ actions, a.LeavesTo tx)
    (hgrowth : s.GrowthCounts ((s.run actions).after (.complete tx false))) :
    let ended := s.run actions
    let aborted := ended.after (.complete tx false)
    ended.result (.complete tx false) = .ok () ∧ s.ScansTables ∧ aborted.ScansTables ∧
      ((∀ table, aborted.tableRows table = s.tableRows table) ↔
        s.Along (fun t a => ¬ t.Grows a) actions) := by
  intro ended aborted
  have hsound := h.sound
  have hended : ended.Sound := (hsound.run hcounted).1
  have haborted : aborted.Sound := hended.after (a := .complete tx false) trivial
  have hunmarked : ∀ id, s.mark id = none := hsound.allClean_iff.1 hclean
  have hmarks := hsound.marksOf_run hcounted hlone fun id => .inl (hunmarked id)
  have hshown : aborted.shownAt = ended.storedAt := hended.shownAt_of_abort hmarks
  have hbefore : s.shownAt = s.storedAt :=
    funext fun r => (hsound.storedAt_of_clean (hunmarked r.page)).symm
  have hlast : ended.Counted [.complete tx false] := ⟨trivial, trivial⟩
  have hcatalog : aborted.catalog = s.catalog :=
    (hended.run hlast).2.trans (hsound.run hcounted).2
  have hstays : ∀ id, (s.stored id).isSome → (aborted.stored id).isSome := fun id hstored =>
    hended.stored_after (a := .complete tx false) trivial (hsound.stored_run hcounted hlone hstored)
  refine ⟨hended.complete_ok tx false, hsound.scansTables, haborted.scansTables,
    fun hrows => ?_, fun hgrows table => ?_⟩
  · -- a row that was stored with a new page is still there, and was not there before
    by_contra hgrown
    obtain ⟨record, row, hnone, hrecord, hstored⟩ := hsound.exists_stored hcounted hlone hgrown
    have hrow : aborted.shownAt record = some row := hshown ▸ hstored
    obtain ⟨-, f, hf', hslot, hsome⟩ := haborted.record_of_shownAt hrow
    have hf : s.catalog.file record.page.table = .ok f := hcatalog ▸ hf'
    have hpos := pageSize_pos_of_slots (Nat.zero_lt_of_lt hslot)
    have hlt : s.wholePages record.page.table < aborted.wholePages record.page.table := by
      have hnew : ¬ record.page.number < s.wholePages record.page.table := fun hold => by
        have hpage := (hsound.stored_isSome_iff_lt hf hpos _).2 hold
        rw [hnone] at hpage
        cases hpage
      exact lt_of_le_of_lt (Nat.not_lt.1 hnew) ((haborted.stored_isSome_iff_lt hf' hpos _).1 hsome)
    have hmem := haborted.mem_tableRows hf' (hgrowth _ f hf hlt) hrow
    rw [hrows] at hmem
    obtain ⟨-, -, -, -, hbefore⟩ := hsound.record_of_shownAt (hsound.shownAt_of_mem hmem hrecord)
    rw [hnone] at hbefore
    cases hbefore
  · have hsame : aborted.shownAt = s.shownAt :=
      hshown.trans ((hsound.storedAt_run hcounted hlone hgrows).trans hbefore.symm)
    exact hsound.tableRows_congr haborted hcatalog hstays hgrowth hsame table

/-- Rows that go to a page that is there are taken back, and so is a deletion. -/
theorem abort_restores_numbers :
    let s := noNumbers.run [.append only, insertNumber ⟨1⟩ 7, .complete ⟨1⟩ true]
    let actions := [insertNumber ⟨2⟩ 8, deleteNumber ⟨2⟩ 7 ⟨⟨only, 0⟩, 0⟩]
    let aborted := (s.run actions).after (.complete ⟨2⟩ false)
    s.Reachable ∧ s.AllClean ∧ s.Counted actions ∧ (∀ a ∈ actions, a.LeavesTo ⟨2⟩) ∧
      s.GrowthCounts aborted ∧ ∀ table, aborted.tableRows table = s.tableRows table := by
  intro s actions aborted
  have h : s.Reachable := ⟨noNumbers, _, noNumbers_initial, by decide +kernel, rfl⟩
  have hclean : s.AllClean := by decide +kernel
  have hcounted : s.Counted actions := by decide +kernel
  have hlone : ∀ a ∈ actions, a.LeavesTo ⟨2⟩ := by decide
  have hcatalog : s.catalog = noNumbers.catalog := by decide +kernel
  have hgrowth : s.GrowthCounts aborted := fun table f hf _ => by
    obtain ⟨-, rfl⟩ := file_single.1 (hcatalog ▸ hf)
    decide +kernel
  exact ⟨h, hclean, hcounted, hlone, hgrowth,
    (abort_restores_iff h hclean hcounted hlone hgrowth).2.2.2.2 (by decide +kernel)⟩

/-- A row that makes the file grow is still there after the abort. -/
theorem aborted_number_stays :
    let ended := noNumbers.run [insertNumber ⟨1⟩ 7]
    let aborted := ended.after (.complete ⟨1⟩ false)
    noNumbers.AllClean ∧ noNumbers.result (insertNumber ⟨1⟩ 7) = .ok () ∧
      ended.result (.complete ⟨1⟩ false) = .ok () ∧ noNumbers.tableRows only = [] ∧
      aborted.tableRows only = [(number 7).rowAt ⟨⟨only, 0⟩, 0⟩] := by
  decide +kernel

end Store

end Rowstore
