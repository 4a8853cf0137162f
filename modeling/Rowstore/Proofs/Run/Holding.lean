import Mathlib
import Rowstore.Proofs.Run.Caching
import Rowstore.Proofs.Store.Handling

/-!
# Holds along a run

A hold is promised as long as the transaction has a guard for the page, and, if a guard was given up
to keep the hold, until the transaction ends or ends the hold itself. Whether a hold is promised is
told by the log of the run, `Promised`.

The promise is not kept: the same transaction ends a hold that it keeps when another guard for the
page is dropped, which an insertion does with a page that it finds full. `Store.held_iff` says
exactly when a hold that is promised is there, and which operations can end it: those of the
transaction alone. An insertion lets go of pages of its table that are full, and of the one where it
fails; a deletion does so only if it fails; and scans let go of none. The page that an insertion or
a deletion changes is kept.
-/

namespace Rowstore

/-- Something that is done with a store, or with a guard for a page. -/
inductive Deed
  | event (e : Event)
  /-- A row is stored in a file, or deleted from it, and the page is not marked as changed. -/
  | insertIntoFile (tx : TxId) (file : HeapFile) (row : Tuple)
  | deleteFromFile (tx : TxId) (file : HeapFile) (row : Tuple)
  /-- A guard is dropped by its owner, or given up to keep the hold. -/
  | drop (tx : TxId) (id : PageId)
  | keep (tx : TxId) (id : PageId)

namespace Handling

/-- A guard is used up. -/
def EndsGuard (tx : TxId) (id : PageId) (x : Handling) : Prop :=
  x = keep tx id ∨ x = drop tx id ∨ x = full tx id ∨ x = refused tx id

instance (tx : TxId) (id : PageId) : DecidablePred (EndsGuard tx id) := by
  intro x
  unfold EndsGuard
  infer_instance

end Handling

/-- A transaction has a guard for a page: more guards were given to it than were used up. -/
def Guarded (log : List Handling) (tx : TxId) (id : PageId) : Prop :=
  log.countP (fun x => Handling.EndsGuard tx id x) < log.count (.take tx id)

instance (log : List Handling) (tx : TxId) (id : PageId) : Decidable (Guarded log tx id) := by
  unfold Guarded
  infer_instance

/-- A transaction has kept its hold on a page, and since then neither has it ended nor has it ended
the hold itself. -/
def Kept (log : List Handling) (tx : TxId) (id : PageId) : Prop :=
  ∃ before after, log = before ++ .keep tx id :: after ∧ .free tx id ∉ after ∧ .finish tx ∉ after

/-- A hold is promised. -/
def Promised (log : List Handling) (tx : TxId) (id : PageId) : Prop :=
  Guarded log tx id ∨ Kept log tx id

/-- What happened after a page was given to a transaction last, latest first. -/
def sinceTaken (tx : TxId) (id : PageId) (log : List Handling) : List Handling :=
  log.reverse.takeWhile fun x => x ≠ .take tx id

/-- A page that was given to a transaction is held if the transaction has not let it go since. -/
theorem mem_foldl_change {tx : TxId} {id : PageId} {log : List Handling}
    (htaken : .take tx id ∈ log) (holds : List (TxId × PageId)) :
    (tx, id) ∈ log.foldl Handling.change holds ↔
      ∀ x ∈ sinceTaken tx id log, ¬ x.LetsGo tx id := by
  induction log using List.reverseRecOn with
  | nil => cases htaken
  | append_singleton log x ih =>
    rw [List.foldl_append, List.foldl_cons, List.foldl_nil, Handling.mem_change, sinceTaken,
      List.reverse_append, List.reverse_singleton, List.singleton_append, List.takeWhile_cons]
    by_cases hx : x = .take tx id
    · simp [hx]
    · have hbefore : .take tx id ∈ log := by
        rcases List.mem_append.1 htaken with hmem | hmem
        · exact hmem
        · exact absurd (List.mem_singleton.1 hmem).symm hx
      rw [or_iff_right hx, ih hbefore, if_pos (by simpa using hx), List.forall_mem_cons, and_comm,
        sinceTaken]

namespace Store

variable {s t : Store} {tx : TxId} {id : PageId} {past : List Handling}

/-- What an operation does with pages. -/
def actionLog (s : Store) : Action → List Handling
  | .acquire tx id =>
    match s.acquire tx id with
    | .error _ => []
    | .ok _ => [.take tx id]
  | .release tx id => [.free tx id]
  | .insert tx table row _ => s.insertLog tx table row
  | .delete tx row => s.deleteLog tx row
  | .complete tx _ => [.finish tx]
  | .scan scan .start => scan.startLog s
  | .scan scan .rewind => scan.close.startLog s
  | .scan scan .hasNext | .scan scan .next => scan.hasNextLog s
  | .flush _ | .flushAll | .discard _ | .append _ => []

/-- What is done with pages. -/
def log (s : Store) : Deed → List Handling
  | .event (.action a) => s.actionLog a
  | .event (.insert tx table row) => s.insertLog tx table row
  | .event (.elsewhere _ _) => []
  | .insertIntoFile tx file row => s.fileInsertLog tx file row
  | .deleteFromFile tx file row => s.fileDeleteLog tx file row
  | .drop tx id => [.drop tx id]
  | .keep tx id => [.keep tx id]

/-- The store after a deed. -/
def undergo (s : Store) : Deed → Store
  | .event e => s.meet e
  | .insertIntoFile tx file row => (s.insertIntoFile tx file row).2
  | .deleteFromFile tx file row => (s.deleteFromFile tx file row).2
  | .drop tx id => s.release tx id
  | .keep _ _ => s

/-- A guard is there when it is dropped or given up. -/
def Lawful (past : List Handling) : Deed → Prop
  | .drop tx id | .keep tx id => Guarded past tx id
  | .event _ | .insertIntoFile _ _ _ | .deleteFromFile _ _ _ => True

/-- The stores that are come to, each with the log of the deeds that led to it. -/
inductive Handled : Store → List Handling → Prop
  | new (s : Store) : Handled s []
  | deed {s : Store} {past : List Handling} (h : Handled s past) (d : Deed)
      (hlawful : Lawful past d) : Handled (s.undergo d) (past ++ s.log d)

/-- What an operation may do with pages. -/
def MayAct (s : Store) : Action → Handling → Prop
  | .acquire tx id, x => x = .take tx id
  | .release tx id, x => x = .free tx id
  | .insert tx table row _, x => x.Inserting tx table (Fails (s.insertRow tx table row))
  | .delete tx row, x => x.Deleting tx (Fails (s.deleteRow tx row))
  | .complete tx _, x => x = .finish tx
  | .scan scan _, x => x.Reading scan.tx
  | .flush _, _ | .flushAll, _ | .discard _, _ | .append _, _ => False

/-- What a deed may do with pages. -/
def May (s : Store) : Deed → Handling → Prop
  | .event (.action a), x => s.MayAct a x
  | .event (.insert tx table row), x => x.Inserting tx table (Fails (s.insertRow tx table row))
  | .event (.elsewhere _ _), _ => False
  | .insertIntoFile tx file row, x =>
    x.Inserting tx file.table (Fails (s.insertIntoFile tx file row))
  | .deleteFromFile tx file row, x => x.Deleting tx (Fails (s.deleteFromFile tx file row))
  | .drop tx id, x => x = .drop tx id
  | .keep tx id, x => x = .keep tx id

/-! ### Writing pages -/

theorem holds_flushPage (h : s.flushPage id = .ok t) : t.pool.holds = s.pool.holds := by
  rcases flushPage_cases h with ⟨rfl, -⟩ | ⟨rfl, -⟩ | ⟨f, page, disk, -, -, -, -, rfl⟩
  · rfl
  · rfl
  · rfl

theorem holds_of_clears (h : s.Clears t) : t.pool.holds = s.pool.holds := by
  induction h with
  | refl => rfl
  | tail _ hlast ih =>
    obtain ⟨id, rfl | hflush⟩ := hlast
    · exact ih
    · exact (holds_flushPage hflush).trans ih

/-! ### Steps -/

theorem logs_of_single {K : Handling → Prop} {x : Handling}
    (h : t.pool.holds = Handling.change s.pool.holds x) (hx : K x)
    (hkeep : ∀ tx id, x ≠ .keep tx id) : Logs K s t [x] where
  holds_eq := h
  kind := by
    rintro y (_ | ⟨_, ⟨⟩⟩)
    exact hx
  taken := by
    rintro tx id (_ | ⟨_, ⟨⟩⟩)
    exact absurd rfl (hkeep tx id)

/-- An operation does with pages what it may do. -/
theorem logs_after (s : Store) (a : Action) : Logs (s.MayAct a) s (s.after a) (s.actionLog a) := by
  unfold after
  cases a with
  | acquire tx id =>
    unfold perform actionLog
    dsimp only
    cases hacquire : s.acquire tx id with
    | error cause => exact .refl s
    | ok given =>
      exact logs_of_single (x := .take tx id) (holds_of_acquire hacquire) rfl nofun
  | release tx id => exact logs_of_single (x := .free tx id) rfl rfl nofun
  | insert tx table row complete => exact s.logs_insertRow tx table row
  | delete tx row => exact s.logs_deleteRow tx row
  | flush id =>
    show Logs _ s (Outcome.ofExcept s _).2 []
    cases hflush : s.flushPage id with
    | error cause => exact .refl s
    | ok t => exact .of_holds (holds_flushPage hflush)
  | flushAll => exact .of_holds (holds_of_clears (s.clears_flushPages _))
  | discard id => exact .of_holds rfl
  | complete tx commit =>
    have hholds := holds_of_clears (s.clears_complete tx commit)
    exact logs_of_single (x := .finish tx) hholds rfl nofun
  | append table => exact .of_holds (congrArg Pool.holds (pool_appendPage s table))
  | scan scan move =>
    cases move with
    | start => exact scan.logs_start s
    | rewind => exact scan.close.logs_start s
    | hasNext => exact scan.logs_hasNext s
    | next => exact scan.logs_next s

theorem logs_undergo (s : Store) (d : Deed) (hkeep : ∀ tx id, d ≠ .keep tx id) :
    Logs (s.May d) s (s.undergo d) (s.log d) := by
  cases d with
  | event e =>
    cases e with
    | action a => exact s.logs_after a
    | insert tx table row => exact s.logs_insertRow tx table row
    | elsewhere catalog disk => exact .of_holds rfl
  | insertIntoFile tx file row => exact s.logs_insertIntoFile tx file row
  | deleteFromFile tx file row => exact s.logs_deleteFromFile tx file row
  | drop tx id => exact logs_of_single (x := .drop tx id) rfl rfl nofun
  | keep tx id => exact absurd rfl (hkeep tx id)

theorem taken_of_guarded (h : Guarded past tx id) : .take tx id ∈ past :=
  List.count_pos_iff.1 (Nat.zero_lt_of_lt h)

/-- The holds are what the log makes of them, and a hold is kept only for a page that was given. -/
theorem Handled.logs (h : Handled s past) :
    ∃ holds, s.pool.holds = past.foldl Handling.change holds ∧
      ∀ tx id, .keep tx id ∈ past → .take tx id ∈ past := by
  induction h with
  | new s => exact ⟨s.pool.holds, rfl, nofun⟩
  | @deed s past _ d hlawful ih =>
    obtain ⟨holds, hholds, htaken⟩ := ih
    refine ⟨holds, ?_⟩
    rw [List.foldl_append, ← hholds]
    by_cases hkeep : ∃ tx id, d = .keep tx id
    · obtain ⟨tx, id, rfl⟩ := hkeep
      refine ⟨rfl, fun tx' id' hmem => List.mem_append_left _ ?_⟩
      rcases List.mem_append.1 hmem with hmem | hmem
      · exact htaken tx' id' hmem
      · cases List.mem_singleton.1 hmem
        exact taken_of_guarded hlawful
    · have hlogs := s.logs_undergo d fun tx id hd => hkeep ⟨tx, id, hd⟩
      refine ⟨hlogs.holds_eq, fun tx' id' hmem => ?_⟩
      rcases List.mem_append.1 hmem with hmem | hmem
      · exact List.mem_append_left _ (htaken tx' id' hmem)
      · exact List.mem_append_right _ (hlogs.taken tx' id' hmem)

theorem Handled.taken_of_promised (h : Handled s past) (hpromised : Promised past tx id) :
    .take tx id ∈ past := by
  rcases hpromised with hguarded | ⟨before, after, rfl, -, -⟩
  · exact taken_of_guarded hguarded
  · obtain ⟨-, -, htaken⟩ := h.logs
    exact htaken tx id (List.mem_append_right _ List.mem_cons_self)

/-- **A promised hold** is there exactly if the transaction has not let go of the page since it was
given the page last. -/
theorem held_iff (h : Handled s past) (hpromised : Promised past tx id) :
    (s.pool.isHeldBy tx id = true ↔ ∀ x ∈ sinceTaken tx id past, ¬ x.LetsGo tx id) ∧
      (∀ d, ∀ x ∈ s.log d, s.May d x) ∧
      (∀ tx f row id t, s.insertIntoFile tx f row = (.ok id, t) →
        .keep tx id ∈ s.log (.insertIntoFile tx f row)) ∧
      ∀ tx f row id t, s.deleteFromFile tx f row = (.ok id, t) →
        .keep tx id ∈ s.log (.deleteFromFile tx f row) := by
  obtain ⟨holds, hholds, -⟩ := h.logs
  refine ⟨?_, fun d x hx => ?_, fun _ _ _ _ _ => keep_of_insertIntoFile,
    fun _ _ _ _ _ => keep_of_deleteFromFile⟩
  · rw [Pool.isHeldBy, decide_eq_true_eq, hholds]
    exact mem_foldl_change (h.taken_of_promised hpromised) holds
  · by_cases hkeep : ∃ tx id, d = .keep tx id
    · obtain ⟨tx, id, rfl⟩ := hkeep
      exact List.mem_singleton.1 hx
    · exact (s.logs_undergo d fun tx id hd => hkeep ⟨tx, id, hd⟩).kind x hx

/-- A scan keeps the page that has the 7. An insertion by the same transaction finds that page full,
and lets it go; it keeps the page that takes the 8. -/
theorem held_after_insertNumber :
    let first : PageId := ⟨only, 0⟩
    let second : PageId := ⟨only, 1⟩
    let read : List Handling := [.take ⟨1⟩ first, .keep ⟨1⟩ first]
    let stored : List Handling :=
      read ++ [.take ⟨1⟩ first, .full ⟨1⟩ first, .take ⟨1⟩ second, .keep ⟨1⟩ second]
    let pages := single numbers 5 2 [1, 7, 0, 0, 0] 5
    let s := pages.after (.scan (HeapFile.scan ⟨only, "rows", numbers, 5⟩ ⟨1⟩) .start)
    let t := s.after (insertNumber ⟨1⟩ 8)
    Handled s read ∧ Promised read ⟨1⟩ first ∧ s.pool.isHeldBy ⟨1⟩ first = true ∧
      Handled t stored ∧ Promised stored ⟨1⟩ first ∧ t.pool.isHeldBy ⟨1⟩ first = false ∧
      Promised stored ⟨1⟩ second ∧ t.pool.isHeldBy ⟨1⟩ second = true := by
  intro first second read stored pages s t
  have hread : pages.actionLog (.scan (HeapFile.scan ⟨only, "rows", numbers, 5⟩ ⟨1⟩) .start) =
      read := by decide +kernel
  have hstored : read ++ s.actionLog (insertNumber ⟨1⟩ 8) = stored := by decide +kernel
  have hs : Handled s read := hread ▸ .deed (.new pages) (.event (.action _)) trivial
  have ht : Handled t stored := hstored ▸ .deed hs (.event (.action _)) trivial
  have hfirst : Promised read ⟨1⟩ first :=
    .inr ⟨[.take ⟨1⟩ first], [], rfl, by decide, by decide⟩
  have hfirst' : Promised stored ⟨1⟩ first :=
    .inr ⟨[.take ⟨1⟩ first], _, rfl, by decide, by decide⟩
  have hsecond : Promised stored ⟨1⟩ second :=
    .inr ⟨read ++ [.take ⟨1⟩ first, .full ⟨1⟩ first, .take ⟨1⟩ second], [], rfl, by decide,
      by decide⟩
  refine ⟨hs, hfirst, (held_iff hs hfirst).1.2 (by decide), ht, hfirst', ?_, hsecond,
    (held_iff ht hsecond).1.2 (by decide)⟩
  rw [← Bool.not_eq_true, (held_iff ht hfirst').1]
  decide

/-- Two numbers are inserted by one transaction, each of which fills a page. The page of the first
is kept, and let go when the second insertion finds it full. -/
theorem not_held_though_promised :
    ¬ ∀ (s : Store) (past : List Handling) (tx : TxId) (id : PageId), Handled s past →
      Promised past tx id → s.pool.isHeldBy tx id = true := by
  intro hclaim
  let pages := single numbers 5 2 [] 0
  let s := pages.after (insertNumber ⟨1⟩ 1)
  let t := s.after (insertNumber ⟨1⟩ 2)
  have hs : Handled s ([] ++ pages.actionLog (insertNumber ⟨1⟩ 1)) :=
    .deed (.new pages) (.event (.action _)) trivial
  have ht : Handled t ([] ++ pages.actionLog (insertNumber ⟨1⟩ 1) ++
      s.actionLog (insertNumber ⟨1⟩ 2)) := .deed hs (.event (.action _)) trivial
  have hlog : [] ++ pages.actionLog (insertNumber ⟨1⟩ 1) ++ s.actionLog (insertNumber ⟨1⟩ 2) =
      [.take ⟨1⟩ ⟨only, 0⟩, .keep ⟨1⟩ ⟨only, 0⟩, .take ⟨1⟩ ⟨only, 0⟩, .full ⟨1⟩ ⟨only, 0⟩,
        .take ⟨1⟩ ⟨only, 1⟩, .keep ⟨1⟩ ⟨only, 1⟩] := by decide +kernel
  rw [hlog] at ht
  have hpromised : Promised [.take ⟨1⟩ ⟨only, 0⟩, .keep ⟨1⟩ ⟨only, 0⟩, .take ⟨1⟩ ⟨only, 0⟩,
      .full ⟨1⟩ ⟨only, 0⟩, .take ⟨1⟩ ⟨only, 1⟩, .keep ⟨1⟩ ⟨only, 1⟩] ⟨1⟩ ⟨only, 0⟩ :=
    .inr ⟨[.take ⟨1⟩ ⟨only, 0⟩], _, rfl, by decide, by decide⟩
  have hheld := hclaim t _ ⟨1⟩ ⟨only, 0⟩ ht hpromised
  have hgone : t.pool.isHeldBy ⟨1⟩ ⟨only, 0⟩ = false := by decide +kernel
  rw [hgone] at hheld
  cases hheld

end Store

end Rowstore
