import Mathlib
import Rowstore.Proofs.Query.Draining
import Rowstore.Proofs.Query.Moving
import Rowstore.Proofs.Store.Searching
import Rowstore.Proofs.Store.Typing

/-!
# Insertions end

A tree that reads may read the very table that its rows are put into. Each pull of it ends, and
after finitely many pulls there is no other row, whatever is done to the rows of tables between the
pulls: `Operator.Exhausts`. The induction is on the rows that are still to be given. There is no
bound on them when the tree is opened, as the right child of a loop may have more rows to come when
it is sent back than before; but there is one left row less then, and the count of pages that a scan
goes through is that of its start.

* Every tree that reads comes to its end so, in every state: `Operator.Reading.exhausts`, assembled
  from one lemma for each operator.
* The first pull of an insertion ends, with a count or with a failure that is told:
  `Operator.insertion_ends`. Pages must have a size that memory can hold, and the pages of the table
  must be counted by their numbers when the pull ends.
-/

namespace Rowstore

/-! ### Failures that are told -/

/-- Why something fails that is told: all causes but sizes that are unusable and too few steps. -/
def DbError.isTold : DbError → Bool
  | badPageSize | unfinished => false
  | _ => true

theorem DbError.isTold_of_isRefusal {cause : DbError} (h : cause.isRefusal) : cause.isTold := by
  cases cause <;> first | rfl | cases h

theorem DbError.isTold_of_isAbsence {cause : DbError} (h : cause.isAbsence) : cause.isTold :=
  isTold_of_isRefusal (isRefusal_of_isAbsence h)

theorem FailsOnly.told {α : Type} {x : Except DbError α} (h : FailsOnly DbError.isRefusal x) :
    FailsOnly DbError.isTold x := h.mono DbError.isTold_of_isRefusal

instance (f : HeapFile) : Decidable f.Usable := inferInstanceAs (Decidable (_ ∧ _))

namespace Engine

variable {e e' e'' : Engine} {db : Nat}

/-- The pages of all tables have a usable size. -/
def Sized (e : Engine) : Prop := ∀ d ∈ e.databases, ∀ t ∈ d.catalog.tables, t.file.Usable

instance (e : Engine) : Decidable e.Sized := inferInstanceAs (Decidable (∀ d ∈ _, ∀ t ∈ _, _))

theorem Sized.file (h : e.Sized) {table : TableId} {f : HeapFile}
    (hf : (e.store db).catalog.file table = .ok f) : f.Usable := by
  obtain ⟨d, hd⟩ : ∃ d, e.databases[db]? = some d :=
    ⟨_, List.getElem?_eq_getElem (lt_of_file hf)⟩
  unfold Catalog.file Catalog.table store at hf
  rw [hd] at hf
  dsimp only [Option.getD_some] at hf
  split at hf
  · rename_i t ht
    cases hf
    exact h d (List.mem_of_getElem? hd) t (List.mem_of_find?_eq_some ht)
  · cases hf

/-- The tables are the same, whatever has become of their rows. -/
def SameTables (e e' : Engine) : Prop := ∀ db, (e'.store db).catalog = (e.store db).catalog

theorem SameTables.refl (e : Engine) : e.SameTables e := fun _ => rfl

theorem SameTables.trans (h : e.SameTables e') (h' : e'.SameTables e'') : e.SameTables e'' :=
  fun db => (h' db).trans (h db)

theorem sameTables_setStore {s : Store} (h : s.catalog = (e.store db).catalog) :
    e.SameTables (e.setStore db s) := by
  intro other
  rcases e.store_setStore_cases db s other with ⟨rfl, -, hstore⟩ | hstore <;> rw [hstore]
  exact h

end Engine

namespace Operator

variable {e₀ e : Engine} {op op' child left right q r : Operator}

/-- A tree reads rows and does nothing else. The pages that it reads have a usable size. -/
def Reading : Operator → Prop
  | rows .. => True
  | scan _ _ _ _ place _ => place.file.Usable
  | filter _ child _ | aggregate _ _ _ child _ _ _ => child.Reading
  | nestedLoop _ _ left right _ _ _ | hashJoin _ _ left right _ _ _ _ =>
    left.Reading ∧ right.Reading
  | insert .. | delete .. => False

theorem reading_fresh (op : Operator) : op.fresh.Reading ↔ op.Reading := by
  induction op with
  | filter p child c ih => exact ih
  | nestedLoop planned p left right schema current c ihl ihr => exact and_congr ihl ihr
  | hashJoin planned p left right schema table pending c ihl ihr => exact and_congr ihl ihr
  | aggregate column group fn child schema results c ih => exact ih
  | _ => rfl

theorem reading_congr (h : op'.fresh = op.fresh) : op'.Reading ↔ op.Reading := by
  rw [← reading_fresh op', h, reading_fresh]

/-- What is told, and leaves the tables the same. -/
structure Told {α : Type} (e₀ : Engine) (o : Pulled α) : Prop where
  told : FailsOnly DbError.isTold o.1
  tables : e₀.SameTables o.2.2

theorem Told.andThen {α β : Type} {o : Pulled α} {keep : Operator × Engine → Operator × Engine}
    {next : α → Operator × Engine → Pulled β} (h : Told e₀ o) (hkeep : ∀ s, (keep s).2 = s.2)
    (hnext : ∀ a op e, e₀.SameTables e → Told e₀ (next a (op, e))) :
    Told e₀ (o.andThen keep next) := by
  obtain ⟨cause | a, op, e⟩ := o
  · refine ⟨.error (h.told cause rfl), ?_⟩
    rw [Outcome.andThen_error, hkeep]
    exact h.tables
  · exact hnext a op e h.tables

/-- A tree that is sent back reads pages and does nothing else. -/
theorem told_rewind (hop : op.Reading) (hsized : e₀.Sized) (he : e₀.SameTables e) :
    Told e₀ (op.rewind e) := by
  induction op generalizing e with
  | rows => exact ⟨.ok (), he⟩
  | scan db table label schema place c =>
    have hcatalog : (place.close.start (e.store db)).2.2.catalog = (e.store db).catalog :=
      (place.close.acquires_start (e.store db)).catalog_eq
    have hfails := place.close.start_causes DbError.isTold_of_isAbsence (e.store db)
      (fun f hf hnot => absurd (hsized.file (he db ▸ hf)) hnot) (absurd hop)
    have htables := he.trans (Engine.sameTables_setStore hcatalog)
    unfold rewind Scan.rewind
    generalize place.close.start (e.store db) = o at hfails htables ⊢
    obtain ⟨cause | u, place', s⟩ := o
    · exact ⟨hfails, htables⟩
    · exact ⟨.ok (), htables⟩
  | filter p child c ih =>
    exact (ih hop he).andThen (fun _ => rfl) fun _ _ _ he => ⟨.ok (), he⟩
  | nestedLoop planned p left right schema current c ihl ihr =>
    exact (ihl hop.1 he).andThen (fun _ => rfl) fun _ _ _ he =>
      (ihr hop.2 he).andThen (fun _ => rfl) fun _ _ _ he => ⟨.ok (), he⟩
  | hashJoin planned p left right schema table pending c ihl ihr =>
    exact (ihr hop.2 he).andThen (fun _ => rfl) fun _ _ _ he => ⟨.ok (), he⟩
  | aggregate column group fn child schema results c ih =>
    exact (ih hop he).andThen (fun _ => rfl) fun _ _ _ he => ⟨.ok (), he⟩
  | insert => exact hop.elim
  | delete => exact hop.elim

/-! ### Operators that come to an end -/

/-- However often an operator is pulled, and whatever is done to the tables between the pulls, each
pull ends, and after finitely many there is no other row. `last` is what a pull comes to. -/
inductive Exhausts (e₀ : Engine) : Operator → Prop
  | mk {op : Operator} (last : Engine → Pulled (Option Tuple))
    (settles : ∀ e, e₀.SameTables e → Settles (fun n => op.pull n e) (· = last e))
    (told : ∀ e, e₀.SameTables e → Told e₀ (last e))
    (rest : ∀ e row, e₀.SameTables e → (last e).1 = .ok (some row) → Exhausts e₀ (last e).2.1) :
    Exhausts e₀ op

/-- A pull ends, and the operator is closer to its end if there was a row. -/
structure Shortens (e₀ : Engine) (o : Pulled (Option Tuple)) : Prop extends Told e₀ o where
  rest : ∀ row, o.1 = .ok (some row) → o.2.1.Exhausts e₀

theorem Shortens.failed {cause : DbError} (hcause : cause.isTold) (he : e₀.SameTables e) :
    Shortens e₀ (.error cause, op, e) := ⟨⟨.error hcause, he⟩, nofun⟩

theorem Shortens.gave_none (he : e₀.SameTables e) : Shortens e₀ (.ok none, op, e) :=
  ⟨⟨.ok none, he⟩, nofun⟩

theorem Shortens.gave {row : Tuple} (he : e₀.SameTables e) (hrest : op.Exhausts e₀) :
    Shortens e₀ (.ok (some row), op, e) := ⟨⟨.ok _, he⟩, fun _ _ => hrest⟩

theorem exhausts_iff : op.Exhausts e₀ ↔
    ∀ e, e₀.SameTables e → Settles (fun n => op.pull n e) (Shortens e₀) := by
  constructor
  · rintro ⟨last, hsettles, htold, hrest⟩ e he
    refine (hsettles e he).mono ?_
    rintro o rfl
    exact ⟨htold e he, fun row hrow => hrest e row he hrow⟩
  · intro h
    have : Nonempty (Pulled (Option Tuple)) := ⟨(.ok none, op, e₀)⟩
    choose! last hfinished hlast n hn using h
    exact .mk last (fun e he => ⟨last e, hfinished e he, rfl, n e, hn e he⟩)
      (fun e he => (hlast e he).toTold) fun e row he hrow => (hlast e he).rest row hrow

theorem Exhausts.pull (h : op.Exhausts e₀) (he : e₀.SameTables e) :
    Settles (fun n => op.pull n e) (Shortens e₀) := exhausts_iff.1 h e he

/-- An operator that is open, with no row looked at, is pulled by making its next row. -/
theorem exhausts_of_fetch (hready : op.cursor = .ready)
    (h : ∀ e, e₀.SameTables e → Settles (fun n => op.fetch (n + 1) e) (Shortens e₀)) :
    op.Exhausts e₀ := by
  refine exhausts_iff.2 fun e he => .of_succ ?_
  simp only [Operator.pull, pullWith_eq_of_ready hready]
  exact h e he

theorem Exhausts.fetch (h : op.Exhausts e₀) (hready : op.cursor = .ready)
    (he : e₀.SameTables e) : Settles (fun n => op.fetch n e) (Shortens e₀) := by
  have hpull := h.pull he
  simpa only [Operator.pull, pullWith_eq_of_ready hready] using hpull

theorem mapCursor_of_cursor {c : Cursor} (h : op.cursor = c) (change : Cursor → Cursor) :
    op.mapCursor change = op.mapCursor fun _ => change c := by
  subst h
  cases op <;> rfl

theorem mapCursor_cursor (op : Operator) : op.mapCursor (fun _ => op.cursor) = op := by
  cases op <;> rfl

/-- An operator that refuses, or gives the row that was looked at, goes no further. -/
theorem exhausts_of_ready (h : (op.mapCursor fun _ => .ready).Exhausts e₀) :
    op.Exhausts e₀ := by
  refine exhausts_iff.2 fun e he => ?_
  rcases hcursor : op.cursor with ⟨_ | _, _ | row⟩
  case true.none =>
    rw [← op.mapCursor_cursor, hcursor]
    exact h.pull he
  case true.some =>
    have hpull : ∀ n, op.pull n e = (.ok (some row), op.clear, e) := fun n => by
      unfold pull pullWith
      rw [hcursor]
      rfl
    have hclear : op.clear = op.mapCursor fun _ => .ready :=
      mapCursor_of_cursor hcursor Cursor.clear
    simp only [hpull, hclear]
    exact .ok (.gave he h)
  all_goals
    have hpull : ∀ n, op.pull n e = (.error .operatorNotOpen, op, e) := fun n => by
      unfold pull pullWith
      rw [hcursor]
      rfl
    simp only [hpull]
    exact .at_once nofun (.failed rfl he)

theorem settles_failed {cause : DbError} (hcause : cause.isTold) (he : e₀.SameTables e) :
    Settles (fun _ => (.error cause, op, e)) (Shortens e₀) :=
  .at_once ((FailsOnly.error hcause).ne_error _ rfl) (.failed hcause he)

/-- An operator that goes on from a pull of a child. -/
theorem settles_from_child {last : Pulled (Option Tuple)}
    {keep : Operator × Engine → Operator × Engine}
    {next : Nat → Option Tuple → Operator × Engine → Pulled (Option Tuple)}
    (h : Settles (fun n => child.pull n e) (· = last)) (htold : Told e₀ last)
    (hkeep : ∀ s, (keep s).2 = s.2)
    (hnone : ∀ child e, last = (.ok none, child, e) → e₀.SameTables e →
      Settles (fun n => next n none (child, e)) (Shortens e₀))
    (hrow : ∀ row child e, last = (.ok (some row), child, e) → e₀.SameTables e →
      Settles (fun n => next n (some row) (child, e)) (Shortens e₀)) :
    Settles (fun n => (child.pull n e).andThen keep (next n)) (Shortens e₀) := by
  refine h.andThen ?_ ?_
  · rintro cause ⟨child, e⟩ rfl
    exact ⟨⟨.error (htold.told cause rfl), (hkeep (child, e)).symm ▸ htold.tables⟩, nofun⟩
  · rintro (_ | row) ⟨child, e⟩ rfl
    · exact hnone child e rfl htold.tables
    · exact hrow row child e rfl htold.tables

/-- A pull that settles leaves the operator the same one. -/
theorem fresh_of_settles {last : Pulled (Option Tuple)}
    (h : Settles (fun n => op.pull n e) (· = last)) : last.2.1.fresh = op.fresh := by
  obtain ⟨o, -, rfl, n, hpull⟩ := h
  rw [← hpull n le_rfl]
  exact (op.pull_handed n e).fresh_eq

/-- All rows of an operator are taken, or one of them is not, whatever taking them does to the
rows of tables. The steps of the single pulls and their count may be bounded differently. -/
theorem Exhausts.drain {σ : Type} {take : σ → Tuple → Engine → Outcome Engine σ}
    (htake : ∀ state row e, e₀.SameTables e → e₀.SameTables (take state row e).2)
    (h : op.Exhausts e₀) (he : e₀.SameTables e) (state : σ) :
    ∃ (o : Pulled σ) (N : Nat),
      (∀ m n, N ≤ m → N ≤ n → drainWith (Operator.pull m) take n state op e = o) ∧
      e₀.SameTables o.2.2 ∧ ∀ cause, o.1 = .error cause → cause.isTold ∨
        ∃ state row e, e₀.SameTables e ∧ take state row e = (.error cause, o.2.2) := by
  induction h generalizing e state with
  | @mk op last hsettles htold _ ih =>
    obtain ⟨-, -, rfl, N, hpull⟩ := hsettles e he
    obtain ⟨hfails, htables⟩ := htold e he
    -- a bound for the steps after the first one is one less than a bound for all of them
    have hstep : ∀ {o : Pulled σ} {K : Nat}, N ≤ K →
        (∀ m n, N ≤ m → K ≤ m → K ≤ n →
          drainWith (Operator.pull m) take (n + 1) state op e = o) →
        ∀ m n, K + 1 ≤ m → K + 1 ≤ n → drainWith (Operator.pull m) take n state op e = o := by
      intro o K hK h m n hm hn
      obtain ⟨n, rfl⟩ : ∃ k, n = k + 1 := ⟨n - 1, by omega⟩
      exact h m n (by omega) (by omega) (by omega)
    have hrest := fun row => ih e row he
    generalize last e = o at hfails htables hpull hrest
    obtain ⟨cause | _ | row, op', e'⟩ := o
    · refine ⟨_, N + 1, hstep le_rfl fun m n hm _ _ => drainWith_of_error (hpull m hm) n state,
        htables, ?_⟩
      rintro _ ⟨⟩
      exact .inl (hfails cause rfl)
    · exact ⟨_, N + 1, hstep le_rfl fun m n hm _ _ => drainWith_of_none (hpull m hm) n state,
        htables, by simp⟩
    · have hrow := fun m n hm =>
        (drainWith_of_row (hpull m hm) n state : drainWith _ take _ _ _ _ = _)
      have htables' := htake state row e' htables
      cases htaken : take state row e' with | mk result e''
      simp only [htaken] at htables' hrow
      cases result with
      | error cause =>
        refine ⟨_, N + 1, hstep le_rfl fun m n hm _ _ => hrow m n hm, htables', ?_⟩
        rintro _ ⟨⟩
        exact .inr ⟨state, row, e', htables, htaken⟩
      | ok state' =>
        obtain ⟨o, K, ho, htables, hcause⟩ := hrest row rfl htables' state'
        refine ⟨o, max N K + 1, hstep (by omega) fun m n hm hKm hKn => ?_, htables, hcause⟩
        rw [hrow m n hm]
        exact ho m n (by omega) (by omega)

/-- All rows of an operator are taken, or one of them is not and it is told why. -/
theorem Exhausts.settles_drain {σ : Type} {take : σ → Tuple → Engine → Outcome Engine σ}
    {taken : σ → Tuple → Except DbError σ}
    (htake : ∀ state row e, take state row e =
      Outcome.ofExcept e ((taken state row).map fun state => (state, e)))
    (htold : ∀ state row, FailsOnly DbError.isRefusal (taken state row))
    (h : op.Exhausts e₀) (he : e₀.SameTables e) (state : σ) :
    Settles (fun n => drainWith (Operator.pull n) take n state op e) (Told e₀) := by
  have hsame : ∀ state row e, (take state row e).2 = e := fun state row e => by
    rw [htake]
    cases taken state row <;> rfl
  obtain ⟨o, N, ho, htables, hcause⟩ :=
    h.drain (fun state row e he => (hsame state row e).symm ▸ he) he state
  have hfails : FailsOnly DbError.isTold o.1 := fun cause hc => by
    rcases hcause cause hc with htold | ⟨state, row, e, -, htaken⟩
    · exact htold
    · rw [htake] at htaken
      have hrow := htold state row
      cases htry : taken state row with
      | error cause' =>
        rw [htry] at htaken
        cases htaken
        exact DbError.isTold_of_isRefusal (hrow _ htry)
      | ok state' =>
        rw [htry] at htaken
        cases htaken
  exact ⟨o, hfails.ne_error _ rfl, ⟨hfails, htables⟩, N, fun n hn => ho n n hn hn⟩

/-! ### Leaves -/

section Leaves

variable {schema : Schema} {all rest : List Tuple} {db : Nat} {table : TableId} {label : String}
  {place : Scan}

theorem exhausts_rows : (rows schema all rest .ready).Exhausts e₀ := by
  induction rest with
  | nil => exact exhausts_of_fetch rfl fun e he => .ok (.gave_none he)
  | cons row rest ih => exact exhausts_of_fetch rfl fun e he => .ok (.gave he ih)

/-- A scan has fewer pages before it with each row, or fewer rows of the page that it is on. The
count of pages is that of its start, however the table grows. -/
theorem exhausts_scan (hsized : e₀.Sized) :
    (scan db table label schema place .ready).Exhausts e₀ := by
  have hwf : WellFounded (Prod.Lex (· < · : Nat → Nat → Prop) (· < · : Nat → Nat → Prop)) :=
    wellFounded_lt.prod_lex wellFounded_lt
  induction hplace : (place.pageCount - place.page, (place.rest.getD []).length) using
    hwf.induction generalizing place with
  | _ before ih =>
    refine exhausts_of_fetch rfl fun e he => ?_
    have hcatalog : (place.hasNext (e.store db)).2.2.catalog = (e.store db).catalog :=
      (place.acquires_hasNext (e.store db)).catalog_eq
    have hfails := place.hasNext_causes DbError.isTold_of_isAbsence (e.store db)
      fun f hf hnot => absurd (hsized.file (he db ▸ hf)) hnot
    have htables := he.trans (Engine.sameTables_setStore hcatalog)
    simp only [Operator.fetch]
    cases hmore : place.hasNext (e.store db) with | mk result state
    obtain ⟨place', s⟩ := state
    rw [hmore] at hfails htables
    cases result with
    | error cause => exact settles_failed (hfails cause rfl) htables
    | ok more =>
      rcases Scan.hasNext_cases hmore with ⟨rfl, -⟩ | ⟨rfl, row, rest, hrest⟩
      · exact .ok (.gave_none htables)
      · have hrow := Scan.next_of_rest (s := s) hrest
        simp only [hrow]
        exact .ok (.gave htables (ih _ (hplace ▸ Scan.next_lt hmore hrow) rfl))

end Leaves

/-! ### Filters, joins and aggregates -/

section Trees

variable {p : Predicate} {jp : JoinPredicate} {planned : Bool} {schema : Schema} {column : Nat}
  {group : Option Nat} {fn : AggregateFunction}

/-- A filter that passes over a row is a filter over fewer rows. -/
theorem Exhausts.filter (h : child.Exhausts e₀) : (filter p child .ready).Exhausts e₀ := by
  induction h with
  | @mk child last hsettles htold _ ih =>
    refine exhausts_of_fetch rfl fun e he => ?_
    simp only [Operator.fetch]
    refine settles_from_child (hsettles e he) (htold e he) (fun _ => rfl)
      (fun child e _ he => .ok (.gave_none he)) fun row child' e' hlast he' => ?_
    have hrest := ih e row he (by rw [hlast])
    rw [hlast] at hrest
    cases hholds : p.holds row with
    | error cause =>
      simp only [hholds]
      exact settles_failed ((p.holds_fails row).told cause hholds) he'
    | ok holds =>
      simp only [hholds]
      cases holds with
      | true => exact .ok (.gave he' hrest)
      | false => exact hrest.fetch rfl he'

/-- A left row is joined with the right rows that are still to come. Then the right child is sent
back, and may have more rows to come than before. -/
theorem exhausts_loop_some {l : Tuple} (hsized : e₀.Sized) (hreading : q.Reading)
    (hnone : ∀ right : Operator, right.fresh = q.fresh →
      (nestedLoop planned jp left right schema none .ready).Exhausts e₀)
    (h : right.Exhausts e₀) (hfresh : right.fresh = q.fresh) :
    (nestedLoop planned jp left right schema (some l) .ready).Exhausts e₀ := by
  induction h with
  | @mk right last hsettles htold _ ih =>
    refine exhausts_of_fetch rfl fun e he => ?_
    have hsame := (fresh_of_settles (hsettles e he)).trans hfresh
    simp only [Operator.fetch]
    refine settles_from_child (hsettles e he) (htold e he) (fun _ => rfl)
      (fun right' e' hlast he' => ?_) fun row right' e' hlast he' => ?_
    · rw [hlast] at hsame
      have hback := told_rewind ((reading_congr hsame).2 hreading) hsized he'
      have hagain := (right'.fresh_rewind e').trans hsame
      dsimp only
      generalize right'.rewind e' = o at hback hagain ⊢
      obtain ⟨cause | u, right'', e''⟩ := o
      · exact settles_failed (hback.told cause rfl) hback.tables
      · exact (hnone right'' hagain).fetch rfl hback.tables
    · have hrest := ih e row he (by rw [hlast]) hsame
      rw [hlast] at hrest
      cases hholds : jp.holds l row with
      | error cause =>
        simp only [hholds]
        exact settles_failed ((jp.holds_fails l row).told cause hholds) he'
      | ok holds =>
        simp only [hholds]
        cases holds with
        | true => exact .ok (.gave he' hrest)
        | false => exact hrest.fetch rfl he'

/-- There is one left row less each time that the right child is sent back. -/
theorem Exhausts.loop (h : left.Exhausts e₀) (hsized : e₀.Sized) (hreading : q.Reading)
    (hright : ∀ right : Operator, right.fresh = q.fresh → right.Exhausts e₀)
    (hfresh : right.fresh = q.fresh) (current : Option Tuple) :
    (nestedLoop planned jp left right schema current .ready).Exhausts e₀ := by
  induction h generalizing right current with
  | @mk left last hsettles htold _ ih =>
    have hnone : ∀ right : Operator, right.fresh = q.fresh →
        (nestedLoop planned jp left right schema none .ready).Exhausts e₀ := by
      refine fun right hfresh => exhausts_of_fetch rfl fun e he => ?_
      simp only [Operator.fetch]
      refine settles_from_child (hsettles e he) (htold e he) (fun _ => rfl)
        (fun left' e' _ he' => .ok (.gave_none he')) fun row left' e' hlast he' => ?_
      have hrest := ih e row he (by rw [hlast]) hfresh (some row)
      rw [hlast] at hrest
      exact hrest.fetch rfl he'
    cases current with
    | none => exact hnone right hfresh
    | some l => exact exhausts_loop_some hsized hreading hnone (hright right hfresh) hfresh

/-- The rows found for a right row are given, and then there is one right row less. -/
theorem exhausts_hash_some {table : List (Value × Tuple)} (h : right.Exhausts e₀)
    (pending : List Tuple) :
    (hashJoin planned jp left right schema (some table) pending .ready).Exhausts e₀ := by
  induction h generalizing pending with
  | @mk right last hsettles htold _ ih =>
    induction pending with
    | cons row pending ihp => exact exhausts_of_fetch rfl fun e he => .ok (.gave he ihp)
    | nil =>
      refine exhausts_of_fetch rfl fun e he => ?_
      simp only [Operator.fetch]
      refine settles_from_child (hsettles e he) (htold e he) (fun _ => rfl)
        (fun right' e' _ he' => .ok (.gave_none he')) fun probe right' e' hlast he' => ?_
      cases hkey : probe.field jp.right with
      | error cause =>
        simp only [hkey]
        exact settles_failed ((probe.field_fails jp.right).told cause hkey) he'
      | ok key =>
        have hrest := ih e probe he (by rw [hlast])
          ((table.filter fun entry => entry.1 = key).map fun entry => entry.2.concat probe)
        rw [hlast] at hrest
        simp only [hkey]
        exact hrest.fetch rfl he'

theorem Exhausts.hash (hl : left.Exhausts e₀) (hr : right.Exhausts e₀)
    (table : Option (List (Value × Tuple))) (pending : List Tuple) :
    (hashJoin planned jp left right schema table pending .ready).Exhausts e₀ := by
  cases table with
  | some table => exact exhausts_hash_some hr pending
  | none =>
    refine exhausts_of_fetch rfl fun e he => ?_
    simp only [Operator.fetch]
    have hdrain := hl.settles_drain (takeKeyed_eq jp.left)
      (fun table row => (row.field_fails jp.left).map _) he []
    refine hdrain.andThen ?_ ?_
    · rintro cause ⟨left', e'⟩ htold
      exact .failed (htold.told cause rfl) htold.tables
    · rintro table ⟨left', e'⟩ htold
      exact (exhausts_hash_some hr pending).fetch rfl htold.tables

theorem exhausts_results (results : List Tuple) :
    (aggregate column group fn child schema (some results) .ready).Exhausts e₀ := by
  induction results with
  | nil => exact exhausts_of_fetch rfl fun e he => .ok (.gave_none he)
  | cons row results ih => exact exhausts_of_fetch rfl fun e he => .ok (.gave he ih)

theorem Exhausts.aggregate (h : child.Exhausts e₀) (results : Option (List Tuple)) :
    (aggregate column group fn child schema results .ready).Exhausts e₀ := by
  cases results with
  | some results => exact exhausts_results results
  | none =>
    refine exhausts_of_fetch rfl fun e he => ?_
    simp only [Operator.fetch]
    cases hnew : newAggregator child.schema column group fn with
    | error cause => exact settles_failed ((newAggregator_fails _ _ _ _).told cause hnew) he
    | ok a =>
      refine (h.settles_drain takeSummary_eq Aggregator.merge_fails he a).andThen ?_ ?_
      · rintro cause ⟨child', e'⟩ htold
        exact .failed (htold.told cause rfl) htold.tables
      · rintro a' ⟨child', e'⟩ htold
        cases hrows : a'.rows with
        | error cause =>
          exact settles_failed (a'.rows_fails.told cause hrows) htold.tables
        | ok results =>
          exact (exhausts_results results).fetch rfl htold.tables

end Trees

/-- A tree that reads comes to an end in any state, whatever is done to the tables meanwhile. -/
theorem Reading.exhausts (hreading : q.Reading) (hsized : e₀.Sized)
    (hfresh : op.fresh = q.fresh) : op.Exhausts e₀ := by
  refine exhausts_of_ready ?_
  induction q generalizing op with
  | rows schema all rest c =>
    obtain ⟨rest, c, rfl⟩ := fresh_eq_rows hfresh
    exact exhausts_rows
  | scan db table label schema place c =>
    obtain ⟨place, c, rfl⟩ := fresh_eq_scan hfresh
    exact exhausts_scan hsized
  | filter p child c ih =>
    obtain ⟨child, c, rfl, hchild⟩ := fresh_eq_filter hfresh
    exact (exhausts_of_ready (ih hreading hchild)).filter
  | nestedLoop planned p left right schema current c ihl ihr =>
    obtain ⟨left, right, current, c, rfl, hleft, hright⟩ := fresh_eq_loop hfresh
    exact (exhausts_of_ready (ihl hreading.1 hleft)).loop hsized hreading.2
      (fun right hright => exhausts_of_ready (ihr hreading.2 hright)) hright current
  | hashJoin planned p left right schema table pending c ihl ihr =>
    obtain ⟨left, right, table, pending, c, rfl, hleft, hright⟩ := fresh_eq_hash hfresh
    exact (exhausts_of_ready (ihl hreading.1 hleft)).hash
      (exhausts_of_ready (ihr hreading.2 hright)) table pending
  | aggregate column group fn child schema results c ih =>
    obtain ⟨child, results, c, rfl, hchild⟩ := fresh_eq_aggregate hfresh
    exact (exhausts_of_ready (ih hreading hchild)).aggregate results
  | insert => exact hreading.elim
  | delete => exact hreading.elim

/-! ### Insertion -/

section Insertion

variable {db : Nat} {tx : TxId} {table : TableId} {tableSchema : Schema} {c : Cursor}
  {f : HeapFile}

theorem sameTables_takeInsert (he : e₀.SameTables e) (count : Nat) (row : Tuple) :
    e₀.SameTables (takeInsert db tx table tableSchema count row e).2 := by
  have hcatalog := (e.store db).catalog_insertRow tx { row.relabel tableSchema with record := none }
    table
  have htables := he.trans (Engine.sameTables_setStore hcatalog)
  unfold takeInsert Engine.run
  dsimp only
  generalize (e.store db).insertRow tx table { row.relabel tableSchema with record := none } = o
    at htables ⊢
  obtain ⟨cause | u, s⟩ := o
  · exact htables
  · exact htables

/-- That a row is not stored is told, unless the pages of the file cannot be counted then. -/
theorem told_of_takeInsert (hsized : e₀.Sized) (hf : (e₀.store db).catalog.file table = .ok f)
    (hslots : 0 < slotCount f.pageSize f.schema.size) (he : e₀.SameTables e) {count : Nat}
    {row : Tuple} {cause : DbError} {e' : Engine}
    (h : takeInsert db tx table tableSchema count row e = (.error cause, e')) :
    cause.isTold ∨ ¬ f.Countable e'.disk := by
  obtain rfl := Catalog.table_of_file hf
  have hf' : (e.store db).catalog.file f.table = .ok f := he db ▸ hf
  unfold takeInsert Engine.run at h
  dsimp only at h
  generalize { row.relabel tableSchema with record := none } = stored at h
  have hcauses : FailsOnly (fun cause => decide (cause ≠ .badPageSize))
      ((e.store db).insertRow tx f.table stored).1 := by
    refine (e.store db).insertRow_causes tx stored (fun {cause} hcause => ?_) rfl f.table
      fun g hg hnot => absurd (hsized.file (he db ▸ hg)) hnot
    cases cause <;> first | rfl | cases hcause
  cases hinsert : (e.store db).insertRow tx f.table stored with | mk result s
  rw [hinsert] at h hcauses
  cases result with
  | ok u => cases h
  | error cause =>
    cases h
    have hsize : cause ≠ .badPageSize := by simpa using hcauses cause rfl
    by_cases hrounds : cause = .unfinished
    · subst hrounds
      exact .inr (Store.not_countable_of_insertRow hf' hslots hinsert)
    · left
      cases cause <;> first | rfl | exact absurd rfl hsize | exact absurd rfl hrounds

/-- The first pull of an insertion ends with a count or with a failure that is told, though its
child may read the table that grows, as long as its pages can be counted then. -/
theorem insertion_ends (hsized : e.Sized) (hf : (e.store db).catalog.file table = .ok f)
    (hslots : 0 < slotCount f.pageSize f.schema.size) (hchild : child.Reading)
    (hfirst : c.peeked = none) :
    ∃ (o : Pulled (Option Tuple)) (steps : Nat),
      (∀ n, steps ≤ n → (insert db tx table tableSchema child false c).pull n e = o) ∧
      (f.Countable o.2.2.disk → Finished o ∧
        ((∃ count, o.1 = .ok (some (countRow count))) ∨
          ∃ cause, o.1 = .error cause ∧ cause.isTold)) := by
  obtain ⟨isOpen, peeked⟩ := c
  obtain rfl : peeked = none := hfirst
  cases isOpen with
  | false =>
    exact ⟨(.error .operatorNotOpen, _, e), 0, fun _ _ => rfl,
      fun _ => ⟨nofun, .inr ⟨_, rfl, rfl⟩⟩⟩
  | true =>
    have htake : ∀ (count : Nat) row e', e.SameTables e' →
        e.SameTables (takeInsert db tx table tableSchema count row e').2 :=
      fun count row _ he => sameTables_takeInsert he count row
    obtain ⟨⟨result, child', e'⟩, N, hdrain, -, hcause⟩ :=
      (hchild.exhausts hsized rfl).drain htake (.refl e) 0
    have hpull : ∀ n, N + 1 ≤ n →
        (insert db tx table tableSchema child false .ready).pull n e =
          Outcome.andThen (result, child', e')
            (under (insert db tx table tableSchema · false .ready)) fun count s =>
              (.ok (some (countRow count)), insert db tx table tableSchema s.1 true .ready,
                s.2) := by
      intro n hn
      obtain ⟨n, rfl⟩ : ∃ k, n = k + 1 := ⟨n - 1, by omega⟩
      rw [← hdrain n n (by omega) (by omega)]
      rfl
    refine ⟨_, N + 1, hpull, fun hcount => ?_⟩
    cases result with
    | ok count => exact ⟨nofun, .inl ⟨count, rfl⟩⟩
    | error cause =>
      have htold : cause.isTold := by
        rcases hcause cause rfl with htold | ⟨count, row, e'', he, htaken⟩
        · exact htold
        · exact (told_of_takeInsert hsized hf hslots he htaken).resolve_right (not_not.2 hcount)
      refine ⟨?_, .inr ⟨cause, rfl, htold⟩⟩
      rintro ⟨⟩
      cases htold

/-- The columns of two numbers. -/
def pairs : Schema := .pair ⟨.int, none⟩ ⟨.int, none⟩

/-- A table of pairs without pages. -/
def noPairs : Engine := alone (Store.single pairs 64 8 [] 0)

/-- Three numbers, each with the count of the pairs that are in the table by then. -/
def withCounts : Operator :=
  looped ⟨0, .greater, 0⟩ (ofRows Store.numbers [Store.number 1, Store.number 2, Store.number 3])
    (aggregate 0 none .count
      (scan 0 Store.only "p" (pairs.qualified "p")
        (HeapFile.scan ⟨Store.only, "rows", pairs, 64⟩ ⟨1⟩) {})
      (.single ⟨.int, some "count(null)"⟩) none {})

/-- The table has one pair more each time that its pairs are counted. -/
theorem insertion_ends_withCounts :
    let opened := withCounts.start noPairs
    opened.2.2.Sized ∧ opened.2.1.Reading ∧ ∃ (o : Pulled (Option Tuple)) (steps : Nat),
      (∀ n, steps ≤ n →
        (insert 0 ⟨1⟩ Store.only pairs opened.2.1 false .ready).pull n opened.2.2 = o) ∧
      Finished o ∧ o.1 = .ok (some (countRow 3)) := by
  intro opened
  have hsized : opened.2.2.Sized := by decide +kernel
  have hreading : opened.2.1.Reading :=
    (reading_congr (withCounts.fresh_start noPairs)).2 ⟨trivial, show HeapFile.Usable _ by decide⟩
  have hf : (opened.2.2.store 0).catalog.file Store.only =
      .ok ⟨Store.only, "rows", pairs, 64⟩ := by decide +kernel
  obtain ⟨o, steps, hpull, hends⟩ : ∃ (o : Pulled (Option Tuple)) (steps : Nat),
      (∀ n, steps ≤ n →
        (insert 0 ⟨1⟩ Store.only pairs opened.2.1 false .ready).pull n opened.2.2 = o) ∧ _ :=
    insertion_ends hsized hf (by decide) hreading rfl
  generalize hlast : (insert 0 ⟨1⟩ Store.only pairs opened.2.1 false .ready).pull 20
    opened.2.2 = last
  have hcount : last.1 = .ok (some (countRow 3)) ∧
      HeapFile.Countable ⟨Store.only, "rows", pairs, 64⟩ last.2.2.disk := by
    rw [← hlast]
    decide +kernel
  have hfinished : Finished last := by simp [Finished, hcount.1]
  obtain rfl : o = last := by
    rw [← hpull (max steps 20) (le_max_left ..), ← hlast]
    exact pull_of_le (le_max_right ..) _ _ (by rwa [hlast])
  exact ⟨hsized, hreading, o, steps, hpull, (hends hcount.2).1, hcount.1⟩

/-- An insertion of the number 1, opened. -/
def insertOne : Operator :=
  insert 0 ⟨1⟩ Store.only Store.numbers
    (rows Store.numbers [Store.number 1] [Store.number 1] .ready) false .ready

/-- A table of numbers without pages, whose pages would be larger than memory can hold. -/
def vastPages : Engine := alone (Store.single Store.numbers 0x8000000000000005 1 [] 0)

/-- A table of so many pages that their count starts over, with the first page in the pool. -/
def countedOver : Engine :=
  alone (Store.sevenAndZeros.after (.acquire ⟨2⟩ ⟨Store.only, 0⟩))

/-- An insertion comes to neither where memory cannot hold a page, and where the page that is added
has the number of a full one in the pool. -/
theorem insertion_without_count_or_cause :
    (0 < slotCount 0x8000000000000005 Store.numbers.size ∧
      ∀ n, 3 ≤ n → (insertOne.pull n vastPages).1 = .error .badPageSize) ∧
    0 < slotCount 5 Store.numbers.size ∧
      ∀ n, (insertOne.pull n countedOver).1 = .error .unfinished := by
  refine ⟨⟨by decide +kernel, fun n hn => ?_⟩, by decide, fun n => ?_⟩
  · have hsize : (insertOne.pull 3 vastPages).1 = .error .badPageSize := by decide +kernel
    rw [pull_of_le hn _ _ (by simp [Finished, hsize])]
    exact hsize
  · have htaken : (takeInsert 0 ⟨1⟩ Store.only Store.numbers 0 (Store.number 1) countedOver).1 =
        .error .unfinished := by decide +kernel
    obtain _ | _ | n := n
    · rfl
    · rfl
    · -- the first row of the child is taken, and that does not end
      have hfetch : (rows Store.numbers [Store.number 1] [Store.number 1] .ready).fetch (n + 1)
          countedOver = (.ok (some (Store.number 1)),
            rows Store.numbers [Store.number 1] [] .ready, countedOver) := rfl
      unfold insertOne
      rw [pull, pullWith_eq_of_ready rfl, Operator.fetch, drainWith, pullWith_eq_of_ready rfl,
        hfetch, Outcome.andThen_ok]
      dsimp only
      generalize takeInsert 0 ⟨1⟩ Store.only Store.numbers 0 (Store.number 1) countedOver = o
        at htaken ⊢
      obtain ⟨result, e⟩ := o
      obtain rfl : result = .error .unfinished := htaken
      rfl

end Insertion

end Operator

end Rowstore
