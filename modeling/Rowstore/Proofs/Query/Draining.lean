import Mathlib
import Rowstore.Proofs.Query.Obeying
import Rowstore.Proofs.Run.Action

/-!
# Queries give their answers

A tree that was put together from queries is opened and drained: `Operator.drain_built`.

* The rows that come from a new tree are the first of those that it stands for, and all of them if
  they come to an end, `Operator.lists_course`. This follows the tree, from a `Feed.Lists` for each
  kind of operator; what a pull does was said by `Operator.obeys` already.
* If no call can fail, then they come to an end: `Operator.Total.ends`.
-/

namespace Rowstore

/-! ### Rows that are listed -/

namespace Feed

/-- The rows that come are the first of some rows, and all of them if they come to an end. -/
inductive Lists : Feed → List Tuple → Prop
  | ended : Lists ended []
  | failed (cause : DbError) (rows : List Tuple) : Lists (failed cause) rows
  | row (t : Tuple) {f : Feed} {rows : List Tuple} (h : Lists f rows) : Lists (row t f) (t :: rows)

variable {f after first : Feed} {rows ls rs ts : List Tuple} {p : JoinPredicate} {l : Tuple}

theorem Lists.prepend (h : f.Lists rows) (ts : List Tuple) : (prepend ts f).Lists (ts ++ rows) := by
  induction ts with
  | nil => exact h
  | cons t ts ih => exact .row t ih

theorem lists_ofList (ts : List Tuple) : (ofList ts).Lists ts := by
  have h := Lists.ended.prepend ts
  rwa [List.append_nil] at h

/-- Rows that come to an end are all that are listed. -/
theorem Lists.eq_ofList (h : f.Lists rows) (hends : f.Ends) : f = ofList rows := by
  induction h with
  | ended => rfl
  | failed => exact hends.elim
  | row t h ih => exact congrArg (Feed.row t) (ih hends)

theorem Lists.eq (h : (ofList ts).Lists rows) : ts = rows :=
  ofList_inj (h.eq_ofList (ends_ofList ts))

theorem Lists.filter {p : Predicate} (h : f.Lists rows) :
    (f.filter p).Lists (rows.filter fun row => p.accepts row) := by
  induction h with
  | ended => exact .ended
  | failed cause rows => exact .failed cause _
  | @row t f rows h ih =>
    unfold Feed.filter
    cases hholds : p.holds t with
    | error cause => exact .failed cause _
    | ok holds =>
      have haccepts := Predicate.accepts_of_holds hholds
      cases holds with
      | true =>
        rw [List.filter_cons_of_pos haccepts]
        exact .row t ih
      | false =>
        rw [List.filter_cons_of_neg (by simp [haccepts])]
        exact ih

/-- A left row is joined with the right rows that match it, and then the others come. -/
theorem Lists.pairs (h : f.Lists rs) (hafter : after.Lists rows) :
    (pairs p l after f).Lists (p.matchesOf l rs ++ rows) := by
  induction h with
  | ended => exact hafter
  | failed cause rs => exact .failed cause _
  | @row r f rs h ih =>
    unfold Feed.pairs
    cases hholds : p.holds l r with
    | error cause => exact .failed cause _
    | ok holds =>
      have haccepts := JoinPredicate.accepts_of_holds hholds
      cases holds with
      | true =>
        rw [JoinPredicate.matchesOf_cons_of_pos haccepts]
        exact .row _ ih
      | false =>
        rw [JoinPredicate.matchesOf_cons_of_neg haccepts]
        exact ih

theorem Lists.loop {again : Feed} (h : f.Lists ls) (hagain : again.Lists rs)
    (hfirst : first.Lists rs) : (loop p again first f).Lists (p.loopRows ls rs) := by
  induction h generalizing first with
  | ended => exact .ended
  | failed cause ls => exact .failed cause _
  | row l h ih =>
    rw [JoinPredicate.loopRows_cons]
    exact hfirst.pairs (ih hagain)

/-- What all rows are taken into is made of those that are listed. -/
theorem Lists.foldM {σ : Type} {take : σ → Tuple → Except DbError σ} {state result : σ}
    (h : f.Lists rows) (hfold : f.foldM take state = .ok result) :
    rows.foldlM take state = .ok result := by
  induction h generalizing state with
  | ended => exact hfold
  | failed => cases hfold
  | row t h ih =>
    obtain ⟨next, hnext, hrest⟩ := bind_eq_ok_iff.1 hfold
    rw [List.foldlM_cons]
    exact bind_eq_ok_iff.2 ⟨next, hnext, ih hrest⟩

theorem foldM_ofList {σ : Type} (take : σ → Tuple → Except DbError σ) (state : σ)
    (ts : List Tuple) : (ofList ts).foldM take state = ts.foldlM take state := by
  induction ts generalizing state with
  | nil => rfl
  | cons t ts ih =>
    rw [List.foldlM_cons]
    exact congrArg (take state t >>= ·) (funext ih)

/-- The right rows are looked up in the table of the left ones. -/
theorem Lists.probe {table : List (Value × Tuple)} (h : f.Lists rs)
    (htable : p.keyed ls = .ok table) : (f.probe p table).Lists (p.hashRows ls rs) := by
  induction h with
  | ended => exact .ended
  | failed cause rs => exact .failed cause _
  | @row r f rs h ih =>
    unfold Feed.probe
    cases hfield : r.field p.right with
    | error cause => exact .failed cause _
    | ok key =>
      rw [JoinPredicate.hashRows_cons, ← JoinPredicate.partnersOf_eq htable hfield]
      exact ih.prepend _

theorem Lists.hash (h : f.Lists ls) (hfirst : first.Lists rs) :
    (given (f.foldM (Operator.addKeyed p.left) []) fun table => first.probe p table).Lists
      (p.hashRows ls rs) := by
  cases htable : f.foldM (Operator.addKeyed p.left) [] with
  | error cause => exact .failed cause _
  | ok table =>
    have hkeyed := h.foldM htable
    rw [Operator.foldlM_addKeyed] at hkeyed
    cases hrest : p.keyed ls with
    | error cause =>
      rw [hrest] at hkeyed
      cases hkeyed
    | ok rest =>
      rw [hrest] at hkeyed
      cases hkeyed
      exact hfirst.probe hrest

theorem Lists.summed {input schema : Schema} {column : Nat} {group : Option Nat}
    {fn : AggregateFunction} (h : f.Lists rows) :
    (f.summed input column group fn schema).Lists
      (match Operator.summaryOf input column group fn rows with
        | .ok results => results.map fun row => row.relabel schema
        | .error _ => []) := by
  unfold Feed.summed
  cases hnew : Operator.newAggregator input column group fn with
  | error cause => exact .failed cause _
  | ok a =>
    rw [Operator.summaryOf_eq hnew]
    show (given (f.foldM Aggregator.merge a >>= Aggregator.rows) _).Lists _
    cases hfold : f.foldM Aggregator.merge a with
    | error cause => exact .failed cause _
    | ok a' =>
      rw [h.foldM hfold]
      show (given a'.rows _).Lists (match a'.rows with | .ok results => _ | .error _ => [])
      cases a'.rows with
      | error cause => exact .failed cause _
      | ok results => exact lists_ofList _

/-! ### Rows that come to an end -/

theorem ends_prepend (ts : List Tuple) (f : Feed) : (prepend ts f).Ends ↔ f.Ends := by
  induction ts with
  | nil => rfl
  | cons t ts ih => exact ih

theorem ends_filter {p : Predicate} (h : ∀ t ∈ ts, ∃ holds, p.holds t = .ok holds) :
    ((ofList ts).filter p).Ends := by
  induction ts with
  | nil => trivial
  | cons t ts ih =>
    obtain ⟨⟨holds, hholds⟩, hrest⟩ := List.forall_mem_cons.1 h
    rw [ofList_cons, Feed.filter, hholds]
    cases holds <;> exact ih hrest

theorem ends_pairs (h : ∀ r ∈ rs, ∃ holds, p.holds l r = .ok holds) (hafter : after.Ends) :
    (pairs p l after (ofList rs)).Ends := by
  induction rs with
  | nil => exact hafter
  | cons r rs ih =>
    obtain ⟨⟨holds, hholds⟩, hrest⟩ := List.forall_mem_cons.1 h
    rw [ofList_cons, Feed.pairs, hholds]
    cases holds <;> exact ih hrest

theorem ends_loop (h : ∀ l ∈ ls, ∀ r ∈ rs, ∃ holds, p.holds l r = .ok holds) :
    (loop p (ofList rs) (ofList rs) (ofList ls)).Ends := by
  induction ls with
  | nil => trivial
  | cons l ls ih =>
    obtain ⟨hl, hrest⟩ := List.forall_mem_cons.1 h
    exact ends_pairs hl (ih hrest)

theorem ends_probe {table : List (Value × Tuple)}
    (h : ∀ r ∈ rs, ∃ key, r.field p.right = .ok key) : ((ofList rs).probe p table).Ends := by
  induction rs with
  | nil => trivial
  | cons r rs ih =>
    obtain ⟨⟨key, hkey⟩, hrest⟩ := List.forall_mem_cons.1 h
    rw [ofList_cons, Feed.probe, hkey]
    exact (ends_prepend _ _).2 (ih hrest)

end Feed

namespace Operator

variable {e e' : Engine} {op op' : Operator} {s : Operator × Engine} {n : Nat}
  {found : List Tuple}

/-- What comes from a new tree are the rows that it stands for, as far as they come. -/
theorem lists_course (e : Engine) (op : Operator) : (op.course e).Lists (op.answer e) := by
  induction op with
  | rows schema all rest c => exact Feed.lists_ofList all
  | scan db table label schema place c => exact Feed.lists_ofList _
  | filter p child c ih => exact ih.filter
  | nestedLoop planned p left right schema current c ihl ihr => exact ihl.loop ihr ihr
  | hashJoin planned p left right schema table pending c ihl ihr => exact ihl.hash ihr
  | aggregate column group fn child schema results c ih => exact ih.summed
  | insert => exact .ended
  | delete => exact .ended

/-- If no call can fail, then all rows come. -/
theorem Total.ends (h : op.Total e) : (op.course e).Ends := by
  induction op with
  | rows schema all rest c => exact Feed.ends_ofList all
  | scan => exact h.elim
  | filter p child c ih =>
    rw [course, (lists_course e child).eq_ofList (ih h.1)]
    exact Feed.ends_filter h.2
  | nestedLoop planned p left right schema current c ihl ihr =>
    rw [course, (lists_course e left).eq_ofList (ihl h.1),
      (lists_course e right).eq_ofList (ihr h.2.1)]
    exact Feed.ends_loop h.2.2
  | hashJoin planned p left right schema table pending c ihl ihr =>
    obtain ⟨hl, hr, hkeysl, hkeysr⟩ := h
    obtain ⟨table, htable⟩ := JoinPredicate.keyed_eq_ok hkeysl
    rw [course, (lists_course e left).eq_ofList (ihl hl),
      (lists_course e right).eq_ofList (ihr hr), Feed.foldM_ofList, foldlM_addKeyed, htable]
    exact Feed.ends_probe hkeysr
  | aggregate column group fn child schema results c ih =>
    obtain ⟨hchild, rows, hrows⟩ := h
    rw [course, (lists_course e child).eq_ofList (ih hchild), Feed.summed]
    cases hnew : newAggregator child.schema column group fn with
    | error cause =>
      rw [summaryOf, hnew] at hrows
      cases hrows
    | ok a =>
      rw [summaryOf_eq hnew, ← Feed.foldM_ofList] at hrows
      show (Feed.given ((Feed.ofList (child.answer e)).foldM Aggregator.merge a >>=
        Aggregator.rows) _).Ends
      rw [hrows]
      exact Feed.ends_ofList _
  | insert => exact h.elim
  | delete => exact h.elim

theorem Total.inMemory (h : op.Total e) : op.InMemory := by
  induction op with
  | rows => trivial
  | scan => exact h.elim
  | filter p child c ih => exact ih h.1
  | nestedLoop planned p left right schema current c ihl ihr => exact ⟨ihl h.1, ihr h.2.1⟩
  | hashJoin planned p left right schema table pending c ihl ihr => exact ⟨ihl h.1, ihr h.2.1⟩
  | aggregate column group fn child schema results c ih => exact ih h.1
  | insert => exact h.elim
  | delete => exact h.elim

/-! ### Collecting -/

/-- What collecting all rows of an operator comes to. -/
def Collected (e : Engine) (op : Operator) : Pulled (List Tuple) → Prop
  | (.error _, _) => op.InMemory → ¬ (op.prospect e).now.Ends
  | (.ok found, _) => (op.prospect e).now = .ofList found

theorem ofList_of_foldM {f : Feed} {found result : List Tuple}
    (h : f.foldM (fun found row => .ok (row :: found)) found = .ok result) :
    ∃ ts, f = .ofList ts ∧ result = ts.reverse ++ found := by
  induction f generalizing found with
  | ended =>
    cases h
    exact ⟨[], rfl, rfl⟩
  | failed cause => cases h
  | row t rest ih =>
    obtain ⟨ts, rfl, rfl⟩ := ih h
    refine ⟨t :: ts, rfl, ?_⟩
    rw [List.reverse_cons, List.append_assoc]
    rfl

theorem exists_foldM_of_ends {f : Feed} (h : f.Ends) (found : List Tuple) :
    ∃ result, f.foldM (fun found row => .ok (row :: found)) found = .ok result := by
  induction f generalizing found with
  | ended => exact ⟨found, rfl⟩
  | failed cause => exact h.elim
  | row t rest ih => exact ih h (t :: found)

/-- All rows that come are collected in the end, unless a call fails. -/
theorem collected (hop : op.Readable e) (he : e.Reads e') :
    Settles (fun n => op.collect n e') (op.Collected e) := by
  have hdrain := (obeys True hop).drain (fun found row e => rfl)
    (fun (found : List Tuple) row => .ok (row :: found)) rfl he []
  refine hdrain.andThen ?_ ?_
  · rintro cause s ⟨-, -, hcause⟩ hmemory hends
    obtain ⟨result, hresult⟩ := exists_foldM_of_ends hends []
    cases (hcause hmemory).symm.trans hresult
  · rintro result ⟨op', e'⟩ ⟨-, -, hresult⟩
    obtain ⟨ts, hnow, rfl⟩ := ofList_of_foldM hresult
    refine .ok ?_
    rw [List.append_nil, List.reverse_reverse]
    exact hnow

/-- Rows that are collected were to come, and after them the end. -/
theorem now_of_collect (hop : op.Readable e) (he : e.Reads e')
    (h : op.collect n e' = (.ok found, s)) : (op.prospect e).now = .ofList found := by
  have hcollected := (collected hop he).of_finished (fun _ _ hle => collect_of_le hle op e')
    (n := n) (by rw [h]; exact nofun)
  rwa [h] at hcollected

/-! ### Opening and draining -/

/-- A tree only reads, from tables that are there and current, and is new. -/
structure Idle (e : Engine) (op : Operator) : Prop where
  readable : op.Readable e
  fresh_eq : op.fresh = op

/-- A tree that was put together from queries can be opened. -/
theorem Built.idle (h : op.Built e)
    (hcurrent : ∀ db table, op.Scans db table → (e.store db).Current table) : op.Idle e :=
  ⟨h.readable hcurrent, h.fresh_eq⟩

/-- A new tree that is opened has all its rows to come, and stays steady. -/
theorem Idle.opened (h : op.Idle e) (hstart : op.start e = (.ok (), s)) :
    e.Reads s.2 ∧ s.1.fresh = op.fresh ∧ (s.1.prospect e).now = op.course e ∧
      s.1.Steady True e := by
  have hstarted := started h.readable (.refl e)
  rw [hstart] at hstarted
  obtain ⟨he, hfresh, hprospect, hsteady⟩ := hstarted
  rw [← h.fresh_eq] at hsteady
  refine ⟨he, hfresh, ?_, hsteady h.readable.rested_fresh⟩
  rw [hprospect, ← h.fresh_eq, opened_fresh, course_fresh]

/-- Opened and drained without a failure, an operator gives some rows. -/
def Gives (e : Engine) (op : Operator) (found : List Tuple) : Prop :=
  ∃ op' e' n s, op.start e = (.ok (), op', e') ∧ op'.collect n e' = (.ok found, s)

/-- The rows that a new tree gives are those it stands for. -/
theorem Gives.eq_answer (hop : op.Idle e) (h : op.Gives e found) : found = op.answer e := by
  obtain ⟨op', e', n, s, hstart, hcollect⟩ := h
  obtain ⟨he, hfresh, hnow, -⟩ := hop.opened hstart
  have hfound := now_of_collect ((readable_congr hfresh).2 hop.readable) he hcollect
  exact ((hnow.symm.trans hfound) ▸ lists_course e op : (Feed.ofList found).Lists _).eq

/-- If no call can fail, then all rows are collected from a tree at its start. -/
theorem Total.collect (h : op.Total e) (hfresh : s.1.fresh = op.fresh)
    (hnow : (s.1.prospect e).now = op.course e) (hop : s.1.Readable e) (he : e.Reads s.2) :
    ∃ n t, s.1.collect n s.2 = (.ok (op.answer e), t) := by
  rw [(lists_course e op).eq_ofList h.ends] at hnow
  obtain ⟨⟨cause | found, t⟩, -, hfound, n, hn⟩ := collected hop he
  · exact absurd (hnow ▸ Feed.ends_ofList _) (hfound ((inMemory_congr hfresh).2 h.inMemory))
  · obtain rfl : found = op.answer e := Feed.ofList_inj (hfound.symm.trans hnow)
    exact ⟨n, t, hn n le_rfl⟩

/-- A new tree of which no call can fail gives the rows it stands for. -/
theorem Idle.gives (hop : op.Idle e) (htotal : op.Total e) : op.Gives e (op.answer e) := by
  have hstarted := started hop.readable (.refl e)
  generalize hstart : op.start e = o at hstarted
  obtain ⟨cause | u, op', e'⟩ := o
  · exact absurd htotal.inMemory hstarted
  · obtain ⟨he, hfresh, hnow, -⟩ := hop.opened hstart
    have hreadable := (readable_congr hfresh).2 hop.readable
    obtain ⟨n, s, hcollect⟩ := htotal.collect hfresh hnow hreadable he
    exact ⟨op', e', n, s, hstart, hcollect⟩

/-- What a tree of queries comes to that is opened and drained. -/
structure Answers (e : Engine) (op : Operator) : Prop where
  /-- Draining ends. -/
  ends : ∀ op' e', op.start e = (.ok (), op', e') →
    ∃ n o, Finished o ∧ ∀ m, n ≤ m → op'.collect m e' = o
  /-- The rows are those that the tree stands for, over the pages that are counted. -/
  counted : ∀ found, op.Gives e found → found = op.answer e
  /-- These are all whole pages, unless a file has as many as there are page numbers. -/
  whole : (∀ db table f, op.Scans db table → (e.store db).catalog.file table = .ok f →
    f.Countable e.disk) → ∀ found, op.Gives e found → found = op.fullAnswer e
  /-- If no call can fail, then the rows are given. -/
  total : op.Total e → op.Gives e (op.answer e)

/-- **Queries give their answers**, over tables that are only read: those whose clean pages in
memory are as the disk has them, as in every sound store. -/
theorem drain_built (h : op.Built e)
    (hcurrent : ∀ db table, op.Scans db table → (e.store db).Current table) : op.Answers e where
  ends := by
    intro op' e' hstart
    obtain ⟨he, hfresh, -⟩ := (h.idle hcurrent).opened hstart
    obtain ⟨o, ho, -, n, hn⟩ := collected ((readable_congr hfresh).2 (h.readable hcurrent)) he
    exact ⟨n, o, ho, hn⟩
  counted := fun found hgives => hgives.eq_answer (h.idle hcurrent)
  whole := fun hcount found hgives =>
    (hgives.eq_answer (h.idle hcurrent)).trans (answer_eq_fullAnswer hcount)
  total := (h.idle hcurrent).gives

/-- A database alone on its disk. -/
def alone (s : Store) : Engine := { disk := s.disk, databases := [s.toDatabase] }

/-- A database with a table of the numbers 7, 8 and 7, each on a page of its own. -/
def someNumbers : Engine :=
  alone (Store.single Store.numbers 5 3 [1, 7, 0, 0, 0, 1, 8, 0, 0, 0, 1, 7, 0, 0, 0] 0)

/-- A scan of a table of numbers with one slot a page. -/
def scanNumbers : Operator :=
  scan 0 Store.only "n" (Store.numbers.qualified "n")
    (HeapFile.scan ⟨Store.only, "rows", Store.numbers, 5⟩ ⟨1⟩) {}

/-- How often each of the numbers is there. -/
def countNumbers : Operator :=
  aggregate 0 (some 0) .count (filtered ⟨0, .greater, .int 0⟩ scanNumbers)
    (.pair ⟨.int, none⟩ ⟨.int, some "count(null)"⟩) none {}

/-- The numbers that are in memory too, each with the counts of the numbers that are not larger: a
loop over a join and an aggregate. -/
def loopOverCounts : Operator :=
  looped ⟨0, .greaterEq, 0⟩
    (hashed ⟨0, .equal, 0⟩ scanNumbers
      (ofRows Store.numbers [Store.number 8, Store.number 2, Store.number 7]))
    countNumbers

theorem loopOverCounts_built : loopOverCounts.Built someNumbers := by
  have hscan : scanNumbers.Built someNumbers :=
    .scan (show ofTable someNumbers 0 ⟨1⟩ Store.only "n" = .ok scanNumbers from rfl)
  exact .loop _ (.hash _ hscan (.rows _ _)) (.aggregate (.filter _ hscan)
    (show aggregated _ 0 (some 0) .count = .ok countNumbers from rfl))

theorem loopOverCounts_current : ∀ db table, loopOverCounts.Scans db table →
    (someNumbers.store db).Current table := by
  intro db table hscans
  obtain rfl : 0 = db := by
    rcases hscans with (hscans | hscans) | hscans
    · exact hscans.1
    · exact hscans.elim
    · exact hscans.1
  exact Store.current_of_no_pages rfl

theorem loopOverCounts_opened : (loopOverCounts.start someNumbers).1 = .ok () := by
  decide +kernel

/-- The table of numbers is the only one that is read, and its pages are counted. -/
theorem loopOverCounts_countable : ∀ db table f, loopOverCounts.Scans db table →
    (someNumbers.store db).catalog.file table = .ok f → f.Countable someNumbers.disk := by
  intro db table f hscans hf
  obtain ⟨rfl, rfl⟩ : 0 = db ∧ Store.only = table := by
    rcases hscans with (hscans | hscans) | hscans
    · exact hscans
    · exact hscans.elim
    · exact hscans
  cases hf
  decide +kernel

theorem drain_loopOverCounts :
    let opened := loopOverCounts.start someNumbers
    let drained := opened.2.1.collect 20 opened.2.2
    loopOverCounts.Built someNumbers ∧
      (∀ db table, loopOverCounts.Scans db table → (someNumbers.store db).Current table) ∧
      opened.1 = .ok () ∧ drained.1 = .ok (loopOverCounts.fullAnswer someNumbers) ∧
      (loopOverCounts.fullAnswer someNumbers).map Tuple.values =
        [[8, 8, 7, 2], [8, 8, 8, 1], [7, 7, 7, 2], [7, 7, 7, 2]].map fun ns : List Int32 =>
          ns.map fun n => some (.int n) := by
  intro opened drained
  have hopened : opened.1 = .ok () := loopOverCounts_opened
  have hstart : loopOverCounts.start someNumbers = (.ok (), opened.2.1, opened.2.2) :=
    Prod.ext hopened rfl
  refine ⟨loopOverCounts_built, loopOverCounts_current, hopened, ?_, by decide +kernel⟩
  cases hdrained : drained.1 with
  | error cause =>
    have hok : drained.1.toOption.isSome := by decide +kernel
    rw [hdrained] at hok
    cases hok
  | ok found =>
    have hcollect : opened.2.1.collect 20 opened.2.2 = (.ok found, drained.2) :=
      Prod.ext hdrained rfl
    exact congrArg _ ((drain_built loopOverCounts_built loopOverCounts_current).whole
      loopOverCounts_countable found ⟨_, _, 20, _, hstart, hcollect⟩)

/-- Where the page numbers are used up no page is counted, and the 7 on the first page is left
out. -/
theorem row_left_out_of_scan :
    let e := alone Store.sevenAndZeros
    let seven := Row.under (Store.numbers.qualified "n")
      ((Store.number 7).rowAt ⟨⟨Store.only, 0⟩, 0⟩)
    scanNumbers.Built e ∧ (∀ db table, scanNumbers.Scans db table → (e.store db).Current table) ∧
      scanNumbers.Gives e [] ∧ seven ∈ scanNumbers.fullAnswer e := by
  intro e seven
  have hfile : (e.store 0).catalog.file Store.only =
      .ok ⟨Store.only, "rows", Store.numbers, 5⟩ := rfl
  refine ⟨.scan (show ofTable e 0 ⟨1⟩ Store.only "n" = .ok scanNumbers from rfl), ?_, ?_, ?_⟩
  · rintro db table ⟨rfl, rfl⟩
    exact Store.current_of_no_pages rfl
  · refine ⟨_, _, 9, _, Prod.ext ?_ rfl, Prod.ext ?_ rfl⟩
    · decide +kernel
    · decide +kernel
  · refine List.mem_map.2 ⟨_, List.mem_flatMap.2 ⟨0, ?_, ?_⟩, rfl⟩
    · rw [Store.wholePages_eq hfile, List.mem_range'_1]
      decide +kernel
    · decide +kernel

end Operator

end Rowstore
