import Mathlib
import Rowstore.Proofs.Run.Scanning
import Rowstore.Proofs.Store.Failing

/-!
# Scans that are asked again after a failure

A page that a scan comes to may be out of reach: the pool is full, say, and has room again later.
The call fails, and the scan can be asked again. By then it counts the page as come to, so that it
goes on behind it: the page is missed, and its rows are not given.

* `Scan.Asked` are the histories of a scan of which any call may fail, with the pages it missed.
* The rows that were given, and those that are ready, are the rows of the pages up to the present
  one that were not missed: `Scan.Passed` is kept by every call, whatever comes of it.
* `Scan.rows_of_asked`: while the table stays as it is, a scan that comes to its end has given the
  rows of the pages that it did not miss, each once. They are all rows of the pages counted exactly
  if the pages that were missed have none.
-/

namespace Rowstore

open Store (only numbers number)

namespace Scan

/-! ### Calls that fail -/

/-- The page that a call missed: the one that the scan is on, if the call failed at it. -/
def unread {α : Type} (answer : Except DbError α) (scan : Scan) : List Nat :=
  match answer with
  | .ok _ | .error .noSuchElement => []
  | .error _ => [scan.page]

/-- A scan from where it was opened, of which any call may fail: the moments after each step, the
rows that it gave, the pages that it missed and the last moment. -/
inductive Asked (first : Moment) : List Moment → List Tuple → List Nat → Moment → Prop
  | opened : Asked first [first] [] [] first
  | event {seen given missed now} (h : Asked first seen given missed now) (e : Event) :
      Asked first (seen ++ [(now.1, now.2.meet e)]) given missed (now.1, now.2.meet e)
  | look {seen given missed now answer next} (h : Asked first seen given missed now)
      (hlook : now.1.hasNext now.2 = (answer, next)) :
      Asked first (seen ++ [next]) given (missed ++ unread answer next.1) next
  | take {seen given missed now answer next} (h : Asked first seen given missed now)
      (htake : now.1.next now.2 = (answer, next)) :
      Asked first (seen ++ [next]) (given ++ answer.toOption.toList)
        (missed ++ unread answer next.1) next

variable {scan scan' : Scan} {s t : Store} {first now next : Moment} {seen : List Moment}
  {given : List Tuple} {missed : List Nat} {capacity : Nat}

/-- A page that cannot be read changes nothing. -/
theorem store_of_failed_load {n : Nat} {cause : DbError}
    (h : scan.load s n = (.error cause, t)) : t = s := by
  unfold load at h
  cases hacquire : s.acquire scan.tx ⟨scan.file.table, n⟩ with
  | error cause' =>
    rw [hacquire] at h
    cases h
    rfl
  | ok given =>
    rw [hacquire] at h
    cases h

/-- A scan that fails to go on has passed over pages without rows, and is on a page it could not
read. -/
theorem visits_of_failed_seek (hs : s.pool.Distinct) (hrest : scan.rest = some []) {n : Nat}
    {cause : DbError} (h : scan.seek s n = (.error cause, scan', t)) :
    ∃ pages, scan.Visits t pages ∧ pages.length < n ∧ (∀ page ∈ pages, page.rows = []) ∧
      scan' = { scan with page := scan.page + pages.length + 1 } ∧ s.Retains scan.tx t := by
  induction n generalizing scan s with
  | zero => cases h
  | succ n ih =>
    unfold seek at h
    simp only at h
    generalize hload : load { scan with page := scan.page + 1 } s (scan.page + 1) = o at h
    obtain ⟨cause' | rows, u⟩ := o
    · cases h
      obtain rfl := store_of_failed_load hload
      exact ⟨[], visits_nil _ _, Nat.succ_pos n, List.forall_mem_nil _, rfl, .refl _⟩
    · obtain ⟨page, rfl, hacquire⟩ := acquire_of_load hload
      obtain ⟨hdistinct, hpage, hheld, hretains⟩ := Store.acquire_retains hs hacquire
      have hid : page.id = ⟨scan.file.table, scan.page + 1⟩ := (Pool.mem_of_page? hpage).2
      rw [Outcome.andThen_ok] at h
      -- the scan does not stop on a page with rows
      split_ifs at h with hempty
      · have hnone : page.rows = [] := List.isEmpty_iff.1 hempty
        obtain ⟨pages, hvisits, hlength, hempties, rfl, hretains'⟩ := ih hdistinct
          (by rw [hnone]) h
        have hcached := (hretains' _ page hheld hpage).2
        refine ⟨page :: pages, hvisits.cons rfl rfl hid (hid ▸ hcached),
          by rw [List.length_cons]; omega, List.forall_mem_cons.2 ⟨hnone, hempties⟩, ?_,
          hretains.trans hretains'⟩
        · simp only [List.length_cons, Scan.mk.injEq, true_and, hnone, hrest, and_true]
          omega
      · cases h

/-! ### The rows of the pages that were not missed -/

/-- The rows that a scan gave, and those it has ready, are the rows of the pages up to the one it
is on, but for those that it missed. -/
structure Passed (rows : Nat → List Row) (table : TableId) (count : Nat) (given : List Tuple)
    (missed : List Nat) (scan : Scan) : Prop where
  table_eq : scan.file.table = table
  count_eq : scan.pageCount = count
  page_lt : 0 < count → scan.page < count
  rows_eq : ∃ rest, scan.rest = some rest ∧ (given ++ rest).map Tuple.row =
    ((List.range (min count (scan.page + 1))).filter (· ∉ missed)).flatMap rows
  missed_le : ∀ n ∈ missed, 0 < n ∧ n ≤ scan.page ∧ n < count
  increasing : missed.Pairwise (· < ·)

/-- The rows of pages that are in memory are those that the store shows. -/
theorem rows_of_cached {pages : List Page} {table : TableId} {a : Nat}
    (hid : ∀ (i : Nat) (page : Page), pages[i]? = some page → page.id = ⟨table, a + i⟩)
    (hcached : ∀ page ∈ pages, t.pool.page? page.id = some page) :
    (pages.flatMap Page.rows).map Tuple.row = t.rowsFrom table a pages.length := by
  rw [Store.rowsFrom, List.map_flatMap, List.flatMap_def, List.flatMap_def]
  congr 1
  refine List.ext_getElem (by simp) fun i hi hi' => ?_
  have hlt : i < pages.length := by simpa using hi
  have hpage : pages[i]? = some pages[i] := List.getElem?_eq_getElem hlt
  rw [List.getElem_map, List.getElem_map, List.getElem_range', Nat.one_mul, ← hid i _ hpage,
    Store.pageRows, Store.shown, hcached _ (List.mem_of_getElem? hpage)]
  simp [Page.rows, Page.cells, List.reduceOption, List.map_filterMap, List.filterMap_map]

/-- Pages are missed, behind others that are read. -/
theorem filter_range_missed {k m : Nat} {a : Nat} (h : ∀ n ∈ missed, n < a) :
    (List.range (a + k + m)).filter (· ∉ missed ++ List.range' (a + k) m) =
      (List.range a).filter (· ∉ missed) ++ List.range' a k := by
  have hsplit : List.range (a + k + m) =
      List.range a ++ List.range' a k ++ List.range' (a + k) m := by
    have hfirst := List.range'_append_1 (s := 0) (m := a) (n := k + m)
    rw [Nat.zero_add] at hfirst
    rw [List.range_eq_range', List.range_eq_range', List.append_assoc, List.range'_append_1,
      hfirst, Nat.add_assoc]
  rw [hsplit, List.filter_append, List.filter_append]
  have hread : (List.range' a k).filter (· ∉ missed ++ List.range' (a + k) m) =
      List.range' a k := by
    refine List.filter_eq_self.2 fun n hn => ?_
    have hrange := List.mem_range'_1.1 hn
    have hnot : n ∉ missed := fun hmem => absurd (h n hmem) (by omega)
    simp only [List.mem_append, List.mem_range'_1, decide_eq_true_eq, not_or]
    exact ⟨hnot, by omega⟩
  have hlost : (List.range' (a + k) m).filter (· ∉ missed ++ List.range' (a + k) m) = [] := by
    refine List.filter_eq_nil_iff.2 fun n hn => ?_
    simp [hn]
  have hbefore : (List.range a).filter (· ∉ missed ++ List.range' (a + k) m) =
      (List.range a).filter (· ∉ missed) := by
    refine List.filter_congr fun n hn => ?_
    have hlt := List.mem_range.1 hn
    have hnot : n ∉ List.range' (a + k) m := fun hmem => by
      have := List.mem_range'_1.1 hmem
      omega
    simp [hnot]
  rw [hread, hlost, hbefore, List.append_nil]

section Passed

variable {rows : Nat → List Row} {table : TableId} {count : Nat} {pages : List Page}

/-- The scan comes to some of the next pages, and misses more behind them. -/
theorem Passed.advance (h : Passed rows table count given missed scan) {rest : List Tuple}
    (hrest : scan.rest = some rest) (hvisits : scan.Visits t pages)
    (hsame : ∀ n < count, t.pageRows ⟨table, n⟩ = rows n) (lost : Nat)
    (hlength : pages.length + lost ≤ scan.pageCount - (scan.page + 1)) {given' rest' : List Tuple}
    (hrows : given' ++ rest' = given ++ rest ++ pages.flatMap Page.rows)
    (hscan : scan' = { scan with page := scan.page + pages.length + lost, rest := some rest' }) :
    Passed rows table count given' (missed ++ List.range' (scan.page + 1 + pages.length) lost)
      scan' := by
  subst hscan
  rw [h.count_eq] at hlength
  have hpage := h.page_lt
  constructor
  · exact h.table_eq
  · exact h.count_eq
  · intro hcount
    have := hpage hcount
    simp only
    omega
  · obtain ⟨rest₀, hrest₀, hall⟩ := h.rows_eq
    cases hrest.symm.trans hrest₀
    refine ⟨rest', rfl, ?_⟩
    have hnew : (pages.flatMap Page.rows).map Tuple.row =
        (List.range' (scan.page + 1) pages.length).flatMap rows := by
      rw [rows_of_cached hvisits.id_eq hvisits.cached, h.table_eq]
      refine List.flatMap_congr fun n hn => hsame n ?_
      have := List.mem_range'_1.1 hn
      omega
    rw [hrows, List.map_append, hall, hnew]
    rcases Nat.eq_zero_or_pos count with rfl | hcount
    · obtain ⟨hpages, rfl⟩ : pages.length = 0 ∧ lost = 0 := by omega
      simp [hpages]
    · have hlt := hpage hcount
      have hmin : min count (scan.page + pages.length + lost + 1) =
          scan.page + 1 + pages.length + lost := by omega
      rw [hmin, Nat.min_eq_right hlt, filter_range_missed fun n hn =>
        Nat.lt_succ_of_le (h.missed_le n hn).2.1, List.flatMap_append]
  · intro n hn
    rcases List.mem_append.1 hn with hn | hn
    · obtain ⟨hpos, hle, hlt⟩ := h.missed_le n hn
      exact ⟨hpos, by simp only; omega, hlt⟩
    · have := List.mem_range'_1.1 hn
      simp only
      omega
  · refine List.pairwise_append.2 ⟨h.increasing, List.pairwise_lt_range', ?_⟩
    intro n hn n' hn'
    have hle := (h.missed_le n hn).2.1
    have := List.mem_range'_1.1 hn'
    omega

/-- The first of the rows that are ready is given. -/
theorem Passed.give (h : Passed rows table count given missed scan) {row : Tuple}
    {rest : List Tuple} (hrest : scan.rest = some (row :: rest)) :
    Passed rows table count (given ++ [row]) missed { scan with rest := some rest } where
  table_eq := h.table_eq
  count_eq := h.count_eq
  page_lt := h.page_lt
  rows_eq := by
    obtain ⟨rest₀, hrest₀, hall⟩ := h.rows_eq
    cases hrest.symm.trans hrest₀
    exact ⟨rest, rfl, by rw [List.append_assoc]; exact hall⟩
  missed_le := h.missed_le
  increasing := h.increasing

/-- The page is missed at which a call failed. -/
theorem unread_error {α : Type} {cause : DbError} (h : cause.isPaging) (scan : Scan) :
    unread (.error cause : Except DbError α) scan = [scan.page] := by
  cases cause <;> first | rfl | cases h

/-- The scan looks for another row, and fails or does not. It has come to its end if there is
none. -/
theorem Passed.look (h : Passed rows table count given missed scan) (hs : s.pool.Distinct)
    {answer : Except DbError Bool} (hlook : scan.hasNext s = (answer, scan', t))
    (hsame : ∀ n < count, t.pageRows ⟨table, n⟩ = rows n) :
    Passed rows table count given (missed ++ unread answer scan') scan' ∧
      (answer = .ok false → scan'.rest = some [] ∧ count ≤ scan'.page + 1) := by
  obtain ⟨rest, hrest, -⟩ := h.rows_eq
  cases answer with
  | ok more =>
    obtain ⟨pages, hvisits, hlength, hscan, hend⟩ := visits_of_hasNext hs hrest hlook
    refine ⟨h.advance hrest hvisits hsame 0 hlength (by rw [List.append_assoc]) hscan,
      ?_⟩
    intro hmore
    obtain ⟨hall, hnone⟩ := hend (Except.ok.inj hmore)
    rw [h.count_eq] at hall
    exact ⟨hnone, by rw [hscan]; simp only; omega⟩
  | error cause =>
    have hcause : cause.isPaging := hasNext_fails scan s cause (by rw [hlook])
    refine ⟨?_, nofun⟩
    cases rest with
    | cons row rest =>
      rw [hasNext_of_rest hrest] at hlook
      cases hlook
    | nil =>
      unfold hasNext at hlook
      rw [hrest] at hlook
      obtain ⟨pages, hvisits, hlength, hempties, hscan, -⟩ :=
        visits_of_failed_seek hs hrest hlook
      have hnone : pages.flatMap Page.rows = [] := List.flatMap_eq_nil_iff.2 hempties
      have hmoved : scan' =
          { scan with page := scan.page + pages.length + 1, rest := some [] } := by
        rw [hscan, hrest]
      have hpage : scan'.page = scan.page + 1 + pages.length := by
        rw [hmoved]
        simp only
        omega
      rw [unread_error hcause, hpage]
      exact h.advance hrest hvisits hsame 1 hlength (by simp [hnone]) hmoved

/-- The scan is asked for the next row, and fails or does not. -/
theorem Passed.take (h : Passed rows table count given missed scan) (hs : s.pool.Distinct)
    {answer : Except DbError Tuple} (htake : scan.next s = (answer, scan', t))
    (hsame : ∀ n < count, t.pageRows ⟨table, n⟩ = rows n) :
    Passed rows table count (given ++ answer.toOption.toList) (missed ++ unread answer scan')
      scan' := by
  generalize hlook : scan.hasNext s = o at *
  obtain ⟨found, mid, u⟩ := o
  rw [next, hlook] at htake
  cases found with
  | error cause =>
    cases htake
    have hcause : cause.isPaging := hasNext_fails scan s cause (by rw [hlook])
    have hpassed := (h.look hs hlook hsame).1
    rw [unread_error hcause] at hpassed ⊢
    simpa [Except.toOption] using hpassed
  | ok more =>
    rw [Outcome.andThen_ok] at htake
    simp only at htake
    split at htake
    · rename_i row rest hready
      cases htake
      have hpassed := (h.look hs hlook hsame).1.give hready
      simpa [unread, Except.toOption] using hpassed
    · cases htake
      have hpassed := (h.look hs hlook hsame).1
      simpa [unread, Except.toOption] using hpassed

/-- A scan that was opened has come to its first page, and missed none. -/
theorem passed_of_opens (hs : s.Visited capacity) (hopens : scan.Opens s first) :
    first.2.Visited capacity ∧
      Passed (fun n => first.2.pageRows ⟨scan.file.table, n⟩) scan.file.table (scan.taken s) [] []
        first.1 := by
  obtain ⟨-, hvisited, pages, hprogress⟩ := progress_of_opens hs hopens
  refine ⟨hvisited, hprogress.table_eq, hprogress.count_eq, ?_, ?_, nofun, .nil⟩
  · intro hcount
    have hle := hprogress.length_le
    rw [hprogress.length_eq, if_neg hcount.ne'] at hle
    exact hle
  · obtain ⟨rest, hrest, hrows⟩ := hprogress.rows_eq
    refine ⟨rest, hrest, ?_⟩
    have hcached : ∀ page ∈ pages, first.2.pool.page? page.id = some page := by
      intro page hpage
      obtain ⟨i, hi⟩ := List.mem_iff_getElem?.1 hpage
      obtain ⟨-, -, before, scan', s', after, hseen, -, -, hcached⟩ := hprogress.came i page hi
      have hmem : (scan', s') ∈ [first] := hseen ▸ by simp
      rw [← List.mem_singleton.1 hmem]
      exact hcached
    have hshown := rows_of_cached (a := 0)
      (fun i page hpage => by rw [Nat.zero_add]; exact (hprogress.came i page hpage).1) hcached
    have hlength : pages.length = min (scan.taken s) (first.1.page + 1) := by
      have hle := hprogress.length_le
      rw [hprogress.length_eq] at hle ⊢
      split_ifs at hle ⊢ <;> omega
    rw [hrows, hshown, hlength, Store.rowsFrom, List.range_eq_range']
    simp

/-- Whatever comes of its calls, a scan goes on from page to page of a table that stays as it
is. -/
theorem Asked.passed (h : Asked first seen given missed now) (hs : first.2.Visited capacity)
    (hfirst : Passed rows table count [] [] first.1)
    (hsame : ∀ m ∈ seen, ∀ n < count, m.2.pageRows ⟨table, n⟩ = rows n) :
    now.2.Visited capacity ∧ Passed rows table count given missed now.1 := by
  induction h with
  | opened => exact ⟨hs, hfirst⟩
  | event _ e ih =>
    obtain ⟨hvisited, hpassed⟩ := ih fun m hm => hsame m (List.mem_append_left _ hm)
    exact ⟨hvisited.meet e, hpassed⟩
  | @look _ _ _ now answer next _ hlook ih =>
    obtain ⟨hvisited, hpassed⟩ := ih fun m hm => hsame m (List.mem_append_left _ hm)
    have hmeet : next.2 = now.2.meet (.action (.scan now.1 .hasNext)) := by
      show next.2 = (now.1.hasNext now.2).2.2
      rw [hlook]
    refine ⟨hmeet ▸ hvisited.meet _, ?_⟩
    exact (hpassed.look hvisited.distinct hlook (hsame next (by simp))).1
  | @take _ _ _ now answer next _ htake ih =>
    obtain ⟨hvisited, hpassed⟩ := ih fun m hm => hsame m (List.mem_append_left _ hm)
    have hmeet : next.2 = now.2.meet (.action (.scan now.1 .next)) := by
      show next.2 = (now.1.next now.2).2.2
      rw [htake]
    refine ⟨hmeet ▸ hvisited.meet _, ?_⟩
    exact hpassed.take hvisited.distinct htake (hsame next (by simp))

end Passed

/-- Leaving some places out leaves all elements exactly if these have none. -/
theorem flatMap_filter_eq_iff {α β : Type} {f : α → List β} {p : α → Bool} {l : List α} :
    (l.filter p).flatMap f = l.flatMap f ↔ ∀ a ∈ l, p a = false → f a = [] := by
  induction l with
  | nil => simp
  | cons a l ih =>
    cases hp : p a with
    | true => simp [hp, ih]
    | false =>
      have hle : ((l.filter p).flatMap f).length ≤ (l.flatMap f).length :=
        (List.filter_sublist.flatMap f).length_le
      simp only [List.filter_cons, hp, Bool.false_eq_true, ↓reduceIte, List.flatMap_cons,
        List.mem_cons, forall_eq_or_imp, forall_const]
      constructor
      · intro heq
        have hlength := congrArg List.length heq
        rw [List.length_append] at hlength
        have hnone : f a = [] := List.length_eq_zero_iff.1 (by omega)
        rw [hnone, List.nil_append] at heq
        exact ⟨hnone, ih.1 heq⟩
      · rintro ⟨hnone, hrest⟩
        rw [hnone, List.nil_append]
        exact ih.2 hrest

/-- **A scan that may fail** has given, at its end, the rows of the counted pages that it did not
miss. -/
theorem rows_of_asked (hs : s.Visited capacity) (hopens : scan.Opens s first)
    (h : Asked first seen given missed now) (hended : now.1.hasNext now.2 = (.ok false, next))
    (hsame : ∀ m ∈ seen ++ [next], ∀ n < scan.taken s,
      m.2.shown ⟨scan.file.table, n⟩ = first.2.shown ⟨scan.file.table, n⟩) :
    given.map Tuple.row = ((List.range (scan.taken s)).filter (· ∉ missed)).flatMap
        (fun n => first.2.pageRows ⟨scan.file.table, n⟩) ∧
      missed.Pairwise (· < ·) ∧ (∀ n ∈ missed, 0 < n ∧ n < scan.taken s) ∧
      (given.map Tuple.row = first.2.rowsFrom scan.file.table 0 (scan.taken s) ↔
        ∀ n ∈ missed, first.2.pageRows ⟨scan.file.table, n⟩ = []) := by
  obtain ⟨hvisited, hfirst⟩ := passed_of_opens hs hopens
  have hrows : ∀ m ∈ seen ++ [next], ∀ n < scan.taken s,
      m.2.pageRows ⟨scan.file.table, n⟩ = first.2.pageRows ⟨scan.file.table, n⟩ :=
    fun m hm n hn => by rw [Store.pageRows, hsame m hm n hn, Store.pageRows]
  obtain ⟨hnow, hpassed⟩ :=
    h.passed hvisited hfirst fun m hm => hrows m (List.mem_append_left _ hm)
  obtain ⟨hend, hall⟩ := hpassed.look hnow.distinct hended (hrows next (by simp))
  obtain ⟨hrest, hlast⟩ := hall rfl
  obtain ⟨rest, hrest', hgiven⟩ := hend.rows_eq
  cases hrest.symm.trans hrest'
  rw [List.append_nil, Nat.min_eq_left hlast, unread, List.append_nil] at hgiven
  refine ⟨hgiven, hpassed.increasing, fun n hn => ?_, ?_⟩
  · obtain ⟨hpos, -, hlt⟩ := hpassed.missed_le n hn
    exact ⟨hpos, hlt⟩
  · rw [hgiven, Store.rowsFrom, ← List.range_eq_range', flatMap_filter_eq_iff]
    constructor
    · intro hnone n hn
      exact hnone n (List.mem_range.2 (hpassed.missed_le n hn).2.2) (by simpa using hn)
    · intro hnone n _ hn
      exact hnone n (by simpa using hn)

end Scan

namespace Store

/-- A database with a 7 and an 8 on the two pages of a table, and another table with a page of its
own. There is room for two pages in memory. -/
def sevenThenEight : Store where
  catalog :=
    { config := ⟨5, 2⟩
      tables := [⟨"rows", ⟨only, "rows", numbers, 5⟩⟩, ⟨"others", ⟨⟨2⟩, "others", numbers, 5⟩⟩]
      nextId := 3 }
  pool := { capacity := 2 }
  disk := ⟨[("rows", ⟨[.written [1, 7, 0, 0, 0, 1, 8, 0, 0, 0]]⟩), ("others", ⟨[.gap 5]⟩)]⟩

end Store

namespace Scan

/-- A scan fails at the page with the 8 while others hold the memory. Asked again, it says that
there is no other row. -/
theorem rows_of_asked_numbers :
    let s := Store.sevenThenEight.meet (.action (.acquire ⟨1⟩ ⟨⟨2⟩, 0⟩))
    let scan := HeapFile.scan ⟨only, "rows", numbers, 5⟩ ⟨2⟩
    let opened := (scan.start s).2
    let once := (opened.1.next opened.2).2
    let refused := (once.1.hasNext once.2).2
    let freed := (refused.1, refused.2.meet (.action (.complete ⟨1⟩ true)))
    let ended := (freed.1.hasNext freed.2).2
    let seven : Tuple := { number 7 with record := some ⟨⟨only, 0⟩, 0⟩ }
    let seen := [opened, once, refused, freed]
    s.Visited 2 ∧ scan.Opens s opened ∧ Asked opened seen [seven] [1] freed ∧
      freed.1.hasNext freed.2 = (.ok false, ended) ∧
      (∀ m ∈ seen ++ [ended], ∀ n < scan.taken s,
        m.2.shown ⟨only, n⟩ = opened.2.shown ⟨only, n⟩) ∧
      scan.taken s = 2 ∧
      [seven].map Tuple.row = ((List.range 2).filter (· ∉ [1])).flatMap
        fun n => opened.2.pageRows ⟨only, n⟩ := by
  intro s scan opened once refused freed ended seven seen
  have hvisited : s.Visited 2 := .meet (.new rfl) _
  have hopens : scan.Opens s opened := .inl (Prod.ext (by decide +kernel) rfl)
  have honce : opened.1.next opened.2 = (.ok seven, once) := Prod.ext (by decide +kernel) rfl
  have hrefused : once.1.hasNext once.2 = (.error .bufferPoolFull, refused) :=
    Prod.ext (by decide +kernel) rfl
  have hended : freed.1.hasNext freed.2 = (.ok false, ended) :=
    Prod.ext (by decide +kernel) rfl
  have hpage : [1] = unread (.error .bufferPoolFull : Except DbError Bool) refused.1 := by
    decide +kernel
  have hasked : Asked opened seen [seven] [1] freed :=
    hpage ▸ ((Asked.opened.take honce).look hrefused).event _
  have hsame : ∀ m ∈ seen ++ [ended], ∀ n < scan.taken s,
      m.2.shown ⟨only, n⟩ = opened.2.shown ⟨only, n⟩ := by
    decide +kernel
  have htaken : scan.taken s = 2 := by decide +kernel
  exact ⟨hvisited, hopens, hasked, hended, hsame, htaken,
    htaken ▸ (rows_of_asked hvisited hopens hasked hended hsame).1⟩

/-- The 8 is in the table all along, and its page can be read when the scan is asked again. Still
the scan says that there is no other row without having given it. -/
theorem row_missed_though_page_can_be_read :
    let s := Store.sevenThenEight.meet (.action (.acquire ⟨1⟩ ⟨⟨2⟩, 0⟩))
    let scan := HeapFile.scan ⟨only, "rows", numbers, 5⟩ ⟨2⟩
    let opened := (scan.start s).2
    let once := (opened.1.next opened.2).2
    let refused := (once.1.hasNext once.2).2
    let freed := (refused.1, refused.2.meet (.action (.complete ⟨1⟩ true)))
    let ended := (freed.1.hasNext freed.2).2
    let seven : Tuple := { number 7 with record := some ⟨⟨only, 0⟩, 0⟩ }
    let eight : Row := (number 8).rowAt ⟨⟨only, 1⟩, 0⟩
    let seen := [opened, once, refused, freed]
    s.Visited 2 ∧ scan.Opens s opened ∧ Asked opened seen [seven] [1] freed ∧
      once.1.hasNext once.2 = (.error .bufferPoolFull, refused) ∧
      (freed.2.acquire ⟨2⟩ ⟨only, 1⟩).isOk ∧
      freed.1.hasNext freed.2 = (.ok false, ended) ∧
      (∀ m ∈ seen ++ [ended], m.2.rowsFrom only 0 (scan.taken s) = [seven.row, eight]) ∧
      eight ∉ [seven].map Tuple.row := by
  intro s scan opened once refused freed ended seven eight seen
  have honce : opened.1.next opened.2 = (.ok seven, once) := Prod.ext (by decide +kernel) rfl
  have hrefused : once.1.hasNext once.2 = (.error .bufferPoolFull, refused) :=
    Prod.ext (by decide +kernel) rfl
  have hpage : [1] = unread (.error .bufferPoolFull : Except DbError Bool) refused.1 := by
    decide +kernel
  have hasked : Asked opened seen [seven] [1] freed :=
    hpage ▸ ((Asked.opened.take honce).look hrefused).event _
  refine ⟨.meet (.new rfl) _, .inl (Prod.ext (by decide +kernel) rfl), hasked, hrefused, ?_,
    Prod.ext (by decide +kernel) rfl, ?_, ?_⟩ <;> decide +kernel

end Scan

end Rowstore
