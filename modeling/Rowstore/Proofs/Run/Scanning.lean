import Mathlib
import Rowstore.Proofs.Run.Caching
import Rowstore.Proofs.Run.Record
import Rowstore.Proofs.Store.Deriving

/-!
# Scans while the store changes

A scan is opened, and then it is asked for rows while anything happens to the store in between: rows
are stored and deleted, pages are written, given up and read again, transactions end.

The scan takes the rows of a page when it comes to the page, `Scan.CameTo`, and does not look at the
page again. So the rows that it has given and those that it has ready are the rows of the pages it
has come to, each as the page was then: `Scan.Progress` is kept by every step. The order of the rows
and what can be said of them at the end follow, `Scan.rows_of_watched`: a row that stayed in the
table has been given exactly if its page was counted when the scan was opened, and of a file that
has fewer pages than there are page numbers all are counted.
-/

namespace Rowstore

/-! ### Rows of a page -/

/-- A record comes before another one of the same table. -/
def RecordId.Before (a b : RecordId) : Prop :=
  a.page.table = b.page.table ∧
    Prod.Lex (· < ·) (· < ·) (a.page.number, a.slot) (b.page.number, b.slot)

/-- A row comes before another one, by their records. -/
def Tuple.Before (a b : Tuple) : Prop :=
  ∃ r r', a.record = some r ∧ b.record = some r' ∧ r.Before r'

namespace Page

variable {p q : Page} {row : Tuple}

theorem mem_rows : row ∈ p.rows ↔ ∃ i : Nat, p.slots[i]? = some (some row) := by
  rw [rows, List.mem_filterMap]
  constructor
  · rintro ⟨o, ho, rfl⟩
    exact List.mem_iff_getElem?.1 ho
  · rintro ⟨i, hi⟩
    exact ⟨some row, List.mem_iff_getElem?.2 ⟨i, hi⟩, rfl⟩

/-- The rows of a page are in the order of their slots. -/
theorem Recorded.pairwise_rows (h : p.Recorded) : p.rows.Pairwise Tuple.Before := by
  rw [rows, List.pairwise_filterMap, List.pairwise_iff_getElem]
  intro i j hi hj hlt a ha b hb
  have hai : p.slots[i]? = some (some a) := by rw [List.getElem?_eq_getElem hi, ha]
  have hbj : p.slots[j]? = some (some b) := by rw [List.getElem?_eq_getElem hj, hb]
  exact ⟨_, _, h i a hai, h j b hbj, rfl, .right _ hlt⟩

/-- The rows of a page come before those of a later one. -/
theorem Recorded.before (hp : p.Recorded) (hq : q.Recorded) (htable : p.id.table = q.id.table)
    (hlt : p.id.number < q.id.number) {a b : Tuple} (ha : a ∈ p.rows) (hb : b ∈ q.rows) :
    a.Before b := by
  obtain ⟨i, hi⟩ := mem_rows.1 ha
  obtain ⟨j, hj⟩ := mem_rows.1 hb
  exact ⟨_, _, hp i a hi, hq j b hj, htable, .left _ _ hlt⟩

end Page

namespace Store

variable {s t u : Store} {tx : TxId} {id : PageId} {page : Page}

/-! ### Pages that stay in memory -/

/-- The pages that a transaction holds, and that are in memory, stay as they are. -/
def Retains (tx : TxId) (s t : Store) : Prop :=
  ∀ id page, s.pool.isHeldBy tx id = true → s.pool.page? id = some page →
    t.pool.isHeldBy tx id = true ∧ t.pool.page? id = some page

theorem Retains.refl (s : Store) : Retains tx s s := fun _ _ hheld hpage => ⟨hheld, hpage⟩

theorem Retains.trans (h : Retains tx s t) (h' : Retains tx t u) : Retains tx s u := by
  intro id page hheld hpage
  obtain ⟨hheld, hpage⟩ := h id page hheld hpage
  exact h' id page hheld hpage

theorem isHeldBy_hold (p : Pool) (tx tx' : TxId) (id id' : PageId) :
    (p.hold tx id).isHeldBy tx' id' = true ↔
      p.isHeldBy tx' id' = true ∨ (tx' = tx ∧ id' = id) := by
  simp [Pool.isHeldBy, Pool.hold, or_comm]

/-- A page that is acquired is in memory and held, and pages that were held stay. -/
theorem acquire_retains (hs : s.pool.Distinct) (h : s.acquire tx id = .ok (page, t)) :
    t.pool.Distinct ∧ t.pool.page? id = some page ∧ t.pool.isHeldBy tx id = true ∧
      Retains tx s t := by
  rcases acquire_cases h with ⟨hpage, rfl⟩ | ⟨f, pool, hmiss, -, hread, hload, rfl⟩
  · refine ⟨hs, hpage, s.pool.isHeldBy_hold_self tx id, fun other found hheld hfound => ?_⟩
    exact ⟨(isHeldBy_hold _ _ _ _ _).2 (.inl hheld), hfound⟩
  · obtain ⟨-, rfl, -⟩ := HeapFile.holds_of_readPage hread
    have hdistinct : pool.Distinct := hs.load hmiss hload
    have hfound : pool.page? page.id = some page := (Pool.page?_load hs hmiss hload).1
    refine ⟨hdistinct, hfound, pool.isHeldBy_hold_self tx page.id, ?_⟩
    intro other found hheld hother
    have hstays : pool.page? other = some found :=
      Pool.page?_load_of_held hmiss hload hheld hother
    refine ⟨(isHeldBy_hold _ _ _ _ _).2 (.inl ?_), hstays⟩
    rwa [Pool.isHeldBy, Pool.holds_of_load hload]

end Store

namespace Scan

variable {scan scan' : Scan} {s t : Store} {pages : List Page} {page : Page}

/-- The pages that a scan comes to one after another, from a page on: they are in memory as the
scan found them. -/
structure Visits (scan : Scan) (t : Store) (pages : List Page) : Prop where
  id_eq : ∀ (i : Nat) (page : Page), pages[i]? = some page →
    page.id = ⟨scan.file.table, scan.page + 1 + i⟩
  cached : ∀ page ∈ pages, t.pool.page? page.id = some page

/-- A scan that stays where it is comes to no page. -/
theorem visits_nil (scan : Scan) (t : Store) : scan.Visits t [] := ⟨nofun, nofun⟩

/-- A scan comes to the next page, and to the pages that it comes to from there. -/
theorem Visits.cons {next : Scan} (h : next.Visits t pages)
    (htable : next.file.table = scan.file.table) (hnext : next.page = scan.page + 1)
    (hid : page.id = ⟨scan.file.table, scan.page + 1⟩) (hcached : t.pool.page? page.id = some page) :
    scan.Visits t (page :: pages) where
  id_eq := by
    rintro (_ | i) other hother
    · cases hother
      exact hid
    · rw [h.id_eq i other hother, htable, hnext, Nat.add_right_comm _ 1 i]
      rfl
  cached := List.forall_mem_cons.2 ⟨hcached, h.cached⟩

theorem acquire_of_load {n : Nat} {rows : List Tuple} (h : scan.load s n = (.ok rows, t)) :
    ∃ page, rows = page.rows ∧ s.acquire scan.tx ⟨scan.file.table, n⟩ = .ok (page, t) := by
  unfold load at h
  cases hacquire : s.acquire scan.tx ⟨scan.file.table, n⟩ with
  | error cause =>
    rw [hacquire] at h
    cases h
  | ok given =>
    rw [hacquire] at h
    cases h
    exact ⟨given.1, rfl, rfl⟩

/-- A scan without rows that seeks comes to some of the next pages, and has the rows of all of them
then. It comes to all that it may if it finds no row. -/
theorem visits_of_seek (hs : s.pool.Distinct) (hrest : scan.rest = some []) {n : Nat} {more : Bool}
    (h : scan.seek s n = (.ok more, scan', t)) :
    ∃ pages, scan.Visits t pages ∧ pages.length ≤ n ∧
      scan' = { scan with
        page := scan.page + pages.length, rest := some (pages.flatMap Page.rows) } ∧
      (more = false → pages.length = n ∧ scan'.rest = some []) ∧
      t.pool.Distinct ∧ s.Retains scan.tx t := by
  induction n generalizing scan s with
  | zero =>
    cases h
    refine ⟨[], visits_nil _ _, le_rfl, ?_, fun _ => ⟨rfl, hrest⟩, hs, .refl _⟩
    obtain ⟨file, tx, page, pageCount, rest⟩ := scan'
    cases hrest
    rfl
  | succ n ih =>
    unfold seek at h
    simp only at h
    obtain ⟨rows, u, hload, h⟩ := Outcome.andThen_eq_ok_iff.1 h
    obtain ⟨page, rfl, hacquire⟩ := acquire_of_load hload
    obtain ⟨hdistinct, hpage, hheld, hretains⟩ := Store.acquire_retains hs hacquire
    have hid : page.id = ⟨scan.file.table, scan.page + 1⟩ := (Pool.mem_of_page? hpage).2
    split_ifs at h with hempty
    · obtain ⟨pages, hvisits, hlength, rfl, hend, ht, hretains'⟩ := ih hdistinct
        (by rw [List.isEmpty_iff.1 hempty]) h
      have hcached := (hretains' _ page hheld hpage).2
      refine ⟨page :: pages, hvisits.cons rfl rfl hid (hid ▸ hcached), ?_, ?_, ?_, ht,
        hretains.trans hretains'⟩
      · simp only [List.length_cons]
        omega
      · simp only [List.length_cons, List.flatMap_cons, List.isEmpty_iff.1 hempty,
          List.nil_append, Scan.mk.injEq, true_and, and_true]
        omega
      · intro hmore
        obtain ⟨hall, hnone⟩ := hend hmore
        exact ⟨by rw [List.length_cons, hall], hnone⟩
    · cases h
      refine ⟨[page], (visits_nil { scan with page := scan.page + 1 } _).cons rfl rfl hid
        (hid ▸ hpage), ?_, ?_, by simp, hdistinct, hretains⟩
      · simp
      · simp

/-- An open scan that looks for another row comes to some of the next pages, if it has no rows. -/
theorem visits_of_hasNext (hs : s.pool.Distinct) {rest : List Tuple} (hrest : scan.rest = some rest)
    {more : Bool} (h : scan.hasNext s = (.ok more, scan', t)) :
    ∃ pages, scan.Visits t pages ∧ pages.length ≤ scan.pageCount - (scan.page + 1) ∧
      scan' = { scan with
        page := scan.page + pages.length, rest := some (rest ++ pages.flatMap Page.rows) } ∧
      (more = false →
        pages.length = scan.pageCount - (scan.page + 1) ∧ scan'.rest = some []) := by
  cases rest with
  | nil =>
    unfold hasNext at h
    rw [hrest] at h
    obtain ⟨pages, hvisits, hlength, hscan, hend, -, -⟩ := visits_of_seek hs hrest h
    exact ⟨pages, hvisits, hlength, hscan, hend⟩
  | cons row rest =>
    rw [hasNext_of_rest hrest] at h
    cases h
    refine ⟨[], visits_nil _ _, Nat.zero_le _, ?_, nofun⟩
    obtain ⟨file, tx, page, pageCount, rest'⟩ := scan
    cases hrest
    simp

/-! ### A scan under way -/

/-- A scan between two calls, and the store then. -/
abbrev Moment := Scan × Store

/-- A scan from where it was opened, of which every call went well: the moments after each step, the
rows that it gave and the last moment. -/
inductive Watched (first : Moment) : List Moment → List Tuple → Moment → Prop
  | opened : Watched first [first] [] first
  | event {seen given now} (h : Watched first seen given now) (e : Event) :
      Watched first (seen ++ [(now.1, now.2.meet e)]) given (now.1, now.2.meet e)
  | look {seen given now more next} (h : Watched first seen given now)
      (hlook : now.1.hasNext now.2 = (.ok more, next)) :
      Watched first (seen ++ [next]) given next
  | take {seen given now row next} (h : Watched first seen given now)
      (htake : now.1.next now.2 = (.ok row, next)) :
      Watched first (seen ++ [next]) (given ++ [row]) next

/-- A page is as it was in memory when the scan came to it: at the first moment at which the scan
was on that page, or further. -/
def CameTo (seen : List Moment) (page : Page) : Prop :=
  ∃ before scan s after, seen = before ++ (scan, s) :: after ∧
    (∀ m ∈ before, m.1.page < page.id.number) ∧ page.id.number ≤ scan.page ∧
    s.pool.page? page.id = some page

/-- The rows that a scan gave, and those it has ready, are the rows of the pages it came to. -/
structure Progress (table : TableId) (count : Nat) (seen : List Moment) (given : List Tuple)
    (scan : Scan) (pages : List Page) : Prop where
  table_eq : scan.file.table = table
  count_eq : scan.pageCount = count
  rows_eq : ∃ rest, scan.rest = some rest ∧ given ++ rest = pages.flatMap Page.rows
  length_eq : pages.length = if count = 0 then 0 else scan.page + 1
  length_le : pages.length ≤ count
  came : ∀ (i : Nat) (page : Page), pages[i]? = some page →
    page.id = ⟨table, i⟩ ∧ page.Recorded ∧ CameTo seen page
  behind : ∀ m ∈ seen, m.1.page ≤ scan.page

theorem CameTo.append {seen : List Moment} (h : CameTo seen page) (more : List Moment) :
    CameTo (seen ++ more) page := by
  obtain ⟨before, scan, s, after, rfl, hbefore, hpage, hcached⟩ := h
  exact ⟨before, scan, s, after ++ more, by simp, hbefore, hpage, hcached⟩

section Progress

variable {table : TableId} {count : Nat} {seen : List Moment} {given : List Tuple}

/-- Something happens to the store. -/
theorem Progress.wait (h : Progress table count seen given scan pages) (t : Store) :
    Progress table count (seen ++ [(scan, t)]) given scan pages where
  table_eq := h.table_eq
  count_eq := h.count_eq
  rows_eq := h.rows_eq
  length_eq := h.length_eq
  length_le := h.length_le
  came := fun i page hpage => by
    obtain ⟨hid, hrecorded, hcame⟩ := h.came i page hpage
    exact ⟨hid, hrecorded, hcame.append _⟩
  behind := fun m hm => by
    rcases List.mem_append.1 hm with hm | hm
    · exact h.behind m hm
    · rw [List.mem_singleton.1 hm]

/-- The pages that a scan comes to follow those that it has come to. -/
theorem Progress.came_next (h : Progress table count seen given scan pages) {next : List Page}
    (hvisits : scan.Visits t next) (hlast : pages.length = scan.page + 1)
    (hrecorded : ∀ page ∈ t.pool.pages, page.Recorded) {i : Nat} (hpage : next[i]? = some page)
    (rest : Option (List Tuple)) :
    page.id = ⟨table, pages.length + i⟩ ∧ page.Recorded ∧
      CameTo (seen ++ [({ scan with page := scan.page + next.length, rest }, t)]) page := by
  have hlt := (List.getElem?_eq_some_iff.1 hpage).1
  have hcached := hvisits.cached page (List.mem_of_getElem? hpage)
  have hid : page.id = ⟨table, pages.length + i⟩ := by
    rw [hvisits.id_eq _ _ hpage, h.table_eq, PageId.mk.injEq]
    exact ⟨rfl, by omega⟩
  refine ⟨hid, hrecorded page (Pool.mem_of_page? hcached).1, seen, _, t, [], rfl, ?_, ?_, hcached⟩
  · intro m hm
    have hbehind := h.behind m hm
    rw [hid]
    simp only
    omega
  · rw [hid]
    simp only
    omega

/-- The scan comes to some of the next pages, and may give the first of the rows. -/
theorem Progress.advance (h : Progress table count seen given scan pages) {rest : List Tuple}
    (hrest : scan.rest = some rest) {next : List Page} (hvisits : scan.Visits t next)
    (hlength : next.length ≤ scan.pageCount - (scan.page + 1))
    (hrecorded : ∀ page ∈ t.pool.pages, page.Recorded) {given' rest' : List Tuple}
    (hrows : given' ++ rest' = given ++ rest ++ next.flatMap Page.rows)
    (hscan : scan' = { scan with page := scan.page + next.length, rest := some rest' }) :
    Progress table count (seen ++ [(scan', t)]) given' scan' (pages ++ next) := by
  subst hscan
  have hnext : count = 0 → next = [] := by
    intro hzero
    rw [h.count_eq, hzero] at hlength
    exact List.length_eq_zero_iff.1 (by omega)
  have hlast : next ≠ [] → pages.length = scan.page + 1 := by
    intro hne
    rw [h.length_eq, if_neg fun hzero => hne (hnext hzero)]
  have hle := h.length_le
  have heq := h.length_eq
  rw [h.count_eq] at hlength
  constructor
  · exact h.table_eq
  · exact h.count_eq
  · obtain ⟨rest₀, hrest₀, hall⟩ := h.rows_eq
    cases hrest.symm.trans hrest₀
    refine ⟨rest', rfl, ?_⟩
    rw [hrows, hall, List.flatMap_append]
  · rw [List.length_append, heq]
    split_ifs with hzero
    · rw [hnext hzero]
      rfl
    · simp only
      omega
  · rw [List.length_append]
    split_ifs at heq <;> omega
  · intro i page hpage
    rcases Nat.lt_or_ge i pages.length with hi | hi
    · rw [List.getElem?_append_left hi] at hpage
      obtain ⟨hid, hrec, hcame⟩ := h.came i page hpage
      exact ⟨hid, hrec, hcame.append _⟩
    · rw [List.getElem?_append_right hi] at hpage
      have hpages := hlast (List.ne_nil_of_mem (List.mem_of_getElem? hpage))
      have hcame := h.came_next hvisits hpages hrecorded hpage (some rest')
      rwa [Nat.add_sub_cancel' hi] at hcame
  · intro m hm
    rcases List.mem_append.1 hm with hm | hm
    · exact (h.behind m hm).trans (Nat.le_add_right _ _)
    · rw [List.mem_singleton.1 hm]

end Progress

end Scan

/-! ### Stores that are come to -/

namespace Store

variable {s : Store} {capacity : Nat}

theorem derives_meet (s : Store) (e : Event) : s.Derives (s.meet e) := by
  cases e with
  | action a => exact s.stable_derives.after (.refl s) a
  | insert tx table row =>
    exact (s.stable_derives : Stable (fun _ => True) _).insertRow (.refl s) trivial tx table
  | elsewhere catalog disk => exact .of_pages rfl

theorem Visited.distinct (h : s.Visited capacity) : s.pool.Distinct := by
  have htidy : s.Tidy := (h.safe.safe (Cache.wellFormed_empty capacity)).1
  exact htidy.nodup

/-- In every page in memory each row has the record of its slot. -/
theorem Visited.recorded (h : s.Visited capacity) : ∀ page ∈ s.pool.pages, page.Recorded := by
  induction h with
  | new hpool =>
    rw [hpool]
    exact nofun
  | @meet s _ e ih =>
    refine (s.derives_meet e).forall_pages ?_ (fun p p' => Page.Recorded.becomes) ih
    intro f disk id page hread
    exact (HeapFile.holds_of_readPage hread).1.sound.recorded

/-- A row that is shown in a record has that record. -/
theorem Visited.record_of_shownAt (h : s.Visited capacity) {record : RecordId} {row : Row}
    (hrow : s.shownAt record = some row) : row.record = some record := by
  obtain ⟨cells, hshown, hcell⟩ := Option.bind_eq_some_iff.1 (Option.join_eq_some_iff.1 hrow)
  obtain ⟨page, hrecorded, hid, rfl⟩ : ∃ page : Page, page.Recorded ∧ page.id = record.page ∧
      page.cells = cells := by
    unfold shown at hshown
    split at hshown
    · rename_i page hpage
      obtain ⟨hmem, hid⟩ := Pool.mem_of_page? hpage
      exact ⟨page, h.recorded page hmem, hid, Option.some.inj hshown⟩
    · obtain ⟨f, -, hread⟩ := Option.bind_eq_some_iff.1 hshown
      obtain ⟨page, hread, hcells⟩ := HeapFile.cells?_eq_some_iff.1 hread
      obtain ⟨hholds, hid, -⟩ := HeapFile.holds_of_readPage hread
      exact ⟨page, hholds.sound.recorded, hid, hcells⟩
  rw [Page.cells, List.getElem?_map] at hcell
  obtain ⟨o, ho, hrow⟩ := Option.map_eq_some_iff.1 hcell
  obtain ⟨tuple, rfl, rfl⟩ := Option.map_eq_some_iff.1 hrow
  obtain ⟨id, slot⟩ := record
  cases hid
  exact hrecorded slot tuple ho

end Store

namespace Scan

variable {scan : Scan} {s : Store} {first now : Moment} {seen : List Moment} {given : List Tuple}
  {capacity : Nat}

/-- A scan is opened, or goes back to its first page. -/
def Opens (scan : Scan) (s : Store) (first : Moment) : Prop :=
  scan.start s = (.ok (), first) ∨ scan.rewind s = (.ok (), first)

/-- The count of pages that a scan takes when it is opened. -/
def taken (scan : Scan) (s : Store) : Nat := scan.file.wholePages s.disk % HeapFile.pageNumbers

theorem progress_of_start (hs : s.Visited capacity) (h : scan.start s = (.ok (), first)) :
    0 < scan.file.pageSize ∧ first.2.Visited capacity ∧
      ∃ pages, Progress scan.file.table (scan.taken s) [first] [] first.1 pages := by
  have hvisited : first.2.Visited capacity := by
    have hmeet : first.2 = s.meet (.action (.scan scan .start)) := by
      show first.2 = (scan.start s).2.2
      rw [h]
    exact hmeet ▸ hs.meet _
  unfold start HeapFile.pageCount at h
  split_ifs at h with hsize
  · cases h
  · refine ⟨Nat.pos_of_ne_zero hsize, hvisited, ?_⟩
    change (if scan.taken s = 0 then _ else _) = _ at h
    split_ifs at h with hcount
    · cases h
      refine ⟨[], rfl, rfl, ⟨[], rfl, rfl⟩, ?_, Nat.zero_le _, nofun, ?_⟩
      · rw [if_pos hcount]
        rfl
      · intro m hm
        rw [List.mem_singleton.1 hm]
    · obtain ⟨rows, t, hload, h⟩ := Outcome.andThen_eq_ok_iff.1 h
      obtain ⟨page, rfl, hacquire⟩ := acquire_of_load hload
      cases h
      have hpage := (Store.acquire_retains hs.distinct hacquire).2.1
      obtain ⟨hmem, hid⟩ := Pool.mem_of_page? hpage
      refine ⟨[page], rfl, rfl, ⟨_, rfl, by simp⟩, ?_, Nat.pos_of_ne_zero hcount, ?_, ?_⟩
      · rw [if_neg hcount]
        rfl
      · rintro (_ | i) other hother
        · cases hother
          refine ⟨hid, hvisited.recorded page hmem, [], _, t, [], rfl, nofun, ?_, hid ▸ hpage⟩
          rw [hid]
        · cases hother
      · intro m hm
        rw [List.mem_singleton.1 hm]

/-- A scan that was opened has come to its first page, if it took any. -/
theorem progress_of_opens (hs : s.Visited capacity) (h : scan.Opens s first) :
    0 < scan.file.pageSize ∧ first.2.Visited capacity ∧
      ∃ pages, Progress scan.file.table (scan.taken s) [first] [] first.1 pages := by
  rcases h with h | h
  · exact progress_of_start hs h
  · have hstart : scan.close.start s = (.ok (), first) := h
    have hprogress := progress_of_start hs hstart
    exact hprogress

theorem Progress.look {table : TableId} {count : Nat} {pages : List Page} {more : Bool}
    {next : Moment} (h : Progress table count seen given now.1 pages)
    (hs : now.2.Visited capacity) (hlook : now.1.hasNext now.2 = (.ok more, next)) :
    next.2.Visited capacity ∧ ∃ pages, Progress table count (seen ++ [next]) given next.1 pages ∧
      (more = false → pages.length = count ∧ next.1.rest = some []) := by
  have hvisited : next.2.Visited capacity := by
    have hmeet : next.2 = now.2.meet (.action (.scan now.1 .hasNext)) := by
      show next.2 = (now.1.hasNext now.2).2.2
      rw [hlook]
    exact hmeet ▸ hs.meet _
  obtain ⟨scan', t⟩ := next
  obtain ⟨rest, hrest, -⟩ := h.rows_eq
  obtain ⟨new, hvisits, hlength, hscan, hend⟩ := visits_of_hasNext hs.distinct hrest hlook
  refine ⟨hvisited, pages ++ new, ?_, ?_⟩
  · refine h.advance hrest hvisits hlength hvisited.recorded ?_ hscan
    rw [List.append_assoc]
  · intro hmore
    obtain ⟨hall, hnone⟩ := hend hmore
    refine ⟨?_, hnone⟩
    rw [List.length_append, hall, h.length_eq, h.count_eq]
    have hle := h.length_le
    rw [h.length_eq] at hle
    split_ifs at hle ⊢ with hzero
    · omega
    · omega

theorem Progress.take {table : TableId} {count : Nat} {pages : List Page} {row : Tuple}
    {next : Moment} (h : Progress table count seen given now.1 pages)
    (hs : now.2.Visited capacity) (htake : now.1.next now.2 = (.ok row, next)) :
    next.2.Visited capacity ∧
      ∃ pages, Progress table count (seen ++ [next]) (given ++ [row]) next.1 pages := by
  have hvisited : next.2.Visited capacity := by
    have hmeet : next.2 = now.2.meet (.action (.scan now.1 .next)) := by
      show next.2 = (now.1.next now.2).2.2
      rw [htake]
    exact hmeet ▸ hs.meet _
  obtain ⟨scan', t⟩ := next
  obtain ⟨rest, hrest, -⟩ := h.rows_eq
  unfold Scan.next at htake
  obtain ⟨more, ⟨mid, u⟩, hlook, hfirst⟩ := Outcome.andThen_eq_ok_iff.1 htake
  obtain ⟨new, hvisits, hlength, hmid, -⟩ := visits_of_hasNext hs.distinct hrest hlook
  simp only at hfirst
  split at hfirst
  · rename_i row' rest' hready
    cases hfirst
    refine ⟨hvisited, pages ++ new, ?_⟩
    rw [hmid] at hready
    have hready : rest ++ new.flatMap Page.rows = row :: rest' := Option.some.inj hready
    have hrows : given ++ [row] ++ rest' = given ++ rest ++ new.flatMap Page.rows := by
      rw [List.append_assoc, List.append_assoc, hready]
      rfl
    exact h.advance hrest hvisits hlength hvisited.recorded hrows (by rw [hmid])
  · cases hfirst

/-- Whatever happens to the store, a scan goes on from page to page. -/
theorem Watched.progress {table : TableId} {count : Nat} (h : Watched first seen given now)
    (hs : first.2.Visited capacity)
    (hfirst : ∃ pages, Progress table count [first] [] first.1 pages) :
    now.2.Visited capacity ∧ ∃ pages, Progress table count seen given now.1 pages := by
  induction h with
  | opened => exact ⟨hs, hfirst⟩
  | event _ e ih =>
    obtain ⟨hvisited, pages, hprogress⟩ := ih
    exact ⟨hvisited.meet e, pages, hprogress.wait _⟩
  | look _ hlook ih =>
    obtain ⟨hvisited, pages, hprogress⟩ := ih
    obtain ⟨hnext, more, hmore, -⟩ := hprogress.look hvisited hlook
    exact ⟨hnext, more, hmore⟩
  | take _ htake ih =>
    obtain ⟨hvisited, pages, hprogress⟩ := ih
    exact hprogress.take hvisited htake

/-! ### What a scan gives -/

section Given

variable {table : TableId} {count : Nat} {pages : List Page}

/-- A row that was given is one of a page that the scan came to, with the record of its slot. -/
theorem Progress.slot_of_given (h : Progress table count seen given scan pages) {row : Tuple}
    (hrow : row ∈ given) : ∃ page i, page.slots[i]? = some (some row) ∧ CameTo seen page ∧
      page.id.table = table ∧ page.id.number < count ∧ row.record = some ⟨page.id, i⟩ := by
  obtain ⟨rest, -, hrows⟩ := h.rows_eq
  have hmem : row ∈ pages.flatMap Page.rows := hrows ▸ List.mem_append_left rest hrow
  obtain ⟨page, hpage, hrow⟩ := List.mem_flatMap.1 hmem
  obtain ⟨n, hn⟩ := List.mem_iff_getElem?.1 hpage
  obtain ⟨hid, hrecorded, hcame⟩ := h.came n page hn
  obtain ⟨i, hi⟩ := Page.mem_rows.1 hrow
  have hlt : n < count := (List.getElem?_eq_some_iff.1 hn).1.trans_le h.length_le
  refine ⟨page, i, hi, hcame, by rw [hid], by rwa [hid], hrecorded i row hi⟩

/-- Rows are given in the order of their records. -/
theorem Progress.pairwise_given (h : Progress table count seen given scan pages) :
    given.Pairwise Tuple.Before := by
  obtain ⟨rest, -, hrows⟩ := h.rows_eq
  have hall : (pages.flatMap Page.rows).Pairwise Tuple.Before := by
    rw [List.pairwise_flatMap]
    constructor
    · intro page hpage
      obtain ⟨n, hn⟩ := List.mem_iff_getElem?.1 hpage
      exact (h.came n page hn).2.1.pairwise_rows
    · rw [List.pairwise_iff_getElem]
      intro i j hi hj hlt a ha b hb
      obtain ⟨hid, hrecorded, -⟩ := h.came i _ (List.getElem?_eq_getElem hi)
      obtain ⟨hid', hrecorded', -⟩ := h.came j _ (List.getElem?_eq_getElem hj)
      exact hrecorded.before hrecorded' (by rw [hid, hid']) (by rw [hid, hid']; exact hlt) ha hb
  rw [← hrows] at hall
  exact (List.pairwise_append.1 hall).1

/-- When there are no more rows, a row that stayed where it was has been given. -/
theorem Progress.mem_given (h : Progress table count seen given scan pages)
    (hlength : pages.length = count) (hrest : scan.rest = some []) {record : RecordId} {row : Row}
    (htable : record.page.table = table) (hnumber : record.page.number < count)
    (hstays : ∀ m ∈ seen, m.2.shownAt record = some row) : ∃ tuple ∈ given, tuple.row = row := by
  obtain ⟨page, hpage⟩ : ∃ page, pages[record.page.number]? = some page :=
    ⟨_, List.getElem?_eq_getElem (hlength ▸ hnumber)⟩
  obtain ⟨hid, -, before, scan', s, after, rfl, -, -, hcached⟩ := h.came _ page hpage
  have hshown : s.shownAt record = some row := hstays (scan', s) (by simp)
  have hrecord : record.page = page.id := by
    rw [hid, ← htable]
  -- the row was in the slot when the scan came to the page
  have hcells : s.shown record.page = some page.cells := by
    rw [hrecord, Store.shown, hcached]
  rw [Store.shownAt, rowIn_of_some hcells, Option.join_eq_some_iff, Page.cells,
    List.getElem?_map] at hshown
  obtain ⟨o, ho, hrow⟩ := Option.map_eq_some_iff.1 hshown
  obtain ⟨tuple, rfl, rfl⟩ := Option.map_eq_some_iff.1 hrow
  obtain ⟨rest, hrest', hrows⟩ := h.rows_eq
  cases hrest.symm.trans hrest'
  rw [List.append_nil] at hrows
  refine ⟨tuple, ?_, rfl⟩
  rw [hrows]
  exact List.mem_flatMap.2 ⟨page, List.mem_of_getElem? hpage, Page.mem_rows.2 ⟨_, ho⟩⟩

end Given

/-- **A scan gives rows in the order of their records** while the store changes, and all that stay
on the pages it counted. -/
theorem rows_of_watched (hs : s.Visited capacity) (hopens : scan.Opens s first)
    (h : Watched first seen given now) :
    given.Pairwise Tuple.Before ∧
      (∀ row ∈ given, ∃ page i, page.slots[i]? = some (some row) ∧ CameTo seen page ∧
        page.id.table = scan.file.table ∧ scan.file.Has s.disk page.id.number ∧
        row.record = some ⟨page.id, i⟩) ∧
      (∀ disk id disk', scan.file.wholePages s.disk ≤ scan.file.wholePages disk →
        scan.file.Countable disk → scan.file.appendPage disk = .ok (id, disk') →
        ∀ row ∈ given, ∀ record, row.record = some record → record.page ≠ id) ∧
      (∀ next, now.1.hasNext now.2 = (.ok false, next) → ∀ (record : RecordId) (row : Row),
        record.page.table = scan.file.table →
        (∀ m ∈ seen ++ [next], m.2.shownAt record = some row) →
        ((∃ tuple ∈ given, tuple.row = row) ↔ record.page.number < scan.taken s)) ∧
      (scan.file.Countable s.disk →
        ∀ n, n < scan.taken s ↔ scan.file.Has s.disk n) := by
  obtain ⟨hpos, hvisited, hfirst⟩ := progress_of_opens hs hopens
  obtain ⟨hnow, pages, hprogress⟩ := h.progress hvisited hfirst
  have hhas : ∀ n, n < scan.taken s → n < scan.file.wholePages s.disk :=
    fun n hn => hn.trans_le (Nat.mod_le _ _)
  refine ⟨hprogress.pairwise_given, ?_, ?_, ?_, ?_⟩
  · intro row hrow
    obtain ⟨page, i, hslot, hcame, htable, hnumber, hrecord⟩ := hprogress.slot_of_given hrow
    exact ⟨page, i, hslot, hcame, htable, (HeapFile.has_iff_lt hpos).2 (hhas _ hnumber), hrecord⟩
  · rintro disk id disk' hgrown hcount happend row hrow record hrecord rfl
    obtain ⟨page, i, -, -, -, hnumber, hrecord'⟩ := hprogress.slot_of_given hrow
    cases hrecord.symm.trans hrecord'
    obtain ⟨-, -, hid, -⟩ := HeapFile.appendPage_eq_ok_iff.1 happend
    have hnew := (hcount.nextPage hpos).1
    rw [← hid] at hnew
    exact absurd (hhas _ hnumber) (Nat.not_lt.2 (hgrown.trans_eq hnew.symm))
  · intro next hlook record row htable hstays
    obtain ⟨hvisited', all, hall, hend⟩ := hprogress.look hnow hlook
    obtain ⟨hlength, hrest⟩ := hend rfl
    constructor
    · rintro ⟨tuple, hmem, rfl⟩
      obtain ⟨page, i, -, -, -, hnumber, hrecord⟩ := hprogress.slot_of_given hmem
      have hrecord' := hvisited'.record_of_shownAt (hstays next (by simp))
      cases hrecord.symm.trans hrecord'
      exact hnumber
    · intro hnumber
      exact hall.mem_given hlength hrest htable hnumber hstays
  · intro hcount n
    rw [HeapFile.has_iff_lt hpos, taken, Nat.mod_eq_of_lt hcount]

/-- An 8 is inserted in the page after the 7 while a scan is on the 7, and is given as well. A 9 is
not, for which a page is added. -/
theorem rows_of_watched_numbers :
    let pages := Store.single Store.numbers 5 3 [1, 7, 0, 0, 0] 5
    let scan := HeapFile.scan ⟨Store.only, "rows", Store.numbers, 5⟩ ⟨2⟩
    let opened := (scan.start pages).2
    let eight := (opened.1, opened.2.meet (.action (Store.insertNumber ⟨1⟩ 8)))
    let once := (eight.1.next eight.2).2
    let twice := (once.1.next once.2).2
    let nine := (twice.1, twice.2.meet (.action (Store.insertNumber ⟨1⟩ 9)))
    let ended := (nine.1.hasNext nine.2).2
    let seven : Tuple := { Store.number 7 with record := some ⟨⟨Store.only, 0⟩, 0⟩ }
    let given : List Tuple :=
      [seven, { Store.number 8 with record := some ⟨⟨Store.only, 1⟩, 0⟩ }]
    let seen := [opened, eight, once, twice, nine]
    pages.Visited 3 ∧ scan.Opens pages opened ∧ Watched opened seen given nine ∧
      nine.1.hasNext nine.2 = (.ok false, ended) ∧
      (∀ m ∈ seen ++ [ended], m.2.shownAt ⟨⟨Store.only, 0⟩, 0⟩ = some seven.row) ∧
      nine.2.shownAt ⟨⟨Store.only, 2⟩, 0⟩ =
        some ((Store.number 9).rowAt ⟨⟨Store.only, 2⟩, 0⟩) ∧
      given.Pairwise Tuple.Before ∧ ∃ tuple ∈ given, tuple.row = seven.row := by
  intro pages scan opened eight once twice nine ended seven given seen
  have hvisited : pages.Visited 3 := .new rfl
  have hopens : scan.Opens pages opened := .inl (Prod.ext (by decide +kernel) rfl)
  have honce : eight.1.next eight.2 = (.ok seven, once) := Prod.ext (by decide +kernel) rfl
  have htwice : once.1.next once.2 =
      (.ok { Store.number 8 with record := some ⟨⟨Store.only, 1⟩, 0⟩ }, twice) :=
    Prod.ext (by decide +kernel) rfl
  have hended : nine.1.hasNext nine.2 = (.ok false, ended) := Prod.ext (by decide +kernel) rfl
  have hwatched : Watched opened seen given nine :=
    (((Watched.opened.event _).take honce).take htwice).event _
  have hstays : ∀ m ∈ seen ++ [ended],
      m.2.shownAt ⟨⟨Store.only, 0⟩, 0⟩ = some seven.row := by decide +kernel
  obtain ⟨hordered, -, -, hgiven, -⟩ := rows_of_watched hvisited hopens hwatched
  exact ⟨hvisited, hopens, hwatched, hended, hstays, by decide +kernel, hordered,
    (hgiven ended hended _ _ rfl hstays).2 (by decide +kernel)⟩

/-- The 7 is never given, where the page numbers are used up: no page is counted. -/
theorem row_not_given_though_it_stays :
    let scan := HeapFile.scan ⟨Store.only, "rows", Store.numbers, 5⟩ ⟨1⟩
    let opened := (scan.start Store.sevenAndZeros).2
    let ended := (opened.1.hasNext opened.2).2
    Store.sevenAndZeros.Initial ∧ Store.sevenAndZeros.Visited 1 ∧
      scan.Opens Store.sevenAndZeros opened ∧ Watched opened [opened] [] opened ∧
      opened.1.hasNext opened.2 = (.ok false, ended) ∧ scan.file.Has Store.sevenAndZeros.disk 0 ∧
      ∀ m ∈ [opened] ++ [ended], m.2.shownAt ⟨⟨Store.only, 0⟩, 0⟩ =
        some ((Store.number 7).rowAt ⟨⟨Store.only, 0⟩, 0⟩) := by
  intro scan opened ended
  refine ⟨Store.sevenAndZeros_initial, .new rfl, .inl (Prod.ext (by decide +kernel) rfl), .opened,
    Prod.ext (by decide +kernel) rfl, by decide +kernel, ?_⟩
  decide +kernel

end Scan

end Rowstore
