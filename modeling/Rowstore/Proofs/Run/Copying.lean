import Mathlib
import Rowstore.Proofs.Run.Rows
import Rowstore.Proofs.Store.Scans

/-!
# Copies of rows in their own table

A table is scanned, and rows that the scan gives are stored in the same table, each a copy of the
row in another record: `Copy`. The copies change no row that is there, `Store.Copied`.

The scan takes the rows of a page when it comes to it. A copy that is put on a page that the scan
has come to is not among the rows it gives, and one that is put on a later page is: what a scan
finds in a record is `Store.found`. The rows that it gave, and those it has ready, are the rows
found on the pages up to the one it is on, `Scan.Gathers`; each of its steps keeps this, and so does
storing a copy of a row of that page.

If all rows found that pass a test were copied, each row that was there is copied once, and so is
each copy that the scan finds: `Store.Copied.count_source`, `Store.Copied.count_place`. This gives
the count of the copies, `Store.Copied.length_eq`.
-/

namespace Rowstore

/-- A row that was stored in its own table: the record it was read from, and the one it was put
in. -/
structure Copy where
  source : RecordId
  place : RecordId
deriving DecidableEq

/-- The row was put on a later page than the one it was read from. -/
def Copy.Ahead (c : Copy) : Prop := c.source.page.number < c.place.page.number

instance (c : Copy) : Decidable c.Ahead := inferInstanceAs (Decidable (_ < _))

/-- The places of the copies that were put on later pages, of so many pages. -/
def Copy.laterPlaces (copies : List Copy) (pages : Nat) : List RecordId :=
  (copies.filter fun c => c.Ahead ∧ c.place.page.number < pages).map Copy.place

theorem Copy.mem_laterPlaces {copies : List Copy} {pages : Nat} {record : RecordId} :
    record ∈ laterPlaces copies pages ↔
      ∃ c ∈ copies, (c.Ahead ∧ c.place.page.number < pages) ∧ c.place = record := by
  simp only [laterPlaces, List.mem_map, List.mem_filter, decide_eq_true_eq, and_assoc]

/-- The row as it is in a record. -/
def Row.at (row : Row) (record : RecordId) : Row := { row with record := some record }

namespace Store

variable {s t u : Store} {table : TableId} {f : HeapFile} {copies : List Copy} {c : Copy}
  {record : RecordId} {row : Row}

/-! ### The rows of the table -/

/-- Rows were copied within a table. Every copy is in a place of its own that was free, and all rows
that were there are as they were. -/
structure Copied (s t : Store) (table : TableId) (copies : List Copy) : Prop where
  nodup : (copies.map Copy.place).Nodup
  free : ∀ c ∈ copies, c.place.page.table = table ∧ s.shownAt c.place = none
  same : ∀ c ∈ copies, ∃ row, t.shownAt c.source = some row ∧
    t.shownAt c.place = some (row.at c.place)
  others : ∀ record, record ∉ copies.map Copy.place → t.shownAt record = s.shownAt record

theorem Copied.refl (s : Store) (table : TableId) : s.Copied s table [] :=
  ⟨.nil, nofun, nofun, fun _ _ => rfl⟩

theorem Copied.of_shown (h : s.Copied t table copies) (hshown : u.shownAt = t.shownAt) :
    s.Copied u table copies where
  nodup := h.nodup
  free := h.free
  same := hshown ▸ h.same
  others := hshown ▸ h.others

theorem Copied.nodup_laterPlaces (h : s.Copied t table copies) (pages : Nat) :
    (Copy.laterPlaces copies pages).Nodup := h.nodup.sublist (List.filter_sublist.map _)

/-- A row that was there is still there, in a record that no copy was put in. -/
theorem Copied.kept (h : s.Copied t table copies) (hrow : s.shownAt record = some row) :
    t.shownAt record = some row ∧ record ∉ copies.map Copy.place := by
  have hplace : record ∉ copies.map Copy.place := by
    rintro hmem
    obtain ⟨c, hc, rfl⟩ := List.mem_map.1 hmem
    exact nomatch hrow.symm.trans (h.free c hc).2
  exact ⟨(h.others record hplace).trans hrow, hplace⟩

/-- Another row is copied. -/
theorem Copied.snoc (h : s.Copied t table copies) (hsource : t.shownAt c.source = some row)
    (htable : c.place.page.table = table) (hfree : t.shownAt c.place = none)
    (hshown : u.shownAt = Function.update t.shownAt c.place (some (row.at c.place))) :
    s.Copied u table (copies ++ [c]) := by
  have hnew : c.place ∉ copies.map Copy.place := by
    rintro hmem
    obtain ⟨c', hc', hplace⟩ := List.mem_map.1 hmem
    obtain ⟨row', -, hrow'⟩ := h.same c' hc'
    rw [hplace, hfree] at hrow'
    cases hrow'
  have hkeeps : ∀ {record row'}, t.shownAt record = some row' → u.shownAt record = some row' := by
    intro record row' hrow'
    rw [hshown, Function.update_of_ne, hrow']
    rintro rfl
    cases hfree.symm.trans hrow'
  constructor
  · rw [List.map_append]
    exact h.nodup.append (List.nodup_singleton _) (List.disjoint_singleton.2 hnew)
  · intro c' hc'
    rcases List.mem_append.1 hc' with hc' | hc'
    · exact h.free c' hc'
    · rw [List.mem_singleton.1 hc']
      exact ⟨htable, (h.others _ hnew).symm.trans hfree⟩
  · intro c' hc'
    rcases List.mem_append.1 hc' with hc' | hc'
    · obtain ⟨row', hrow', hplace⟩ := h.same c' hc'
      exact ⟨row', hkeeps hrow', hkeeps hplace⟩
    · rw [List.mem_singleton.1 hc']
      exact ⟨row, hkeeps hsource, by rw [hshown, Function.update_self]⟩
  · intro record hrecord
    rw [List.map_append, List.mem_append, not_or] at hrecord
    have hne : record ≠ c.place := fun heq => hrecord.2 (by simp [heq])
    rw [hshown, Function.update_of_ne hne, h.others record hrecord.1]

/-! ### What a scan finds -/

/-- The row that a scan finds in a record: none if a copy was put there when the scan had come to
the page. -/
def found (t : Store) (copies : List Copy) (record : RecordId) : Option Row :=
  if ∃ c ∈ copies, c.place = record ∧ ¬ c.Ahead then none else t.shownAt record

theorem shownAt_of_found (h : t.found copies record = some row) : t.shownAt record = some row := by
  unfold found at h
  split_ifs at h
  exact h

/-- A scan finds the rows that are in no place of a copy. -/
theorem found_of_notMem (h : record ∉ copies.map Copy.place) :
    t.found copies record = t.shownAt record := by
  refine if_neg ?_
  rintro ⟨c, hc, rfl, -⟩
  exact h (List.mem_map_of_mem hc)

/-- A scan finds a copy if it was put on a page that the scan had not come to. -/
theorem Copied.found_place (h : s.Copied t table copies) (hc : c ∈ copies) :
    t.found copies c.place = if c.Ahead then t.shownAt c.place else none := by
  have hiff : (∃ c' ∈ copies, c'.place = c.place ∧ ¬ c'.Ahead) ↔ ¬ c.Ahead := by
    refine ⟨?_, fun hbehind => ⟨c, hc, rfl, hbehind⟩⟩
    rintro ⟨c', hc', hplace, hbehind⟩
    rwa [← List.inj_on_of_nodup_map h.nodup hc' hc hplace]
  unfold found
  simp only [hiff, ite_not]

/-- On the pages that a scan has not come to it will find what is there. -/
theorem found_of_lt {page : Nat} (h : ∀ c ∈ copies, c.source.page.number ≤ page)
    (hlt : page < record.page.number) : t.found copies record = t.shownAt record := by
  refine if_neg ?_
  rintro ⟨c, hc, rfl, hbehind⟩
  exact hbehind ((h c hc).trans_lt hlt)

/-- A copy of a row of the page that the scan is on changes nothing of what it found. -/
theorem found_snoc (hfree : t.shownAt c.place = none) {o : Option Row}
    (hshown : u.shownAt = Function.update t.shownAt c.place o)
    (hle : record.page.number ≤ c.source.page.number) :
    u.found (copies ++ [c]) record = t.found copies record := by
  by_cases hplace : c.place = record
  · subst hplace
    have hbehind : ∃ c' ∈ copies ++ [c], c'.place = c.place ∧ ¬ c'.Ahead :=
      ⟨c, by simp, rfl, Nat.not_lt.2 hle⟩
    rw [found, if_pos hbehind, found, hfree, ite_self]
  · have hiff : (∃ c' ∈ copies ++ [c], c'.place = record ∧ ¬ c'.Ahead) ↔
        ∃ c' ∈ copies, c'.place = record ∧ ¬ c'.Ahead := by
      simp [or_and_right, exists_or, hplace]
    simp only [found, hiff, hshown, Function.update_of_ne (Ne.symm hplace)]

theorem found_congr (hshown : u.shownAt = t.shownAt) (copies : List Copy) :
    u.found copies = t.found copies := by
  unfold found
  rw [hshown]

/-- The rows of a page that is read are those of its records, and carry them. -/
theorem Backed.load (h : s.Backed) {scan : Scan} {rows : List Tuple} {n : Nat}
    (hf : s.catalog.file scan.file.table = .ok f) (hload : scan.load s n = (.ok rows, t)) :
    s.Stays t ∧ (rows.map Tuple.row = (List.range f.slots).filterMap fun i =>
        s.shownAt ⟨⟨scan.file.table, n⟩, i⟩) ∧
      ∀ row ∈ rows, ∃ i, row.record = some ⟨⟨scan.file.table, n⟩, i⟩ := by
  unfold Scan.load at hload
  cases hacquire : s.acquire scan.tx ⟨scan.file.table, n⟩ with
  | error cause =>
    rw [hacquire] at hload
    cases hload
  | ok given =>
    obtain ⟨page, u⟩ := given
    rw [hacquire] at hload
    cases hload
    obtain ⟨hstays, hpage⟩ := h.acquire hacquire
    have hrows : page.rows.map Tuple.row = s.pageRows ⟨scan.file.table, n⟩ := by
      rw [pageRows, ← hstays.shown_eq, shown_of_page? hpage]
      simp [Page.rows, Page.cells, List.reduceOption, List.map_filterMap, List.filterMap_map]
    refine ⟨hstays, hrows.trans (h.pageRows_eq hf n), fun row hrow => ?_⟩
    obtain ⟨o, ho, rfl⟩ := List.mem_filterMap.1 hrow
    obtain ⟨i, hi⟩ := List.mem_iff_getElem?.1 ho
    obtain ⟨g, -, hholds, -⟩ := hstays.1.backed.cached hpage
    refine ⟨i, (hholds.sound.row_ok i row hi).2.1.trans ?_⟩
    rw [(Pool.mem_of_page? hpage).2]

end Store

namespace Scan

variable {s t : Store} {f : HeapFile} {copies : List Copy} {c : Copy} {scan scan' : Scan}
  {given : List Row} {row : Tuple}

/-! ### A scan of the table -/

/-- The rows that a scan gave, and those it has ready, are the rows found on the pages up to the one
it is on, and no row of a later one was copied. -/
structure Gathers (scan : Scan) (s : Store) (f : HeapFile) (copies : List Copy)
    (given : List Row) : Prop where
  file_eq : scan.file = f
  page_lt : 0 < scan.pageCount → scan.page < scan.pageCount
  rows_eq : ∃ rest, scan.rest = some rest ∧ given ++ rest.map Tuple.row =
    rowsOf (s.found copies) f.table (min scan.pageCount (scan.page + 1)) f.slots
  here : ∀ rest, scan.rest = some rest → ∀ row ∈ rest, ∃ record : RecordId,
    row.record = some record ∧ record.page.number = scan.page
  behind : ∀ c ∈ copies, c.source.page.number ≤ scan.page

theorem shownAt_of_stays (h : s.Stays t) : t.shownAt = s.shownAt := by
  rw [Store.shownAt, h.shown_eq, Store.shownAt]

/-- The scan is opened. -/
theorem gathers_of_start (hs : s.Backed) (hf : s.catalog.file scan.file.table = .ok scan.file)
    (h : scan.start s = (.ok (), scan', t)) :
    s.Stays t ∧ scan'.pageCount = scan.file.wholePages s.disk % HeapFile.pageNumbers ∧
      scan'.Gathers t scan.file [] [] := by
  unfold start HeapFile.pageCount at h
  split_ifs at h with hsize
  · cases h
  dsimp only at h
  split_ifs at h with hcount
  · cases h
    refine ⟨hs.stays_self, rfl, rfl, fun hpos => absurd hcount hpos.ne', ⟨[], rfl, ?_⟩, ?_, nofun⟩
    · rw [hcount, Nat.zero_min]
      rfl
    · rintro _ ⟨⟩
      exact nofun
  · obtain ⟨rows, u, hload, h⟩ := Outcome.andThen_eq_ok_iff.1 h
    cases h
    obtain ⟨hstays, hrows, hrecords⟩ := hs.load hf hload
    refine ⟨hstays, rfl, rfl, id, ⟨rows, rfl, ?_⟩, ?_, nofun⟩
    · have hone : min ((scan.file.wholePages s.disk) % HeapFile.pageNumbers) (0 + 1) = 1 := by
        have := Nat.pos_of_ne_zero hcount
        exact Nat.min_eq_right this
      show [] ++ rows.map Tuple.row = rowsOf _ _ (min _ (0 + 1)) _
      rw [HeapFile.wholePages] at hone
      rw [hone, rowsOf_succ, List.nil_append, hrows]
      refine List.filterMap_congr fun i _ => ?_
      rw [Store.found_of_notMem List.not_mem_nil, shownAt_of_stays hstays]
    · rintro _ ⟨⟩ row hrow
      obtain ⟨i, hi⟩ := hrecords row hrow
      exact ⟨_, hi, rfl⟩

/-- The scan comes to the next page. -/
theorem Gathers.load (h : scan.Gathers s f copies given) (hs : s.Backed)
    (hf : s.catalog.file f.table = .ok f) (hrest : scan.rest = some [])
    (hlt : scan.page + 1 < scan.pageCount) {rows : List Tuple}
    (hload : load { scan with page := scan.page + 1 } s (scan.page + 1) = (.ok rows, t)) :
    s.Stays t ∧
      Gathers { scan with page := scan.page + 1, rest := some rows } t f copies given := by
  obtain rfl := h.file_eq
  obtain ⟨hstays, hrows, hrecords⟩ := hs.load hf hload
  have hshown := shownAt_of_stays hstays
  refine ⟨hstays, rfl, fun _ => hlt, ⟨rows, rfl, ?_⟩, ?_, fun c hc => (h.behind c hc).trans
    (Nat.le_succ _)⟩
  · obtain ⟨rest, hrest', hall⟩ := h.rows_eq
    cases hrest.symm.trans hrest'
    rw [List.map_nil, List.append_nil, Nat.min_eq_right hlt.le] at hall
    rw [Nat.min_eq_right hlt, rowsOf_succ, Store.found_congr hshown, ← hall, hrows]
    congr 1
    exact List.filterMap_congr fun i _ =>
      (Store.found_of_lt h.behind (Nat.lt_succ_self scan.page)).symm
  · rintro _ ⟨⟩ row hrow
    obtain ⟨i, hi⟩ := hrecords row hrow
    exact ⟨_, hi, rfl⟩

/-- The scan goes on to a page that has rows, if there is one. -/
theorem Gathers.seek (h : scan.Gathers s f copies given) (hs : s.Backed)
    (hf : s.catalog.file f.table = .ok f) (hrest : scan.rest = some []) {n : Nat} {more : Bool}
    (hlength : scan.page + n < scan.pageCount ∨ n = 0)
    (hseek : scan.seek s n = (.ok more, scan', t)) :
    s.Stays t ∧ scan'.Gathers t f copies given ∧ scan'.pageCount = scan.pageCount ∧
      (more = true → scan'.rest ≠ some []) ∧
      (more = false → scan'.rest = some [] ∧ scan'.page = scan.page + n) := by
  induction n generalizing s scan with
  | zero =>
    cases hseek
    exact ⟨hs.stays_self, h, rfl, by simp, fun _ => ⟨hrest, rfl⟩⟩
  | succ n ih =>
    unfold Scan.seek at hseek
    dsimp only at hseek
    obtain ⟨rows, u, hload, hseek⟩ := Outcome.andThen_eq_ok_iff.1 hseek
    obtain ⟨hstays, hgathers⟩ := h.load hs hf hrest (by omega) hload
    split_ifs at hseek with hempty
    · obtain ⟨hstays', hgathers', hcount, hmore, hend⟩ := ih hgathers hstays.1.backed
        (hstays.1.catalog_eq ▸ hf) (by rw [List.isEmpty_iff.1 hempty]) (by simp only; omega) hseek
      refine ⟨hstays.trans hstays', hgathers', hcount, hmore, fun hnone => ?_⟩
      obtain ⟨hnil, hpage⟩ := hend hnone
      exact ⟨hnil, by rw [hpage]; simp only; omega⟩
    · cases hseek
      refine ⟨hstays, hgathers, rfl, fun _ hnil => hempty ?_, by simp⟩
      rw [Option.some.inj hnil]
      rfl

/-- The scan looks for another row. If there is none it has come to its last page. -/
theorem Gathers.look (h : scan.Gathers s f copies given) (hs : s.Backed)
    (hf : s.catalog.file f.table = .ok f) {more : Bool}
    (hlook : scan.hasNext s = (.ok more, scan', t)) :
    s.Stays t ∧ scan'.Gathers t f copies given ∧ scan'.pageCount = scan.pageCount ∧
      (more = true → scan'.rest ≠ some []) ∧
      (more = false → scan'.rest = some [] ∧ scan'.pageCount ≤ scan'.page + 1) := by
  obtain ⟨rest, hrest, -⟩ := h.rows_eq
  cases rest with
  | cons row rest =>
    rw [hasNext_of_rest hrest] at hlook
    cases hlook
    exact ⟨hs.stays_self, h, rfl, fun _ hnil => (nomatch hrest.symm.trans hnil), nofun⟩
  | nil =>
    unfold hasNext at hlook
    rw [hrest] at hlook
    have hpage := h.page_lt
    obtain ⟨hstays, hgathers, hcount, hmore, hend⟩ := h.seek hs hf hrest (by omega) hlook
    refine ⟨hstays, hgathers, hcount, hmore, fun hnone => ?_⟩
    obtain ⟨hnil, hpage'⟩ := hend hnone
    exact ⟨hnil, by omega⟩

/-- The first of the rows that are ready is given. -/
theorem Gathers.give (h : scan.Gathers s f copies given) {rest : List Tuple}
    (hrest : scan.rest = some (row :: rest)) :
    Gathers { scan with rest := some rest } s f copies (given ++ [row.row]) where
  file_eq := h.file_eq
  page_lt := h.page_lt
  rows_eq := by
    obtain ⟨rest₀, hrest₀, hall⟩ := h.rows_eq
    cases hrest.symm.trans hrest₀
    exact ⟨rest, rfl, by rw [List.append_assoc]; exact hall⟩
  here := by
    rintro _ ⟨⟩ other hother
    exact h.here _ hrest other (List.mem_cons_of_mem _ hother)
  behind := h.behind

/-- A row of the page that the scan is on is copied. -/
theorem Gathers.copy (h : scan.Gathers s f copies given) (hfree : s.shownAt c.place = none)
    {o : Option Row} (hshown : t.shownAt = Function.update s.shownAt c.place o)
    (hsource : c.source.page.number = scan.page) :
    scan.Gathers t f (copies ++ [c]) given where
  file_eq := h.file_eq
  page_lt := h.page_lt
  rows_eq := by
    obtain ⟨rest, hrest, hall⟩ := h.rows_eq
    refine ⟨rest, hrest, hall.trans (rowsOf_congr fun record _ hlt => ?_)⟩
    exact (Store.found_snoc hfree hshown (by omega)).symm
  here := h.here
  behind := fun c' hc' => by
    rcases List.mem_append.1 hc' with hc' | hc'
    · exact h.behind c' hc'
    · rw [List.mem_singleton.1 hc', hsource]

end Scan

namespace Store

variable {s t : Store} {table : TableId} {f : HeapFile} {copies : List Copy} {c : Copy}
  {record : RecordId} {row : Row} {pages : Nat} {q : Row → Bool}

/-! ### All rows that are found -/

/-- The records, in order, in which a scan of so many pages finds a row that passes a test. -/
def sources (t : Store) (f : HeapFile) (pages : Nat) (copies : List Copy) (q : Row → Bool) :
    List RecordId :=
  (recordsOf f.table pages f.slots).filter fun record => (t.found copies record).any q

/-- The rows that a scan gave are from the records it finds them in. -/
theorem Backed.map_source_eq (h : t.Backed)
    (hcopies : copies.map (some ∘ Copy.source) =
      ((rowsOf (t.found copies) f.table pages f.slots).filter q).map Row.record) :
    copies.map Copy.source = t.sources f pages copies q := by
  have hrecords : ∀ records : List RecordId,
      ((records.filterMap (t.found copies)).filter q).map Row.record =
        (records.filter fun record => (t.found copies record).any q).map some := by
    intro records
    induction records with
    | nil => rfl
    | cons record records ih =>
      cases hfound : t.found copies record with
      | none => simpa [hfound] using ih
      | some row =>
        have hrecord := (h.row_of_shownAt (shownAt_of_found hfound)).1
        cases hq : q row <;> simpa [hfound, hq, hrecord] using ih
  rw [rowsOf_eq_filterMap, hrecords, ← List.map_map] at hcopies
  exact List.map_injective_iff.2 (Option.some_injective _) hcopies

theorem nodup_sources (t : Store) (f : HeapFile) (pages : Nat) (copies : List Copy)
    (q : Row → Bool) : (t.sources f pages copies q).Nodup :=
  (nodup_recordsOf f.table pages f.slots).filter _

theorem mem_sources : record ∈ t.sources f pages copies q ↔
    record ∈ recordsOf f.table pages f.slots ∧ ∃ row, t.found copies record = some row ∧ q row := by
  rw [sources, List.mem_filter, Option.any_eq_true]

/-- A record of a row that is shown is one of those that are counted. -/
theorem Backed.mem_recordsOf (h : s.Backed) (hf : s.catalog.file table = .ok f)
    (htable : record.page.table = table) (hrow : s.shownAt record = some row) :
    record ∈ recordsOf table (s.wholePages table) f.slots := by
  subst htable
  obtain ⟨-, g, hg, hslot, hstored, -⟩ := h.row_of_shownAt hrow
  cases hf.symm.trans hg
  have hpos := pageSize_pos_of_slots (Nat.zero_lt_of_lt hslot)
  refine Rowstore.mem_recordsOf.2 ⟨rfl, ?_, hslot⟩
  rw [wholePages_eq hf, ← HeapFile.has_iff_lt hpos]
  exact has_of_stored hf hstored

/-- The rows of a table that pass a test, counted by their records. -/
theorem Backed.countP_tableRows (h : s.Backed) (hf : s.catalog.file table = .ok f)
    (hcount : f.Countable s.disk) : (s.tableRows table).countP q =
      (recordsOf table (s.wholePages table) f.slots).countP fun record =>
        (s.shownAt record).any q := by
  rw [h.tableRows_eq hf hcount, rowsOf_eq_filterMap, List.countP_filterMap]
  refine List.countP_congr fun record _ => ?_
  cases s.shownAt record <;> simp

/-- Each element that is counted is of one of two kinds. -/
theorem countP_of_either {α : Type} {p q r : α → Bool} {l : List α}
    (h : ∀ a ∈ l, p a = (q a || r a) ∧ ¬ (q a ∧ r a)) : l.countP p = l.countP q + l.countP r := by
  induction l with
  | nil => rfl
  | cons a l ih =>
    obtain ⟨heq, hnot⟩ := h a (by simp)
    rw [List.countP_cons, List.countP_cons, List.countP_cons, heq,
      ih fun b hb => h b (List.mem_cons_of_mem _ hb)]
    cases hq : q a <;> cases hr : r a <;> simp_all <;> omega

section Copied

variable (h : s.Copied t f.table copies) (hf : s.catalog.file f.table = .ok f)
  (hall : copies.map Copy.source = t.sources f (s.wholePages f.table) copies q)
  (ht : t.Backed) (hcatalog : t.catalog = s.catalog)
  (hq : ∀ row record, q (Row.at row record) = q row)

include h hf hall

/-- A row that was there, and passes the test, was copied once. -/
theorem Copied.count_source (hs : s.Backed) (hrow : s.shownAt record = some row)
    (htable : record.page.table = f.table) (hpass : q row) :
    (copies.map Copy.source).count record = 1 := by
  obtain ⟨hkept, hplace⟩ := h.kept hrow
  rw [hall]
  refine List.count_eq_one_of_mem (t.nodup_sources f _ copies q)
    (mem_sources.2 ⟨?_, row, ?_, hpass⟩)
  · exact hs.mem_recordsOf hf htable hrow
  · rw [found_of_notMem hplace, hkept]

include ht hcatalog hq

/-- A copy is a row that passes the test. -/
theorem Copied.exists_place (hc : c ∈ copies) :
    ∃ row, t.shownAt c.place = some row ∧ q row ∧ c.place.slot < f.slots := by
  have hsource : c.source ∈ t.sources f (s.wholePages f.table) copies q :=
    hall ▸ List.mem_map_of_mem hc
  obtain ⟨-, row, hfound, hpass⟩ := mem_sources.1 hsource
  obtain ⟨row', hrow', hplace⟩ := h.same c hc
  cases (shownAt_of_found hfound).symm.trans hrow'
  obtain ⟨-, g, hg, hslot, -⟩ := ht.row_of_shownAt hplace
  rw [hcatalog, (h.free c hc).1, hf] at hg
  cases hg
  exact ⟨_, hplace, by rwa [hq], hslot⟩

/-- A copy was copied, once, if it was put on a later page than the one it was read from, and on one
of those that were counted. -/
theorem Copied.count_place (hc : c ∈ copies) : (copies.map Copy.source).count c.place =
    if c.Ahead ∧ c.place.page.number < s.wholePages f.table then 1 else 0 := by
  obtain ⟨row, hrow, hpass, hslot⟩ := h.exists_place hf hall ht hcatalog hq hc
  rw [hall]
  split_ifs with hfinds
  · refine List.count_eq_one_of_mem (t.nodup_sources f _ copies q)
      (mem_sources.2 ⟨?_, row, ?_, hpass⟩)
    · exact Rowstore.mem_recordsOf.2 ⟨(h.free c hc).1, hfinds.2, hslot⟩
    · rw [h.found_place hc, if_pos hfinds.1, hrow]
  · refine List.count_eq_zero_of_not_mem fun hmem => hfinds ?_
    obtain ⟨hrecord, row', hfound, -⟩ := mem_sources.1 hmem
    refine ⟨?_, (Rowstore.mem_recordsOf.1 hrecord).2.1⟩
    rw [h.found_place hc] at hfound
    by_contra hbehind
    rw [if_neg hbehind] at hfound
    cases hfound

/-- In each record a scan finds a row that was there, or a copy. -/
theorem Copied.found_either
    (hrecord : record ∈ recordsOf f.table (s.wholePages f.table) f.slots) :
    (t.found copies record).any q = ((s.shownAt record).any q ||
        decide (record ∈ Copy.laterPlaces copies (s.wholePages f.table))) ∧
      ¬ ((s.shownAt record).any q ∧
        decide (record ∈ Copy.laterPlaces copies (s.wholePages f.table)) = true) := by
  by_cases hplace : record ∈ copies.map Copy.place
  · obtain ⟨c, hc, rfl⟩ := List.mem_map.1 hplace
    obtain ⟨row, hrow, hpass, -⟩ := h.exists_place hf hall ht hcatalog hq hc
    have hlater : c.place ∈ Copy.laterPlaces copies (s.wholePages f.table) ↔ c.Ahead := by
      rw [Copy.mem_laterPlaces]
      constructor
      · rintro ⟨c', hc', hfinds, heq⟩
        rw [← List.inj_on_of_nodup_map h.nodup hc' hc heq]
        exact hfinds.1
      · exact fun hahead => ⟨c, hc, ⟨hahead, (Rowstore.mem_recordsOf.1 hrecord).2.1⟩, rfl⟩
    rw [h.found_place hc, (h.free c hc).2]
    simp only [hlater]
    split_ifs with hahead <;> simp [hrow, hpass, hahead]
  · have hlater : record ∉ Copy.laterPlaces copies (s.wholePages f.table) := by
      rw [Copy.mem_laterPlaces]
      rintro ⟨c, hc, -, rfl⟩
      exact hplace (List.mem_map_of_mem hc)
    rw [found_of_notMem hplace, h.others record hplace]
    simp [hlater]

/-- The copies that a scan finds are in records that it comes to. -/
theorem Copied.countP_laterPlaces :
    (recordsOf f.table (s.wholePages f.table) f.slots).countP
        (· ∈ Copy.laterPlaces copies (s.wholePages f.table)) =
      copies.countP fun c => c.Ahead ∧ c.place.page.number < s.wholePages f.table := by
  have hperm : ((recordsOf f.table (s.wholePages f.table) f.slots).filter
      (· ∈ Copy.laterPlaces copies (s.wholePages f.table))).Perm
      (Copy.laterPlaces copies (s.wholePages f.table)) := by
    refine (List.perm_ext_iff_of_nodup ((nodup_recordsOf _ _ _).filter _)
      (h.nodup_laterPlaces _)).2 fun record => ?_
    rw [List.mem_filter, decide_eq_true_eq, and_iff_right_iff_imp]
    intro hlater
    obtain ⟨c, hc, hfinds, rfl⟩ := Copy.mem_laterPlaces.1 hlater
    obtain ⟨-, -, -, hslot⟩ := h.exists_place hf hall ht hcatalog hq hc
    exact Rowstore.mem_recordsOf.2 ⟨(h.free c hc).1, hfinds.2, hslot⟩
  rw [List.countP_eq_length_filter, hperm.length_eq, Copy.laterPlaces, List.length_map,
    List.countP_eq_length_filter]

/-- There are as many copies as rows that pass the test, and one more for each copy that the scan
finds. -/
theorem Copied.length_eq (hs : s.Backed) (hcount : f.Countable s.disk) : copies.length =
    (s.tableRows f.table).countP q +
      copies.countP fun c => c.Ahead ∧ c.place.page.number < s.wholePages f.table :=
  calc copies.length = (copies.map Copy.source).length := (List.length_map _).symm
    _ = (recordsOf f.table (s.wholePages f.table) f.slots).countP fun record =>
        (t.found copies record).any q := by
      rw [hall, sources, List.countP_eq_length_filter]
    _ = _ := by
      rw [countP_of_either fun record => h.found_either hf hall ht hcatalog hq,
        hs.countP_tableRows hf hcount, h.countP_laterPlaces hf hall ht hcatalog hq]

end Copied

end Store

end Rowstore
