import Mathlib
import Rowstore.Proofs.Store.Paging

/-!
# Scans

What a scan finds in a sound store. `Scan.drain` is a reader that asks for rows until there are
none, and `Store.scanTable` a scan of a table from the first page to the last.

* No move of a scan changes what the store shows: `Store.Backed.stays_of_acquires`.
* A table is scanned to the end unless the pool is full, and then the rows of all its pages were
  found, in page order and slot order: `Store.Sound.scanTable`. A pool that has room for all pages
  is not filled up.
-/

namespace Rowstore

/-! ### Reading to the end -/

namespace Scan

variable {s t : Store} {scan scan' : Scan}

/-- Going on to another page leads further, within the pages allowed. -/
theorem lt_of_seek {pages : Nat} (h : scan.seek s pages = (.ok true, scan', t)) :
    scan.page < scan'.page ∧ scan'.page ≤ scan.page + pages ∧
      scan'.pageCount = scan.pageCount ∧ ∃ row rest, scan'.rest = some (row :: rest) := by
  induction pages generalizing s scan with
  | zero => cases h
  | succ pages ih =>
    unfold seek at h
    simp only at h
    generalize load { scan with page := scan.page + 1 } s (scan.page + 1) = o at h
    obtain ⟨cause | rows, u⟩ := o
    · cases h
    · simp only [Outcome.andThen_ok] at h
      split_ifs at h with hnil
      · obtain ⟨hlt, hle, hrest⟩ := ih h
        simp only at hlt hle
        exact ⟨by omega, by omega, hrest⟩
      · cases h
        obtain ⟨row, rest, rfl⟩ := List.exists_cons_of_ne_nil (List.isEmpty_iff.not.1 hnil)
        exact ⟨Nat.lt_succ_self _, by simp only; omega, rfl, row, rest, rfl⟩

theorem hasNext_of_rest {row : Tuple} {rest : List Tuple} (h : scan.rest = some (row :: rest)) :
    scan.hasNext s = (.ok true, scan, s) := by
  unfold hasNext
  rw [h]

theorem next_of_rest {row : Tuple} {rest : List Tuple} (h : scan.rest = some (row :: rest)) :
    scan.next s = (.ok row, { scan with rest := some rest }, s) := by
  rw [next, hasNext_of_rest h, Outcome.andThen_ok]
  simp only [h]

/-- A place that was given out is followed by fewer pages, or by fewer rows of its page. -/
theorem next_lt {u : Store} {scan'' : Scan} {row : Tuple}
    (hmore : scan.hasNext s = (.ok true, scan', t))
    (hrow : scan'.next t = (.ok row, scan'', u)) :
    Prod.Lex (· < ·) (· < ·) (scan''.pageCount - scan''.page, (scan''.rest.getD []).length)
      (scan.pageCount - scan.page, (scan.rest.getD []).length) := by
  cases hrest : scan.rest with
  | none =>
    rw [hasNext, hrest] at hmore
    cases hmore
  | some rows =>
    cases rows with
    | nil =>
      rw [hasNext, hrest] at hmore
      obtain ⟨hlt, hle, hcount, first, rest, hfound⟩ := lt_of_seek hmore
      rw [next_of_rest hfound] at hrow
      cases hrow
      exact .left _ _ (by simp only; omega)
    | cons first rest =>
      rw [hasNext_of_rest hrest] at hmore
      cases hmore
      rw [next_of_rest hrest] at hrow
      cases hrow
      exact .right _ (by simp)

/-- The rows that a reader gets who asks for rows until there are none. -/
def drain (scan : Scan) (s : Store) : Outcome Store (List Tuple) :=
  match _hmore : scan.hasNext s with
  | (.error cause, _, t) => (.error cause, t)
  | (.ok false, _, t) => (.ok [], t)
  | (.ok true, scan', t) =>
    match _hrow : scan'.next t with
    | (.error cause, _, u) => (.error cause, u)
    | (.ok row, scan'', u) => (scan''.drain u).andThen id fun rows v => (.ok (row :: rows), v)
termination_by (scan.pageCount - scan.page, (scan.rest.getD []).length)
decreasing_by exact next_lt _hmore _hrow

theorem drain_of_error {cause : DbError} (h : scan.hasNext s = (.error cause, scan', t)) :
    scan.drain s = (.error cause, t) := by
  rw [drain]
  split <;> rename_i heq <;> cases h.symm.trans heq
  rfl

theorem drain_of_done (h : scan.hasNext s = (.ok false, scan', t)) :
    scan.drain s = (.ok [], t) := by
  rw [drain]
  split <;> rename_i heq <;> cases h.symm.trans heq
  rfl

theorem drain_of_row {row : Tuple} {rest : List Tuple}
    (h : scan.hasNext s = (.ok true, scan', t)) (hrest : scan'.rest = some (row :: rest)) :
    scan.drain s = ({ scan' with rest := some rest }.drain t).andThen id fun rows u =>
      (.ok (row :: rows), u) := by
  rw [drain]
  split <;> rename_i heq <;> cases h.symm.trans heq
  have hnext := next_of_rest (s := t) hrest
  split <;> rename_i hrow <;> cases hnext.symm.trans hrow
  rfl

end Scan

namespace Store

variable {s t : Store} {tx : TxId} {table : TableId} {id : PageId} {scan : Scan}

/-! ### The rows of a table -/

/-- The rows of a page, in slot order. -/
def pageRows (s : Store) (id : PageId) : List Row := ((s.shown id).getD []).reduceOption

/-- The rows of so many pages of a table, from a number on. -/
def rowsFrom (s : Store) (table : TableId) (first pages : Nat) : List Row :=
  (List.range' first pages).flatMap fun n => s.pageRows ⟨table, n⟩

/-- The rows of a table, in page order and slot order. -/
def tableRows (s : Store) (table : TableId) : List Row :=
  match s.pageCount table with
  | .error _ => []
  | .ok count => s.rowsFrom table 0 count

/-- The rows on all whole pages of a table, in page order and slot order. -/
def allRows (s : Store) (table : TableId) : List Row := s.rowsFrom table 0 (s.wholePages table)

/-- The pages of a table that has no more of them than there are page numbers are all counted. -/
theorem tableRows_eq_allRows
    (h : ∀ f, s.catalog.file table = .ok f → f.Countable s.disk) :
    s.tableRows table = s.allRows table := by
  unfold tableRows allRows pageCount
  cases hf : s.catalog.file table with
  | error cause => rw [wholePages, hf]; rfl
  | ok f =>
    rw [wholePages_eq hf]
    show (match f.pageCount s.disk with
      | .error _ => []
      | .ok count => s.rowsFrom table 0 count) = _
    unfold HeapFile.pageCount
    split_ifs with hzero
    · -- pages of no size are none
      rw [HeapFile.wholePages, hzero, Nat.div_zero]
      rfl
    · show s.rowsFrom table 0 (f.wholePages s.disk % HeapFile.pageNumbers) = _
      rw [Nat.mod_eq_of_lt (h f hf)]

theorem rowsFrom_succ (first pages : Nat) :
    s.rowsFrom table first (pages + 1) =
      s.pageRows ⟨table, first⟩ ++ s.rowsFrom table (first + 1) pages := by
  rw [rowsFrom, List.range'_succ, List.flatMap_cons, rowsFrom]

theorem pageRows_congr (h : t.shown = s.shown) : t.pageRows id = s.pageRows id := by
  rw [pageRows, h, pageRows]

theorem rowsFrom_congr (h : t.shown = s.shown) (first pages : Nat) :
    t.rowsFrom table first pages = s.rowsFrom table first pages := by
  simp only [rowsFrom, pageRows_congr h]

/-- So many pages of a table are there, from a number on. -/
def HasPages (s : Store) (table : TableId) (first pages : Nat) : Prop :=
  ∀ n, first ≤ n → n < first + pages → (s.stored ⟨table, n⟩).isSome

theorem Keeps.hasPages (h : s.Keeps t) {first pages : Nat}
    (h' : s.HasPages table first pages) : t.HasPages table first pages := fun n hle hlt => by
  rw [h.stored_eq]
  exact h' n hle hlt

/-! ### Room in the pool -/

/-- Giving out a page takes at most one frame. -/
theorem frames_of_acquire {page : Page} (h : s.acquire tx id = .ok (page, t)) :
    t.pool.capacity = s.pool.capacity ∧
      t.pool.frames.length ≤ s.pool.frames.length + 1 := by
  rcases acquire_cases h with ⟨-, rfl⟩ | ⟨f, pool, -, -, -, hload, rfl⟩
  · exact ⟨rfl, Nat.le_succ _⟩
  · rcases Pool.load_cases hload with rfl | ⟨victim, -, rfl⟩
    · simp [Pool.hold, Pool.push]
    · simp [Pool.hold, Pool.push, Pool.discard, List.length_filter_le]

/-- A page that is there can be given out unless the pool is full. -/
theorem acquire_error (hstored : (s.stored id).isSome) {cause : DbError}
    (hacquire : s.acquire tx id = .error cause) :
    cause = .bufferPoolFull ∧ s.pool.capacity ≤ s.pool.frames.length := by
  unfold acquire at hacquire
  split at hacquire
  · cases hacquire
  · obtain ⟨cells, hcells⟩ := Option.isSome_iff_exists.1 hstored
    unfold stored at hcells
    obtain ⟨f, hf, hcells⟩ := Option.bind_eq_some_iff.1 hcells
    obtain ⟨page, hread, -⟩ := HeapFile.cells?_eq_some_iff.1 hcells
    have hfile : s.catalog.file id.table = .ok f := by
      cases hfile : s.catalog.file id.table with
      | error cause => rw [hfile] at hf; cases hf
      | ok g => rw [hfile] at hf; cases hf; rfl
    rw [hfile] at hacquire
    change (f.readPage s.disk id >>= fun page => s.pool.load page >>= fun pool =>
      Except.ok (page, { s with pool := pool.hold tx id })) = .error cause at hacquire
    rw [hread] at hacquire
    change (s.pool.load page >>= fun pool =>
      Except.ok (page, { s with pool := pool.hold tx id })) = .error cause at hacquire
    unfold Pool.load at hacquire
    split_ifs at hacquire with hroom
    · cases hacquire
    · split at hacquire
      · cases hacquire
      · cases hacquire
        exact ⟨rfl, Nat.not_lt.1 hroom⟩

/-! ### Moves of a scan -/

/-- What reading the rows of a page comes to. -/
def LoadOutcome (s : Store) (id : PageId) : Outcome Store (List Tuple) → Prop
  | (.error cause, t) => t = s ∧ ((s.stored id).isSome →
      cause = .bufferPoolFull ∧ s.pool.capacity ≤ s.pool.frames.length)
  | (.ok rows, t) => s.Keeps t ∧ rows.map Tuple.row = s.pageRows id ∧
      t.pool.capacity = s.pool.capacity ∧ t.pool.frames.length ≤ s.pool.frames.length + 1

/-- The rows of a page are found. -/
theorem Sound.load (h : s.Sound) (scan : Scan) (number : Nat) :
    s.LoadOutcome ⟨scan.file.table, number⟩ (scan.load s number) := by
  unfold Scan.load
  cases hacquire : s.acquire scan.tx ⟨scan.file.table, number⟩ with
  | error cause => exact ⟨rfl, fun hstored => acquire_error hstored hacquire⟩
  | ok result =>
    obtain ⟨page, t⟩ := result
    obtain ⟨hkeeps, hpage⟩ := h.acquire hacquire
    refine ⟨hkeeps, ?_, frames_of_acquire hacquire⟩
    rw [pageRows, ← hkeeps.shown_eq, shown_of_page? hpage]
    simp [Page.rows, Page.cells, List.reduceOption, List.map_filterMap, List.filterMap_map]

/-- What going on to a page with rows comes to, over at most so many pages. -/
def SeekOutcome (s : Store) (scan : Scan) (pages : Nat) : Outcome (Scan × Store) Bool → Prop
  | (.error cause, _, t) => s.Keeps t ∧
      (s.HasPages scan.file.table (scan.page + 1) pages →
        cause = .bufferPoolFull ∧ s.pool.capacity < s.pool.frames.length + pages)
  | (.ok more, scan', t) => s.Keeps t ∧ ∃ rows left,
      scan' = { scan with page := scan'.page, rest := some rows } ∧
      scan.page ≤ scan'.page ∧ scan'.page + left = scan.page + pages ∧
      rows.map Tuple.row ++ s.rowsFrom scan.file.table (scan'.page + 1) left =
        s.rowsFrom scan.file.table (scan.page + 1) pages ∧
      (more = true ↔ rows ≠ []) ∧ (rows = [] → left = 0) ∧
      t.pool.capacity = s.pool.capacity ∧
      t.pool.frames.length + left ≤ s.pool.frames.length + pages

/-- Pages without rows are passed over. -/
theorem Sound.seek (h : s.Sound) (hrest : scan.rest = some []) (pages : Nat) :
    s.SeekOutcome scan pages (scan.seek s pages) := by
  induction pages generalizing s scan with
  | zero =>
    refine ⟨h.keeps_self, [], 0, ?_, le_rfl, rfl, rfl, by simp, fun _ => rfl, rfl, le_rfl⟩
    rw [← hrest]
  | succ pages ih =>
    have hload := h.load { scan with page := scan.page + 1 } (scan.page + 1)
    unfold Scan.seek
    simp only
    generalize Scan.load { scan with page := scan.page + 1 } s (scan.page + 1) = o at hload ⊢
    obtain ⟨cause | rows, t⟩ := o
    · obtain ⟨rfl, hfull⟩ := hload
      refine ⟨h.keeps_self, fun hpages => ?_⟩
      obtain ⟨hcause, hroom⟩ := hfull (hpages _ le_rfl (by omega))
      exact ⟨hcause, by omega⟩
    · obtain ⟨hkeeps, hrows, hcapacity, hframes⟩ := hload
      have hfrom : s.rowsFrom scan.file.table (scan.page + 1) (pages + 1) =
          s.pageRows ⟨scan.file.table, scan.page + 1⟩ ++
            s.rowsFrom scan.file.table (scan.page + 1 + 1) pages := s.rowsFrom_succ _ pages
      simp only [Outcome.andThen_ok, List.isEmpty_iff]
      split_ifs with hnil
      · subst hnil
        have hrest := @ih t { scan with page := scan.page + 1, rest := some [] }
          hkeeps.1.sound rfl
        have hnone : s.pageRows ⟨scan.file.table, scan.page + 1⟩ = [] := hrows.symm
        generalize Scan.seek { scan with page := scan.page + 1, rest := some [] } t pages = o
          at hrest ⊢
        obtain ⟨cause | more, scan', u⟩ := o
        · obtain ⟨hkeeps', hfull⟩ := hrest
          refine ⟨hkeeps.trans hkeeps', fun hpages => ?_⟩
          obtain ⟨hcause, hroom⟩ := hfull (hkeeps.hasPages fun n hle hlt =>
            hpages n (by simp only at hle; omega) (by simp only at hlt; omega))
          exact ⟨hcause, by omega⟩
        · obtain ⟨hkeeps', rows, left, hscan, hle, hpage, hrows, hmore, hleft, hcap, hlen⟩ := hrest
          simp only at hle hpage
          refine ⟨hkeeps.trans hkeeps', rows, left, hscan, by omega, by omega, ?_, hmore, hleft,
            hcap.trans hcapacity, by omega⟩
          rw [hfrom, hnone, List.nil_append]
          simpa only [rowsFrom_congr hkeeps.shown_eq] using hrows
      · refine ⟨hkeeps, rows, pages, rfl, Nat.le_succ _, by simp only; omega, ?_,
          by simpa using hnil, fun h => absurd h hnil, hcapacity, by omega⟩
        rw [hfrom]
        exact congrArg (· ++ _) hrows

/-- The rows that are still to come. -/
def remaining (s : Store) (scan : Scan) : List Row :=
  (scan.rest.getD []).map Tuple.row ++
    s.rowsFrom scan.file.table (scan.page + 1) (scan.pageCount - (scan.page + 1))

/-- The frames that are in use when the scan has come to its end, at most. -/
def need (s : Store) (scan : Scan) : Nat :=
  s.pool.frames.length + (scan.pageCount - (scan.page + 1))

theorem Keeps.remaining_eq (h : s.Keeps t) : t.remaining scan = s.remaining scan := by
  rw [remaining, rowsFrom_congr h.shown_eq, remaining]

/-- What asking for another row comes to. -/
def HasNextOutcome (s : Store) (scan : Scan) : Outcome (Scan × Store) Bool → Prop
  | (.error cause, _, t) => s.Keeps t ∧
      (s.HasPages scan.file.table 0 scan.pageCount →
        cause = .bufferPoolFull ∧ s.pool.capacity < s.need scan)
  | (.ok more, scan', t) => s.Keeps t ∧ scan'.file = scan.file ∧
      scan'.pageCount = scan.pageCount ∧ s.remaining scan' = s.remaining scan ∧
      (∃ rows, scan'.rest = some rows ∧ (more = true ↔ rows ≠ [])) ∧
      (more = true ↔ s.remaining scan ≠ []) ∧
      t.pool.capacity = s.pool.capacity ∧ t.need scan' ≤ s.need scan

/-- There is another row as long as some are still to come. -/
theorem Sound.hasNext (h : s.Sound) (hopen : scan.rest.isSome) :
    s.HasNextOutcome scan (scan.hasNext s) := by
  obtain ⟨rows, hrest⟩ := Option.isSome_iff_exists.1 hopen
  cases rows with
  | cons row rows =>
    rw [Scan.hasNext_of_rest hrest]
    exact ⟨h.keeps_self, rfl, rfl, rfl, ⟨_, hrest, by simp⟩, by simp [remaining, hrest], rfl,
      le_rfl⟩
  | nil =>
    have hseek := h.seek hrest (scan.pageCount - (scan.page + 1))
    rw [Scan.hasNext, hrest]
    simp only
    generalize scan.seek s (scan.pageCount - (scan.page + 1)) = o at hseek ⊢
    obtain ⟨cause | more, scan', t⟩ := o
    · exact ⟨hseek.1, fun hpages => hseek.2 fun n hle hlt => hpages n (by omega) (by omega)⟩
    · obtain ⟨hkeeps, rows, left, hscan, hle, hpage, hrows, hmore, hleft, hcapacity, hframes⟩ :=
        hseek
      have hfile : scan'.file = scan.file := by rw [hscan]
      have hcount : scan'.pageCount = scan.pageCount := by rw [hscan]
      have hfound : scan'.rest = some rows := by rw [hscan]
      have hleft' : scan'.pageCount - (scan'.page + 1) = left := by omega
      have hremaining : s.remaining scan' = s.remaining scan := by
        rw [remaining, remaining, hfound, hfile, hleft', hrest]
        simpa using hrows
      refine ⟨hkeeps, hfile, hcount, hremaining, ⟨rows, hfound, hmore⟩, ?_, hcapacity, ?_⟩
      · rw [hmore, ← hremaining, remaining, hfound, hleft']
        by_cases hnil : rows = []
        · simp [hnil, hleft hnil, rowsFrom]
        · simp [hnil]
      · rw [need, need, hleft']
        exact hframes

/-- What reading to the end comes to. -/
def DrainOutcome (s : Store) (scan : Scan) : Outcome Store (List Tuple) → Prop
  | (.error cause, t) => s.Keeps t ∧
      (s.HasPages scan.file.table 0 scan.pageCount →
        cause = .bufferPoolFull ∧ s.pool.capacity < s.need scan)
  | (.ok rows, t) => s.Keeps t ∧ rows.map Tuple.row = s.remaining scan

/-- A reader gets all rows that are still to come, unless the pool is full. -/
theorem Sound.drain (h : s.Sound) (scan : Scan) (hopen : scan.rest.isSome) :
    s.DrainOutcome scan (scan.drain s) := by
  -- every row that is given out is the first of those still to come
  induction hcoming : s.remaining scan generalizing s scan with
  | nil =>
    have hnext := h.hasNext hopen
    generalize hmore : scan.hasNext s = o at hnext
    obtain ⟨cause | more, scan', t⟩ := o
    · rw [Scan.drain_of_error hmore]
      exact hnext
    · obtain ⟨hkeeps, -, -, -, -, hiff, -⟩ := hnext
      cases more with
      | true => exact absurd hcoming (hiff.1 rfl)
      | false =>
        rw [Scan.drain_of_done hmore]
        exact ⟨hkeeps, hcoming.symm⟩
  | cons first coming ih =>
    have hnext := h.hasNext hopen
    generalize hmore : scan.hasNext s = o at hnext
    obtain ⟨cause | more, scan', t⟩ := o
    · rw [Scan.drain_of_error hmore]
      exact hnext
    · obtain ⟨hkeeps, hfile, hcount, hsame, ⟨rows, hrest, hrows⟩, hiff, hcapacity, hneed⟩ := hnext
      obtain rfl : more = true := hiff.2 (by rw [hcoming]; exact nofun)
      obtain ⟨row, rest, rfl⟩ := List.exists_cons_of_ne_nil (hrows.1 rfl)
      rw [Scan.drain_of_row hmore hrest]
      have htail : row.row = first ∧
          t.remaining { scan' with rest := some rest } = coming := by
        rw [hcoming, ← hkeeps.remaining_eq, remaining, hrest] at hsame
        exact List.cons.inj hsame
      have hdrain := ih hkeeps.1.sound { scan' with rest := some rest } rfl htail.2
      generalize Scan.drain { scan' with rest := some rest } t = o at hdrain ⊢
      obtain ⟨cause | rows, u⟩ := o
      · refine ⟨hkeeps.trans hdrain.1, fun hpages => ?_⟩
        obtain ⟨hcause, hfull⟩ := hdrain.2 (hkeeps.hasPages (hfile ▸ hcount ▸ hpages))
        have hsame : t.need { scan' with rest := some rest } = t.need scan' := rfl
        exact ⟨hcause, by omega⟩
      · refine ⟨hkeeps.trans hdrain.1, ?_⟩
        rw [hcoming, List.map_cons, hdrain.2, htail.1, htail.2]

/-- What scanning a table comes to, if it has so many pages. -/
def ScanOutcome (s : Store) (table : TableId) (count : Nat) : Outcome Store (List Tuple) → Prop
  | (.error cause, t) => s.Keeps t ∧
      cause = .bufferPoolFull ∧ s.pool.capacity < s.pool.frames.length + count
  | (.ok rows, t) => s.Keeps t ∧ rows.map Tuple.row = s.tableRows table

/-- Scan a table from the first page to the last. -/
def scanTable (s : Store) (tx : TxId) (table : TableId) : Outcome Store (List Tuple) :=
  match s.catalog.file table with
  | .error cause => (.error cause, s)
  | .ok f =>
    match (f.scan tx).start s with
    | (.error cause, _, t) => (.error cause, t)
    | (.ok (), scan, t) => scan.drain t

/-- The pages that are counted are there. -/
theorem Sound.hasPages (h : s.Sound) {count : Nat} (hcount : s.pageCount table = .ok count) :
    s.HasPages table 0 count := by
  obtain ⟨f, hf, hcount⟩ := bind_eq_ok_iff.1 hcount
  unfold HeapFile.pageCount at hcount
  split_ifs at hcount with hzero
  cases hcount
  intro n _ hlt
  rw [h.stored_isSome_iff ⟨table, n⟩ hf, HeapFile.has_iff_lt (Nat.pos_of_ne_zero hzero)]
  exact lt_of_lt_of_le (Nat.zero_add _ ▸ hlt) (Nat.mod_le _ _)

theorem scanTable_of_error {cause : DbError} (h : s.pageCount table = .error cause) :
    s.scanTable tx table = (.error cause, s) := by
  unfold pageCount at h
  unfold scanTable
  cases hf : s.catalog.file table with
  | error cause' =>
    rw [hf] at h
    cases h
    rfl
  | ok f =>
    rw [hf] at h
    have hcount : (f.scan tx).file.pageCount s.disk = .error cause := h
    simp only [Scan.start, hcount]

/-- A table is scanned to the end, unless the pool is full. -/
theorem Sound.scanTable (h : s.Sound) {count : Nat} (hcount : s.pageCount table = .ok count) :
    s.ScanOutcome table count (s.scanTable tx table) := by
  have hpages := h.hasPages hcount
  have hrows : s.tableRows table = s.rowsFrom table 0 count := by rw [tableRows, hcount]
  obtain ⟨f, hf, hcount'⟩ := bind_eq_ok_iff.1 hcount
  obtain rfl := Catalog.table_of_file hf
  have hstart : (f.scan tx).file.pageCount s.disk = .ok count := hcount'
  simp only [Store.scanTable, hf, Scan.start, hstart]
  split_ifs with hzero
  · subst hzero
    have hdrain := h.drain { f.scan tx with page := 0, pageCount := 0, rest := some [] } rfl
    change s.ScanOutcome f.table 0
      (Scan.drain { f.scan tx with page := 0, pageCount := 0, rest := some [] } s)
    generalize Scan.drain _ s = o at hdrain ⊢
    obtain ⟨cause | rows, t⟩ := o
    · obtain ⟨hcause, hfull⟩ := hdrain.2 fun n _ hlt => absurd hlt (Nat.not_lt_zero n)
      exact ⟨hdrain.1, hcause, hfull⟩
    · exact ⟨hdrain.1, hdrain.2.trans hrows.symm⟩
  · have hload := h.load { f.scan tx with page := 0, pageCount := count } 0
    generalize Scan.load { f.scan tx with page := 0, pageCount := count } s 0 = o at hload ⊢
    obtain ⟨cause | rows, t⟩ := o
    · obtain ⟨rfl, hfull⟩ := hload
      obtain ⟨hcause, hroom⟩ := hfull (hpages 0 le_rfl (by omega))
      exact ⟨h.keeps_self, hcause, by omega⟩
    · obtain ⟨hkeeps, hfirst, hcapacity, hframes⟩ := hload
      have hdrain := hkeeps.1.sound.drain
        { f.scan tx with page := 0, pageCount := count, rest := some rows } rfl
      simp only [Outcome.andThen_ok]
      generalize Scan.drain _ t = o at hdrain ⊢
      obtain ⟨cause | found, u⟩ := o
      · obtain ⟨hcause, hfull⟩ := hdrain.2 (hkeeps.hasPages hpages)
        refine ⟨hkeeps.trans hdrain.1, hcause, ?_⟩
        simp only [need] at hfull
        omega
      · refine ⟨hkeeps.trans hdrain.1, hdrain.2.trans ?_⟩
        obtain ⟨pages, rfl⟩ := Nat.exists_eq_succ_of_ne_zero hzero
        rw [hkeeps.remaining_eq, hrows, rowsFrom_succ]
        exact congrArg (· ++ _) hfirst

/-- A scan of a table gets its rows, unless the pool is full or the pages cannot be counted. -/
def ScansTables (s : Store) : Prop :=
  ∀ tx table, match s.pageCount table with
    | .ok count => s.ScanOutcome table count (s.scanTable tx table)
    | .error cause => s.scanTable tx table = (.error cause, s)

theorem Sound.scansTables (h : s.Sound) : s.ScansTables := fun tx table => by
  cases hcount : s.pageCount table with
  | ok count => exact h.scanTable hcount
  | error cause => exact scanTable_of_error hcount

end Store

end Rowstore
