import Mathlib
import Rowstore.Outcome
import Rowstore.Proofs.File.Places

/-!
# What is done to files

The bytes of the files when pages are written and added, one after another.

* `HeapFile.Rewrites` says what the writing of a page does, and `HeapFile.Adds` what the adding of
  one does: a page of zeros stands where the whole pages end, over a partial page if there is one,
  and the file ends with it. Where the page numbers are used up it stands in the place of an earlier
  page, and the file is as long as it was.
* `Touch.Leads` composes them: what has changed is in the places of the pages that were touched,
  and a file has grown only if a page was added to it.
* `HeapFile.writeSteps` writes a page step by step. One that is refused is as it was, and so is the
  disk: `HeapFile.writeSteps_of_error`.
-/

namespace Rowstore

namespace HeapFile

variable {f : HeapFile} {disk disk' : Disk} {id : PageId} {page written : Page} {number : Nat}

/-! ### Writing and adding a page -/

/-- No byte of any file changes but in the place of a page. -/
def Confines (f : HeapFile) (number : Nat) (disk disk' : Disk) : Prop :=
  ∀ (name : String) (offset : Nat),
    (disk'.contents name)[offset]? ≠ (disk.contents name)[offset]? →
      f.Covers ⟨f.table, number⟩ name offset

/-- A page that is in the file is written. No file changes its length. -/
structure Rewrites (f : HeapFile) (number : Nat) (disk disk' : Disk) : Prop where
  has : f.Has disk number
  confines : f.Confines number disk disk'
  size_eq : ∀ name, (disk'.file name).size = (disk.file name).size

/-- A page is added after the whole pages of the file, counted by the page numbers. It is all zeros,
and as long as the numbers suffice the file ends with it. -/
structure Adds (f : HeapFile) (number : Nat) (disk disk' : Disk) : Prop where
  number_eq : number = f.wholePages disk % pageNumbers
  pageSize_pos : 0 < f.pageSize
  confines : f.Confines number disk disk'
  zeros : f.slice disk' number = List.replicate f.pageSize 0
  size_eq : (disk'.file f.name).size =
    if f.Countable disk then (f.wholePages disk + 1) * f.pageSize else (disk.file f.name).size
  others : ∀ name, name ≠ f.name → (disk'.file name).size = (disk.file name).size

theorem rewrites_of_writePage (h : f.Holds disk page)
    (hwrite : f.writePage disk page = .ok (written, disk')) :
    f.Rewrites page.id.number disk disk' := by
  obtain ⟨hsize, hcovers⟩ := bytes_of_writePage h hwrite
  exact ⟨h.has, hcovers, hsize⟩

/-- The partial page after the whole pages is shorter than a page. -/
theorem lt_wholePages_succ (f : HeapFile) (disk : Disk) (hpos : 0 < f.pageSize) :
    (disk.file f.name).size < (f.wholePages disk + 1) * f.pageSize := by
  rw [wholePages, Nat.add_mul, Nat.one_mul]
  exact Nat.lt_div_mul_add hpos

theorem adds_of_appendPage (h : f.appendPage disk = .ok (id, disk')) :
    id = ⟨f.table, f.wholePages disk % pageNumbers⟩ ∧ f.Adds id.number disk disk' := by
  obtain ⟨hpos, -, rfl, rfl⟩ := appendPage_eq_ok_iff.1 h
  have hself := Disk.contents_clear_self disk f.name ((f.nextPage disk).offset f.pageSize)
    f.pageSize
  have hother : ∀ name, name ≠ f.name →
      (disk.clear f.name ((f.nextPage disk).offset f.pageSize) f.pageSize).contents name =
        disk.contents name := fun name =>
    Disk.contents_clear_ne disk ((f.nextPage disk).offset f.pageSize) f.pageSize
  have hwhole : f.wholePages disk * f.pageSize ≤ (disk.file f.name).size := Nat.div_mul_le_self _ _
  have hpartial := lt_wholePages_succ f disk hpos
  have hle : (f.nextPage disk).offset f.pageSize ≤ (disk.file f.name).size :=
    (Nat.mul_le_mul_right _ (Nat.mod_le _ _)).trans hwhole
  refine ⟨rfl, rfl, hpos, ?_, ?_, ?_, fun name hname => sizes_of_contents (hother name hname)⟩
  · intro name offset
    exact covers_of_overwrite List.length_replicate hle hself hother
  · exact (slice_write List.length_replicate hself hother).1
  · rw [size_write List.length_replicate hself, if_neg hpos.ne', PageId.offset, ← Nat.succ_mul]
    split_ifs with hcount
    · have hnumber : (f.nextPage disk).number = f.wholePages disk := Nat.mod_eq_of_lt hcount
      rw [hnumber]
      exact max_eq_right hpartial.le
    · -- the place of the page is among those of the whole pages
      have hnumber : (f.nextPage disk).number + 1 ≤ f.wholePages disk :=
        (Nat.mod_lt _ (by decide)).trans_le (not_lt.1 hcount)
      exact max_eq_left ((Nat.mul_le_mul_right _ hnumber).trans hwhole)

theorem wholePages_of_size (h : (disk'.file f.name).size = (disk.file f.name).size) :
    f.wholePages disk' = f.wholePages disk := by
  rw [wholePages, wholePages, h]

/-- The whole pages after one was added. -/
theorem Adds.wholePages_eq (h : f.Adds number disk disk') :
    f.wholePages disk' = if f.Countable disk then f.wholePages disk + 1 else f.wholePages disk := by
  by_cases hcount : f.Countable disk
  · have hsize := h.size_eq
    rw [if_pos hcount] at hsize ⊢
    rw [wholePages, hsize, Nat.mul_div_cancel _ h.pageSize_pos]
  · have hsize := h.size_eq
    rw [if_neg hcount] at hsize ⊢
    exact wholePages_of_size hsize

/-! ### Writing step by step -/

/-- Write a page: see that it belongs to the table, make its bytes, see that they are a page, go to
its place, write them there, and mark the page as clean. -/
def writeSteps (f : HeapFile) (disk : Disk) (page : Page) : Outcome (Page × Disk) Unit :=
  if page.id.table ≠ f.table then (.error (.invalidPage page.id), page, disk)
  else match page.encode with
    | .error cause => (.error cause, page, disk)
    | .ok bytes =>
      if bytes.length ≠ f.pageSize then
        (.error (.pageSizeMismatch f.pageSize bytes.length), page, disk)
      else match f.place page.id with
        | .error cause => (.error cause, page, disk)
        | .ok offset =>
          let disk := disk.write f.name offset bytes
          let page := page.mark none
          (.ok (), page, disk)

/-- The steps come to what `HeapFile.writePage` says. -/
theorem writeSteps_eq (f : HeapFile) (disk : Disk) (page : Page) :
    f.writeSteps disk page = match f.writePage disk page with
      | .ok (written, disk') => (.ok (), written, disk')
      | .error cause => (.error cause, page, disk) := by
  unfold writeSteps writePage
  by_cases htable : page.id.table ≠ f.table
  · rw [if_pos htable, if_pos htable]
  · rw [if_neg htable, if_neg htable]
    cases page.encode with
    | error cause => rfl
    | ok bytes =>
      simp only [bind, Except.bind]
      by_cases hlength : bytes.length ≠ f.pageSize
      · rw [if_pos hlength, if_pos hlength]
        rfl
      · rw [if_neg hlength, if_neg hlength]
        cases f.place page.id <;> rfl

/-- A page that cannot be written keeps its mark, and nothing is written. -/
theorem writeSteps_of_error {cause : DbError} (h : (f.writeSteps disk page).1 = .error cause) :
    (f.writeSteps disk page).2 = (page, disk) := by
  rw [writeSteps_eq] at h ⊢
  cases hwrite : f.writePage disk page with
  | error cause' => rfl
  | ok done =>
    rw [hwrite] at h
    cases h

end HeapFile

/-! ### One touch after another -/

/-- Something that is done to a file. -/
inductive Touch
  /-- A page is added. -/
  | add (file : HeapFile) (number : Nat)
  /-- A page is written. -/
  | write (file : HeapFile) (number : Nat)

namespace Touch

variable {f : HeapFile} {disk disk' disk'' : Disk} {x : Touch} {xs ys : List Touch}

/-- The file that is touched. -/
def file : Touch → HeapFile
  | add f _ => f
  | write f _ => f

/-- The page whose place is touched. -/
def page : Touch → PageId
  | add f number => ⟨f.table, number⟩
  | write f number => ⟨f.table, number⟩

/-- A page is added to a file. -/
def AddsTo (f : HeapFile) : Touch → Prop
  | add g _ => g = f
  | write _ _ => False

/-- What is done to the disk. -/
def Does : Touch → Disk → Disk → Prop
  | add f number => f.Adds number
  | write f number => f.Rewrites number

/-- Touches one after another lead from one disk to another. -/
def Leads : List Touch → Disk → Disk → Prop
  | [], disk, disk' => disk' = disk
  | x :: xs, disk, disk' => ∃ between, x.Does disk between ∧ Leads xs between disk'

theorem Does.covers (h : x.Does disk disk') {name : String} {offset : Nat}
    (hne : (disk'.contents name)[offset]? ≠ (disk.contents name)[offset]?) :
    x.file.Covers x.page name offset := by
  cases x with
  | add f number => exact h.confines name offset hne
  | write f number => exact h.confines name offset hne

/-- A touch makes no file shorter. -/
theorem Does.extends (h : x.Does disk disk') : disk'.Extends disk := by
  intro name
  cases x with
  | write f number => exact (h.size_eq name).ge
  | add f number =>
    by_cases hname : name = f.name
    · subst hname
      have hsize := HeapFile.Adds.size_eq h
      split_ifs at hsize
      · rw [hsize]
        exact (HeapFile.lt_wholePages_succ f disk h.pageSize_pos).le
      · exact hsize.ge
    · exact (HeapFile.Adds.others h name hname).ge

/-- The whole pages of a file after one touch, if no other file of its name is touched. -/
theorem Does.wholePages_le (h : x.Does disk disk') (hown : x.file.name = f.name → x.file = f) :
    f.wholePages disk ≤ f.wholePages disk' ∧
      f.wholePages disk' ≤ max (f.wholePages disk) HeapFile.pageNumbers := by
  cases x with
  | write g number =>
    have hsame : f.wholePages disk' = f.wholePages disk :=
      HeapFile.wholePages_of_size (h.size_eq f.name)
    omega
  | add g number =>
    by_cases hname : f.name = g.name
    · obtain rfl : g = f := hown hname.symm
      have hstep := HeapFile.Adds.wholePages_eq h
      by_cases hcount : g.Countable disk
      · rw [if_pos hcount] at hstep
        have hlt : g.wholePages disk < HeapFile.pageNumbers := hcount
        omega
      · rw [if_neg hcount] at hstep
        omega
    · have hsame : f.wholePages disk' = f.wholePages disk :=
        HeapFile.wholePages_of_size (HeapFile.Adds.others h f.name hname)
      omega

namespace Leads

theorem single (h : x.Does disk disk') : Leads [x] disk disk' := ⟨disk', h, rfl⟩

theorem append (h : Leads xs disk disk') (h' : Leads ys disk' disk'') :
    Leads (xs ++ ys) disk disk'' := by
  induction xs generalizing disk with
  | nil =>
    obtain rfl : disk' = disk := h
    exact h'
  | cons x xs ih =>
    obtain ⟨between, hx, hxs⟩ := h
    exact ⟨between, hx, ih hxs⟩

/-- A byte that has changed is in the place of a page that was touched. -/
theorem covers (h : Leads xs disk disk') {name : String} {offset : Nat}
    (hne : (disk'.contents name)[offset]? ≠ (disk.contents name)[offset]?) :
    ∃ x ∈ xs, x.file.Covers x.page name offset := by
  induction xs generalizing disk with
  | nil =>
    obtain rfl : disk' = disk := h
    exact absurd rfl hne
  | cons x xs ih =>
    obtain ⟨between, hx, hxs⟩ := h
    by_cases hsame : (disk'.contents name)[offset]? = (between.contents name)[offset]?
    · rw [hsame] at hne
      exact ⟨x, List.mem_cons_self, hx.covers hne⟩
    · obtain ⟨y, hy, hcovers⟩ := ih hxs hsame
      exact ⟨y, List.mem_cons_of_mem _ hy, hcovers⟩

/-- No file has become shorter. -/
theorem disk_extends (h : Leads xs disk disk') : disk'.Extends disk := by
  induction xs generalizing disk with
  | nil =>
    obtain rfl : disk' = disk := h
    exact .refl _
  | cons x xs ih =>
    obtain ⟨between, hx, hxs⟩ := h
    intro name
    exact (hx.extends name).trans (ih hxs name)

/-- The length of a file is as it was if no page was added to a file of its name. -/
theorem size_eq (h : Leads xs disk disk') {name : String}
    (hname : ∀ f, f.name = name → ∀ x ∈ xs, ¬ x.AddsTo f) :
    (disk'.file name).size = (disk.file name).size := by
  induction xs generalizing disk with
  | nil =>
    obtain rfl : disk' = disk := h
    rfl
  | cons x xs ih =>
    obtain ⟨between, hx, hxs⟩ := h
    have hrest := ih hxs fun f hf y hy => hname f hf y (List.mem_cons_of_mem _ hy)
    rw [hrest]
    cases x with
    | add f number =>
      apply hx.others
      rintro rfl
      exact hname f rfl _ List.mem_cons_self rfl
    | write f number => exact hx.size_eq name

/-- The whole pages of a file, if no other file of its name is touched: they become no fewer, and
more only up to the count of the page numbers. -/
theorem wholePages_le (h : Leads xs disk disk')
    (hown : ∀ x ∈ xs, x.file.name = f.name → x.file = f) :
    f.wholePages disk ≤ f.wholePages disk' ∧
      f.wholePages disk' ≤ max (f.wholePages disk) HeapFile.pageNumbers := by
  induction xs generalizing disk with
  | nil =>
    obtain rfl : disk' = disk := h
    exact ⟨le_rfl, le_max_left _ _⟩
  | cons x xs ih =>
    obtain ⟨between, hx, hxs⟩ := h
    obtain ⟨hlow, hhigh⟩ := ih hxs fun y hy => hown y (List.mem_cons_of_mem _ hy)
    obtain ⟨hlow', hhigh'⟩ := hx.wholePages_le (hown x List.mem_cons_self)
    omega

end Leads

end Touch

end Rowstore
