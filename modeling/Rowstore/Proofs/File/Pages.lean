import Mathlib
import Rowstore.HeapFile
import Rowstore.Proofs.Codec.PageImage

/-!
# The pages of a file

What a heap file shows page by page, and what writing a page or adding one does to that.

* `HeapFile.cells?` is the view: the cells of a page as its bytes on the disk decode.
* `HeapFile.Writes` says that a page was written: from then on the file shows its cells, and every
  other page of every file as before.
* `HeapFile.writePage_eq_ok`: a page that `HeapFile.Holds` allows in the file can be written.
* `HeapFile.writes_of_appendPage`: a page that was added has every slot free. It lies after all
  others as long as the file holds fewer pages than there are page numbers, `HeapFile.Countable`,
  and is one page more then, `HeapFile.Countable.grows`.
-/

namespace Rowstore

/-! ### Writing over bytes -/

section Overwrite

variable {old new : List UInt8} {offset : Nat}

theorem length_overwrite (h : new ≠ []) :
    (overwrite old offset new).length = max old.length (offset + new.length) := by
  have hne : new.isEmpty = false := by simpa using h
  simp only [overwrite, hne, Bool.false_eq_true, if_false, List.length_append, List.length_take,
    List.length_replicate, List.length_drop]
  omega

theorem getElem?_overwrite (h : new ≠ []) {i : Nat} (hi : i < old.length ∨ offset ≤ i) :
    (overwrite old offset new)[i]? =
      if i < offset then old[i]? else if i < offset + new.length then new[i - offset]?
      else old[i]? := by
  have hne : new.isEmpty = false := by simpa using h
  have hfront : (old.take offset ++ List.replicate (offset - old.length) 0).length = offset := by
    rw [List.length_append, List.length_take, List.length_replicate]
    omega
  simp only [overwrite, hne, Bool.false_eq_true, if_false]
  rw [List.append_assoc _ new]
  by_cases hlow : i < offset
  · have hold : i < (old.take offset).length := by
      rw [List.length_take]
      omega
    rw [if_pos hlow, List.append_assoc, List.getElem?_append_left hold,
      List.getElem?_take_of_lt hlow]
  · rw [if_neg hlow, List.getElem?_append_right (by omega), hfront]
    by_cases hmid : i < offset + new.length
    · rw [if_pos hmid, List.getElem?_append_left (by omega)]
    · rw [if_neg hmid, List.getElem?_append_right (by omega), List.getElem?_drop]
      congr 1
      omega

/-- The bytes that were written are read back. -/
theorem take_drop_overwrite_self :
    ((overwrite old offset new).drop offset).take new.length = new := by
  by_cases h : new = []
  · simp [h]
  refine List.ext_getElem? fun i => ?_
  rw [List.getElem?_take, List.getElem?_drop]
  by_cases hi : i < new.length
  · rw [if_pos hi, getElem?_overwrite h (.inr (by omega)), if_neg (by omega), if_pos (by omega),
      Nat.add_sub_cancel_left]
  · rw [if_neg hi, List.getElem?_eq_none (by omega)]

/-- Bytes that were not written over are as before. -/
theorem take_drop_overwrite_of_disjoint {start count : Nat} (hold : start + count ≤ old.length)
    (hdisj : start + count ≤ offset ∨ offset + new.length ≤ start) :
    ((overwrite old offset new).drop start).take count = (old.drop start).take count := by
  by_cases h : new = []
  · simp [overwrite, h]
  refine List.ext_getElem? fun i => ?_
  rw [List.getElem?_take, List.getElem?_take, List.getElem?_drop, List.getElem?_drop]
  by_cases hi : i < count
  · rw [if_pos hi, if_pos hi, getElem?_overwrite h (.inl (by omega))]
    split_ifs with hlow hmid <;> [rfl; omega; rfl]
  · rw [if_neg hi, if_neg hi]

end Overwrite

namespace HeapFile

variable {f g : HeapFile} {disk disk' : Disk} {id : PageId}

/-! ### Reading -/

/-- The whole page is in the file. -/
def Has (f : HeapFile) (disk : Disk) (number : Nat) : Prop :=
  (number + 1) * f.pageSize ≤ (disk.file f.name).size

instance (f : HeapFile) (disk : Disk) (number : Nat) : Decidable (f.Has disk number) :=
  inferInstanceAs (Decidable (_ ≤ _))

/-- The count of whole pages in the file, also beyond the page numbers. -/
def wholePages (f : HeapFile) (disk : Disk) : Nat := (disk.file f.name).size / f.pageSize

/-- The file holds fewer pages than there are page numbers, so that all of them are counted. -/
def Countable (f : HeapFile) (disk : Disk) : Prop := f.wholePages disk < pageNumbers

instance (f : HeapFile) (disk : Disk) : Decidable (f.Countable disk) :=
  inferInstanceAs (Decidable (_ < _))

theorem has_iff_lt (h : 0 < f.pageSize) {number : Nat} :
    f.Has disk number ↔ number < f.wholePages disk := by
  rw [Has, wholePages, ← Nat.le_div_iff_mul_le h]
  exact Iff.rfl

/-- The page is one of the file's, and memory and the file's offsets reach it. -/
def Addresses (f : HeapFile) (id : PageId) : Prop :=
  id.table = f.table ∧ f.pageSize ≤ Page.maxSize ∧ id.offset f.pageSize + f.pageSize ≤ maxOffset

/-- The place of a page that can be reached is a product of words, which does not wrap around. -/
theorem toNat_mul_of_place {offset : Nat} (h : f.place id = .ok offset) :
    (UInt64.ofNat id.number * UInt64.ofNat f.pageSize).toNat = offset := by
  unfold place at h
  split_ifs at h with hfar
  cases h
  have hlt : id.number * f.pageSize < 2 ^ 64 := by
    rw [PageId.offset, maxOffset] at hfar
    omega
  rw [UInt64.toNat_mul, UInt64.toNat_ofNat', UInt64.toNat_ofNat', ← Nat.mul_mod,
    Nat.mod_eq_of_lt hlt, PageId.offset]

/-- The bytes in the place of a page. -/
def slice (f : HeapFile) (disk : Disk) (number : Nat) : List UInt8 :=
  ((disk.contents f.name).drop (number * f.pageSize)).take f.pageSize

theorem length_slice {number : Nat} (h : f.Has disk number) :
    (f.slice disk number).length = f.pageSize := by
  rw [Has, Nat.succ_mul] at h
  simp only [slice, List.length_take, List.length_drop, Disk.length_contents]
  omega

theorem image_eq_ok_iff {bytes : List UInt8} :
    f.image disk id = .ok bytes ↔ id.offset f.pageSize + f.pageSize ≤ maxOffset ∧
      f.Has disk id.number ∧ bytes = f.slice disk id.number := by
  have hhas : f.Has disk id.number ↔
      ¬ (disk.file f.name).size - id.offset f.pageSize < f.pageSize := by
    rw [Has, Nat.succ_mul, PageId.offset]
    rcases Nat.eq_zero_or_pos f.pageSize with hzero | hpos
    · simp [hzero]
    · omega
  have hread : (disk.file f.name).read (id.offset f.pageSize) f.pageSize =
      f.slice disk id.number := FileData.read_eq _ _ _
  rw [image, bind_eq_ok_iff, hhas, ← hread, place]
  split_ifs with hfar
  · exact ⟨nofun, fun h => absurd h.1 (by omega)⟩
  · constructor
    · rintro ⟨_, ⟨⟩, h⟩
      dsimp only at h
      split_ifs at h with hshort
      · cases h
      · cases h
        exact ⟨by omega, hshort, rfl⟩
    · rintro ⟨-, hlong, rfl⟩
      refine ⟨_, rfl, ?_⟩
      rw [if_neg hlong]
      rfl

/-- A page can be read when it can be reached, is whole and decodes. -/
theorem readPage_eq_ok_iff {page : Page} :
    f.readPage disk id = .ok page ↔ f.Addresses id ∧ f.Has disk id.number ∧
      Page.decode id f.schema (f.slice disk id.number) = .ok page := by
  unfold readPage Addresses
  split_ifs with htable hsize
  · exact ⟨nofun, fun h => absurd h.1.1 htable⟩
  · exact ⟨nofun, fun h => absurd h.1.2.1 (by omega)⟩
  · rw [bind_eq_ok_iff]
    constructor
    · rintro ⟨bytes, himage, hdecode⟩
      obtain ⟨hplace, hhas, rfl⟩ := image_eq_ok_iff.1 himage
      exact ⟨⟨not_not.1 htable, by omega, hplace⟩, hhas, hdecode⟩
    · rintro ⟨⟨-, -, hplace⟩, hhas, hdecode⟩
      exact ⟨_, image_eq_ok_iff.2 ⟨hplace, hhas, rfl⟩, hdecode⟩

/-- A page that may stand in the file: it is sound, of the file's layout, and in its bounds. -/
structure Holds (f : HeapFile) (disk : Disk) (page : Page) : Prop where
  sound : page.Sound
  schema_eq : page.schema = f.schema
  size_eq : page.size = f.pageSize
  addresses : f.Addresses page.id
  has : f.Has disk page.id.number

theorem Holds.mark {page : Page} (h : f.Holds disk page) (tx : Option TxId) :
    f.Holds disk (page.mark tx) :=
  ⟨h.sound.mark tx, h.schema_eq, h.size_eq, h.addresses, h.has⟩

/-- What is read is a page of the file, and clean. -/
theorem holds_of_readPage {page : Page} (h : f.readPage disk id = .ok page) :
    f.Holds disk page ∧ page.id = id ∧ page.dirtiedBy = none := by
  obtain ⟨haddr, hhas, hdecode⟩ := readPage_eq_ok_iff.1 h
  obtain ⟨hsound, rfl, hschema, hsize, hclean⟩ := Page.sound_of_decode hdecode
  exact ⟨⟨hsound, hschema, by rw [hsize, length_slice hhas], haddr, hhas⟩, rfl, hclean⟩

/-- Two disks show the same page of a file. -/
def SameOn (f : HeapFile) (disk disk' : Disk) (id : PageId) : Prop :=
  ∀ page, f.readPage disk' id = .ok page ↔ f.readPage disk id = .ok page

theorem sameOn_of_slice (hhas : f.Has disk' id.number ↔ f.Has disk id.number)
    (hslice : f.Has disk id.number → f.slice disk' id.number = f.slice disk id.number) :
    f.SameOn disk disk' id := by
  intro page
  rw [readPage_eq_ok_iff, readPage_eq_ok_iff, hhas]
  refine and_congr_right fun _ => and_congr_right fun h => ?_
  rw [hslice h]

/-- The cells of a page on the disk. -/
def cells? (f : HeapFile) (disk : Disk) (id : PageId) : Option (List (Option Row)) :=
  (f.readPage disk id).toOption.map Page.cells

theorem cells?_eq_some_iff {cells : List (Option Row)} :
    f.cells? disk id = some cells ↔ ∃ page, f.readPage disk id = .ok page ∧ page.cells = cells := by
  unfold cells?
  cases f.readPage disk id <;> simp [Except.toOption]

theorem SameOn.cells?_eq (h : f.SameOn disk disk' id) : f.cells? disk' id = f.cells? disk id := by
  refine Option.ext fun cells => ?_
  rw [cells?_eq_some_iff, cells?_eq_some_iff]
  exact exists_congr fun page => and_congr_left' (h page)

/-! ### Writing -/

/-- The pages of other files, and the other pages of this one. -/
def Apart (f : HeapFile) (id : PageId) (g : HeapFile) (other : PageId) : Prop :=
  g.name ≠ f.name ∨ g.pageSize = f.pageSize ∧ other.number ≠ id.number

/-- A page was written, and nothing else changed. -/
structure Writes (f : HeapFile) (disk disk' : Disk) (id : PageId) (cells : List (Option Row)) :
    Prop where
  cells?_eq : f.cells? disk' id = some cells
  sameOn : ∀ g other, f.Apart id g other → g.SameOn disk disk' other
  has_iff : ∀ number, f.Has disk' number ↔ f.Has disk number ∨ number = id.number
  size_eq : ∀ name, name ≠ f.name → (disk'.file name).size = (disk.file name).size

/-- Places of different pages do not overlap. -/
theorem place_disjoint {m n size : Nat} (h : m ≠ n) :
    m * size + size ≤ n * size ∨ n * size + size ≤ m * size := by
  rw [← Nat.succ_mul, ← Nat.succ_mul]
  rcases Nat.lt_or_gt_of_ne h with hlt | hgt
  · exact .inl (Nat.mul_le_mul_right _ hlt)
  · exact .inr (Nat.mul_le_mul_right _ hgt)

/-- Bytes put in the place of a page are those of the page, and of no other page. -/
theorem slice_write {bytes : List UInt8} (hlen : bytes.length = f.pageSize)
    (hcontents : disk'.contents f.name =
      overwrite (disk.contents f.name) (id.offset f.pageSize) bytes)
    (hother : ∀ name, name ≠ f.name → disk'.contents name = disk.contents name) :
    f.slice disk' id.number = bytes ∧ ∀ g other, f.Apart id g other →
      g.Has disk other.number → g.slice disk' other.number = g.slice disk other.number := by
  refine ⟨?_, fun g other hapart hhas => ?_⟩
  · rw [slice, hcontents, ← hlen]
    exact take_drop_overwrite_self
  · by_cases hname : g.name = f.name
    · obtain ⟨hsize, hnumber⟩ := hapart.resolve_left (not_not.2 hname)
      rw [Has, Nat.succ_mul, hsize, hname, ← Disk.length_contents] at hhas
      rw [slice, slice, hname, hsize, hcontents]
      refine take_drop_overwrite_of_disjoint hhas ?_
      rw [hlen]
      exact place_disjoint hnumber
    · rw [slice, slice, hother _ hname]

/-- The length of a file after bytes were put in the place of a page. -/
theorem size_write {bytes : List UInt8} (hlen : bytes.length = f.pageSize)
    (hcontents : disk'.contents f.name =
      overwrite (disk.contents f.name) (id.offset f.pageSize) bytes) :
    (disk'.file f.name).size = max (disk.file f.name).size
      (if f.pageSize = 0 then 0 else id.offset f.pageSize + f.pageSize) := by
  rw [← Disk.length_contents, ← Disk.length_contents, hcontents]
  split_ifs with hzero
  · have hnil : bytes = [] := List.length_eq_zero_iff.1 (hlen.trans hzero)
    simp [overwrite, hnil]
  · have hne : bytes ≠ [] := fun hnil => hzero (by rw [← hlen, hnil, List.length_nil])
    rw [length_overwrite hne, hlen]

theorem sizes_of_contents {name : String} (h : disk'.contents name = disk.contents name) :
    (disk'.file name).size = (disk.file name).size := by
  rw [← Disk.length_contents, ← Disk.length_contents, h]

/-- A page that was written is the same but clean. -/
theorem mark_of_writePage {page written : Page} {disk' : Disk}
    (h : f.writePage disk page = .ok (written, disk')) : written = page.mark none := by
  unfold writePage at h
  split at h
  · cases h
  · obtain ⟨bytes, -, h⟩ := bind_eq_ok_iff.1 h
    split at h
    · cases h
    · obtain ⟨offset, -, h⟩ := bind_eq_ok_iff.1 h
      cases h
      rfl

/-- A page of the file is written, and nothing else changes. -/
theorem writePage_eq_ok {page : Page} (h : f.Holds disk page) :
    ∃ disk', f.writePage disk page = .ok (page.mark none, disk') ∧
      f.Writes disk disk' page.id page.cells := by
  obtain ⟨image, hencode, hlen, q, hdecode, hcells, -⟩ := Page.exists_image h.sound
  rw [h.size_eq] at hlen
  have hwrite : f.writePage disk page =
      .ok (page.mark none, disk.write f.name (page.id.offset f.pageSize) image) := by
    have hreach : f.place page.id = .ok (page.id.offset f.pageSize) :=
      if_neg (Nat.not_lt.2 h.addresses.2.2)
    rw [writePage, if_neg (not_not.2 h.addresses.1), hencode, hreach]
    exact if_neg (not_not.2 hlen)
  have hself := Disk.contents_write_self disk f.name (page.id.offset f.pageSize) image
  have hother : ∀ name, name ≠ f.name →
      (disk.write f.name (page.id.offset f.pageSize) image).contents name =
        disk.contents name := fun name =>
    Disk.contents_write_ne disk (page.id.offset f.pageSize) image
  -- the page was in the file, so nothing grows
  have hsizes : ∀ name, ((disk.write f.name (page.id.offset f.pageSize) image).file name).size =
      (disk.file name).size := by
    intro name
    by_cases hname : name = f.name
    · have hhas := h.has
      rw [Has, Nat.succ_mul] at hhas
      subst hname
      rw [size_write hlen hself, PageId.offset]
      split_ifs <;> omega
    · exact sizes_of_contents (hother name hname)
  have hhas : ∀ (g : HeapFile) number,
      g.Has (disk.write f.name (page.id.offset f.pageSize) image) number ↔ g.Has disk number :=
    fun g number => by rw [Has, Has, hsizes]
  obtain ⟨hslice, hslices⟩ := slice_write hlen hself hother
  refine ⟨_, hwrite, ⟨?_, fun g other hapart => sameOn_of_slice (hhas g _)
    (hslices g other hapart), fun number => ?_, fun name _ => hsizes name⟩⟩
  · refine cells?_eq_some_iff.2 ⟨q, readPage_eq_ok_iff.2 ⟨h.addresses, (hhas f _).2 h.has, ?_⟩,
      hcells⟩
    rw [hslice, ← h.schema_eq]
    exact hdecode
  · rw [hhas]
    exact ⟨.inl, fun hold => hold.elim id fun hid => hid ▸ h.has⟩

/-- The number under which a page is added. -/
def nextPage (f : HeapFile) (disk : Disk) : PageId := ⟨f.table, f.wholePages disk % pageNumbers⟩

theorem number_nextPage {count : Nat} (h : f.pageCount disk = .ok count) :
    (f.nextPage disk).number = count := by
  unfold pageCount at h
  split_ifs at h
  exact Except.ok.inj h

/-- The whole pages of a file that grew to the end of its next page. -/
theorem has_of_size (hpos : 0 < f.pageSize)
    (h : (disk'.file f.name).size =
      max (disk.file f.name).size ((f.nextPage disk).offset f.pageSize + f.pageSize))
    (number : Nat) :
    f.Has disk' number ↔ f.Has disk number ∨ number = (f.nextPage disk).number := by
  have hwhole : (f.nextPage disk).number ≤ f.wholePages disk := Nat.mod_le _ _
  -- a file has no gap before its next page
  have hcount : number ≤ (f.nextPage disk).number → f.Has disk number ∨
      number = (f.nextPage disk).number := fun hle => by
    rw [has_iff_lt hpos]
    omega
  rw [Has, h, le_max_iff, PageId.offset, ← Nat.succ_mul, Nat.mul_le_mul_right_iff hpos]
  constructor
  · rintro (hold | hle)
    · exact .inl hold
    · exact hcount (Nat.le_of_succ_le_succ hle)
  · rintro (hold | rfl)
    · exact .inl hold
    · exact .inr le_rfl

/-- A page is added by writing zeros in its place. -/
theorem appendPage_eq_ok_iff :
    f.appendPage disk = .ok (id, disk') ↔ 0 < f.pageSize ∧ f.Addresses (f.nextPage disk) ∧
      id = f.nextPage disk ∧
      disk' = disk.clear f.name ((f.nextPage disk).offset f.pageSize) f.pageSize := by
  rw [appendPage, bind_eq_ok_iff, pageCount]
  constructor
  · rintro ⟨count, hcount, h⟩
    split_ifs at hcount with hzero
    cases hcount
    split_ifs at h with hlarge
    · cases h
    obtain ⟨offset, hoffset, h⟩ := bind_eq_ok_iff.1 h
    unfold place at hoffset
    split_ifs at hoffset with hfar
    cases hoffset
    cases h
    exact ⟨Nat.pos_of_ne_zero hzero, ⟨rfl, Nat.not_lt.1 hlarge, Nat.not_lt.1 hfar⟩, rfl, rfl⟩
  · rintro ⟨hpos, ⟨-, hlarge, hfar⟩, rfl, rfl⟩
    have hreach : f.place (f.nextPage disk) = .ok ((f.nextPage disk).offset f.pageSize) :=
      if_neg (Nat.not_lt.2 hfar)
    refine ⟨_, if_neg hpos.ne', ?_⟩
    rw [if_neg (Nat.not_lt.2 hlarge)]
    exact bind_eq_ok_iff.2 ⟨_, hreach, rfl⟩

/-- The page that was added has every slot free, and nothing else changes. -/
theorem writes_of_appendPage (h : f.appendPage disk = .ok (id, disk')) :
    f.Writes disk disk' id (Page.blank f.schema f.pageSize) := by
  obtain ⟨hpos, haddr, rfl, rfl⟩ := appendPage_eq_ok_iff.1 h
  have hself := Disk.contents_clear_self disk f.name ((f.nextPage disk).offset f.pageSize)
    f.pageSize
  have hother : ∀ name, name ≠ f.name →
      (disk.clear f.name ((f.nextPage disk).offset f.pageSize) f.pageSize).contents name =
        disk.contents name := fun name =>
    Disk.contents_clear_ne disk ((f.nextPage disk).offset f.pageSize) f.pageSize
  have hsize := size_write List.length_replicate hself
  rw [if_neg hpos.ne'] at hsize
  have hgrown := has_of_size hpos hsize
  obtain ⟨hslice, hslices⟩ := slice_write List.length_replicate hself hother
  refine ⟨?_, fun g other hapart => ?_, hgrown, fun name hname =>
    sizes_of_contents (hother name hname)⟩
  · obtain ⟨q, hdecode, hcells⟩ := Page.decode_zeros (f.nextPage disk) f.schema f.pageSize
    refine cells?_eq_some_iff.2 ⟨q, readPage_eq_ok_iff.2 ⟨haddr, (hgrown _).2 (.inr rfl), ?_⟩,
      hcells⟩
    rw [hslice]
    exact hdecode
  · refine sameOn_of_slice ?_ (hslices g other hapart)
    by_cases hname : g.name = f.name
    · obtain ⟨hpage, hnumber⟩ := hapart.resolve_left (not_not.2 hname)
      have hsame := hgrown other.number
      rw [Has, Has] at hsame ⊢
      rw [hname, hpage, hsame, or_iff_left hnumber]
    · rw [Has, Has, sizes_of_contents (hother _ hname)]

/-- The page is new as long as the page numbers suffice. -/
theorem Countable.nextPage (h : f.Countable disk) (hpos : 0 < f.pageSize) :
    (f.nextPage disk).number = f.wholePages disk ∧ ¬ f.Has disk (f.nextPage disk).number := by
  have hnumber : (f.nextPage disk).number = f.wholePages disk := Nat.mod_eq_of_lt h
  refine ⟨hnumber, ?_⟩
  rw [has_iff_lt hpos, hnumber]
  exact lt_irrefl _

/-! ### Growing -/

/-- A file has got so many whole pages more, and every other file is as long as before. -/
structure Grows (f : HeapFile) (disk disk' : Disk) (pages : Nat) : Prop where
  wholePages_eq : f.wholePages disk' = f.wholePages disk + pages
  size_eq : ∀ name, name ≠ f.name → (disk'.file name).size = (disk.file name).size

theorem Grows.trans {disk'' : Disk} {m n : Nat} (h : f.Grows disk disk' m)
    (h' : f.Grows disk' disk'' n) : f.Grows disk disk'' (m + n) := by
  refine ⟨?_, fun name hname => (h'.size_eq name hname).trans (h.size_eq name hname)⟩
  rw [h'.wholePages_eq, h.wholePages_eq, Nat.add_assoc]

/-- The whole pages are counted by their numbers. -/
theorem wholePages_eq_of_has (hpos : 0 < f.pageSize) {count : Nat}
    (h : ∀ number, f.Has disk number ↔ number < count) : f.wholePages disk = count := by
  have hlt : ∀ number, number < f.wholePages disk ↔ number < count := fun number => by
    rw [← has_iff_lt hpos, h]
  have hleft := hlt count
  have hright := hlt (f.wholePages disk)
  omega

/-- Writing a page that is there adds none. -/
theorem Writes.grows {cells : List (Option Row)} (h : f.Writes disk disk' id cells)
    (hhas : f.Has disk id.number) : f.Grows disk disk' 0 := by
  refine ⟨?_, h.size_eq⟩
  rcases Nat.eq_zero_or_pos f.pageSize with hzero | hpos
  · rw [wholePages, wholePages, hzero, Nat.div_zero, Nat.div_zero]
  · refine wholePages_eq_of_has hpos fun number => ?_
    rw [h.has_iff, Nat.add_zero, ← has_iff_lt hpos]
    exact or_iff_left_of_imp fun hnumber => hnumber ▸ hhas

/-- A page that is added is one page more, as long as the page numbers suffice. -/
theorem Countable.grows (h : f.Countable disk) (happend : f.appendPage disk = .ok (id, disk')) :
    f.Grows disk disk' 1 := by
  have hwrites := writes_of_appendPage happend
  obtain ⟨hpos, -, rfl, -⟩ := appendPage_eq_ok_iff.1 happend
  refine ⟨wholePages_eq_of_has hpos fun number => ?_, hwrites.size_eq⟩
  rw [hwrites.has_iff, has_iff_lt hpos, (h.nextPage hpos).1]
  omega

end HeapFile

end Rowstore
