import Mathlib
import Rowstore.Proofs.File.Pages

/-!
# Places of pages

Which bytes of which file change when a page is written. They are those in the place of the page,
`HeapFile.Covers`, and no file changes its length if the page was in its file,
`HeapFile.bytes_of_writePage`. The bytes there read back as the page, `HeapFile.read_of_writePage`,
up to the names of the columns of its rows, `Page.Agrees`. Neither writing nor adding a page makes a
file shorter, `Disk.Extends`.
-/

namespace Rowstore

/-- Bytes that are written over become no fewer. -/
theorem le_length_overwrite (old new : List UInt8) (offset : Nat) :
    old.length ≤ (overwrite old offset new).length := by
  by_cases h : new = []
  · simp [overwrite, h]
  · rw [length_overwrite h]
    exact le_max_left _ _

namespace Disk

variable {d d' d'' : Disk}

/-- The files are as long as they were, or longer. -/
def Extends (d' d : Disk) : Prop := ∀ name, (d.file name).size ≤ (d'.file name).size

theorem Extends.refl (d : Disk) : d.Extends d := fun _ => le_rfl

theorem extends_write (d : Disk) (name : String) (offset : Nat) (bytes : List UInt8) :
    (d.write name offset bytes).Extends d := by
  intro other
  rw [← length_contents, ← length_contents]
  by_cases hother : other = name
  · rw [hother, contents_write_self]
    exact le_length_overwrite _ _ _
  · rw [contents_write_ne d offset bytes hother]

theorem extends_clear (d : Disk) (name : String) (offset count : Nat) :
    (d.clear name offset count).Extends d := by
  intro other
  rw [← length_contents, ← length_contents]
  by_cases hother : other = name
  · rw [hother, contents_clear_self]
    exact le_length_overwrite _ _ _
  · rw [contents_clear_ne d offset count hother]

/-- A file that is opened may be new, and is empty then. -/
theorem extends_openFile? {path name : String} (h : d.openFile? path = some (name, d')) :
    d'.Extends d := by
  obtain ⟨name', -, h⟩ := Option.map_eq_some_iff.1 h
  cases h
  split_ifs with hfile
  · exact .refl d
  · intro other
    by_cases hother : other = name
    · rw [hother, file_store_self, file, Option.not_isSome_iff_eq_none.1 hfile]
      rfl
    · rw [file_store_ne d _ hother]

end Disk

namespace Page

/-- Pages that are the same up to the names of the columns of their rows. -/
structure Agrees (p q : Page) : Prop where
  id_eq : p.id = q.id
  schema_eq : p.schema = q.schema
  size_eq : p.size = q.size
  bitmap_eq : p.bitmap = q.bitmap
  cells_eq : p.cells = q.cells
  dirtiedBy_eq : p.dirtiedBy = q.dirtiedBy

end Page

namespace HeapFile

variable {f : HeapFile} {disk disk' : Disk} {id : PageId} {page written : Page}

/-- A byte of a file is in the place of a page. -/
def Covers (f : HeapFile) (id : PageId) (name : String) (offset : Nat) : Prop :=
  name = f.name ∧ id.offset f.pageSize ≤ offset ∧ offset < id.offset f.pageSize + f.pageSize

/-- The bytes of a page that is written are put in its place. -/
theorem writePage_eq_ok_iff :
    f.writePage disk page = .ok (written, disk') ↔ page.id.table = f.table ∧
      ∃ bytes, page.encode = .ok bytes ∧ bytes.length = f.pageSize ∧
        page.id.offset f.pageSize + f.pageSize ≤ maxOffset ∧ written = page.mark none ∧
        disk' = disk.write f.name (page.id.offset f.pageSize) bytes := by
  unfold writePage
  split_ifs with htable
  · exact ⟨nofun, fun h => absurd h.1 htable⟩
  · rw [bind_eq_ok_iff]
    constructor
    · rintro ⟨bytes, hencode, h⟩
      split_ifs at h with hlength
      · cases h
      · obtain ⟨offset, hoffset, h⟩ := bind_eq_ok_iff.1 h
        unfold place at hoffset
        split_ifs at hoffset with hfar
        cases hoffset
        cases h
        exact ⟨not_not.1 htable, bytes, hencode, not_not.1 hlength, Nat.not_lt.1 hfar, rfl, rfl⟩
    · rintro ⟨-, bytes, hencode, hlength, hfar, rfl, rfl⟩
      have hreach : f.place page.id = .ok (page.id.offset f.pageSize) :=
        if_neg (Nat.not_lt.2 hfar)
      refine ⟨bytes, hencode, ?_⟩
      rw [if_neg (not_not.2 hlength), hreach]
      rfl

theorem extends_of_writePage (h : f.writePage disk page = .ok (written, disk')) :
    disk'.Extends disk := by
  obtain ⟨-, bytes, -, -, -, -, rfl⟩ := writePage_eq_ok_iff.1 h
  exact disk.extends_write _ _ bytes

theorem extends_of_appendPage (h : f.appendPage disk = .ok (id, disk')) : disk'.Extends disk := by
  obtain ⟨-, -, -, rfl⟩ := appendPage_eq_ok_iff.1 h
  exact disk.extends_clear _ _ _

/-- A longer file has no fewer pages. -/
theorem wholePages_le_of_extends (h : disk'.Extends disk) :
    f.wholePages disk ≤ f.wholePages disk' :=
  Nat.div_le_div_right (h f.name)

/-- A page of a longer file is still there. -/
theorem Holds.extends (h : f.Holds disk page) (hextends : disk'.Extends disk) :
    f.Holds disk' page :=
  ⟨h.sound, h.schema_eq, h.size_eq, h.addresses, h.has.trans (hextends f.name)⟩

/-- A page of the same layout in the same place may stand in the file, too. -/
theorem Holds.of_layout {page' : Page} (h : f.Holds disk page) (hsound : page'.Sound)
    (hid : page'.id = page.id) (hschema : page'.schema = page.schema)
    (hsize : page'.size = page.size) : f.Holds disk page' where
  sound := hsound
  schema_eq := hschema.trans h.schema_eq
  size_eq := hsize.trans h.size_eq
  addresses := hid ▸ h.addresses
  has := hid ▸ h.has

/-- Bytes put in the place of a page change no byte outside it, if the file reaches up to there. -/
theorem covers_of_overwrite {bytes : List UInt8} (hlength : bytes.length = f.pageSize)
    (hreach : id.offset f.pageSize ≤ (disk.file f.name).size)
    (hself : disk'.contents f.name =
      overwrite (disk.contents f.name) (id.offset f.pageSize) bytes)
    (hother : ∀ name, name ≠ f.name → disk'.contents name = disk.contents name) {name : String}
    {offset : Nat} (hne : (disk'.contents name)[offset]? ≠ (disk.contents name)[offset]?) :
    f.Covers id name offset := by
  by_cases hname : name = f.name
  · subst hname
    refine ⟨rfl, ?_⟩
    by_contra hout
    rw [← Disk.length_contents] at hreach
    rw [hself] at hne
    by_cases hnil : bytes = []
    · exact hne (by simp [overwrite, hnil])
    · refine hne ?_
      rw [getElem?_overwrite hnil (by omega), hlength]
      split_ifs <;> [rfl; omega; rfl]
  · exact absurd (by rw [hother name hname]) hne

/-- No byte changes but those in the place of the page, if the page is in the file. -/
theorem bytes_of_writePage (h : f.Holds disk page)
    (hwrite : f.writePage disk page = .ok (written, disk')) :
    (∀ name, (disk'.file name).size = (disk.file name).size) ∧
      ∀ (name : String) (offset : Nat),
        (disk'.contents name)[offset]? ≠ (disk.contents name)[offset]? →
          f.Covers page.id name offset := by
  obtain ⟨-, bytes, -, hlength, -, -, rfl⟩ := writePage_eq_ok_iff.1 hwrite
  have hself := Disk.contents_write_self disk f.name (page.id.offset f.pageSize) bytes
  have hother : ∀ name, name ≠ f.name →
      (disk.write f.name (page.id.offset f.pageSize) bytes).contents name = disk.contents name :=
    fun name => Disk.contents_write_ne disk _ bytes
  have hhas := h.has
  rw [Has, Nat.succ_mul] at hhas
  constructor
  · intro name
    by_cases hname : name = f.name
    · subst hname
      rw [size_write hlength hself, PageId.offset]
      split_ifs <;> omega
    · exact sizes_of_contents (hother name hname)
  · intro name offset
    exact covers_of_overwrite hlength (by rw [PageId.offset]; omega) hself hother

/-- The bytes that are written read back as the page. -/
theorem read_of_writePage (h : f.Holds disk page)
    (hwrite : f.writePage disk page = .ok (written, disk')) :
    ∃ read, f.readPage disk' page.id = .ok read ∧ read.Agrees written := by
  have hhas := (h.extends (extends_of_writePage hwrite)).has
  obtain ⟨-, bytes, hencode, hlength, -, rfl, rfl⟩ := writePage_eq_ok_iff.1 hwrite
  obtain ⟨image, hencode', -, read, hdecode, hcells, hbitmap⟩ := Page.exists_image h.sound
  cases hencode.symm.trans hencode'
  obtain ⟨hslice, -⟩ := slice_write hlength
    (Disk.contents_write_self disk f.name (page.id.offset f.pageSize) bytes)
    fun name => Disk.contents_write_ne disk (page.id.offset f.pageSize) bytes
  rw [h.schema_eq, ← hslice] at hdecode
  have hread := readPage_eq_ok_iff.2 ⟨h.addresses, hhas, hdecode⟩
  obtain ⟨hholds, hid, hclean⟩ := holds_of_readPage hread
  exact ⟨read, hread, hid, hholds.schema_eq.trans h.schema_eq.symm,
    hholds.size_eq.trans h.size_eq.symm, hbitmap, hcells, hclean⟩

end HeapFile

end Rowstore
