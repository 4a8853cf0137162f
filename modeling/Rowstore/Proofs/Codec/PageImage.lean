import Mathlib
import Rowstore.Page
import Rowstore.Proofs.Codec.Row

/-!
# Page images

A page survives being written and read. `Page.Sound` is what every page of a store satisfies: as
many slots as the layout gives, bits that say which of them are used, and rows that fit, each with
the record of its slot.

* `Page.cells` is what a page says: for each slot the row in it, up to the names of its columns.
* `Page.decode_eq_ok_iff` reads the decoder slot by slot, and `Page.sound_of_decode` says that it
  gives sound pages only.
* `Page.exists_image`: a sound page has an image of its size, which decodes to a page with the same
  cells.
* `Page.decode_zeros`: zeros decode to a page with every slot free.
-/

namespace Rowstore

/-! ### Layout -/

/-- A bitmap and its slots fit a page exactly if the page has that many slots. -/
theorem bitmapBytes_add_slots_le_iff {pageSize rowSize slots : Nat} :
    bitmapBytes slots + slots * rowSize ≤ pageSize ↔ slots ≤ slotCount pageSize rowSize := by
  have hexpand : slots * (rowSize * 8 + 1) = slots * rowSize * 8 + slots := by ring
  -- rows and page are whole bytes, so what the bitmap is rounded up by was left over anyway
  have hbits : bitmapBytes slots + slots * rowSize ≤ pageSize ↔
      slots * (rowSize * 8 + 1) ≤ pageSize * 8 := by
    rw [hexpand]
    unfold bitmapBytes
    omega
  rw [hbits, slotCount, Nat.le_div_iff_mul_le (Nat.succ_pos _)]

/-- The bitmap and the slots fit the page. -/
theorem bitmapBytes_add_slots_le (pageSize rowSize : Nat) :
    bitmapBytes (slotCount pageSize rowSize) + slotCount pageSize rowSize * rowSize ≤ pageSize :=
  bitmapBytes_add_slots_le_iff.2 le_rfl

theorem le_bitmapBytes (slots : Nat) : slots ≤ 8 * bitmapBytes slots := by
  unfold bitmapBytes
  omega

section Pieces

variable {α : Type}

theorem getElem?_pieces (width n : Nat) (l : List α) (i : Nat) :
    (pieces width n l)[i]? = if i < n then some ((l.drop (i * width)).take width) else none := by
  induction n generalizing l i with
  | zero => simp [pieces]
  | succ n ih =>
    cases i with
    | zero => simp [pieces]
    | succ i =>
      simp only [pieces, List.getElem?_cons_succ, ih, List.drop_drop, Nat.succ_mul,
        Nat.add_lt_add_iff_right, Nat.add_comm width]

/-- Lists of one width are the pieces of their concatenation. -/
theorem take_drop_flatten {width : Nat} {xs : List (List α)} (h : ∀ x ∈ xs, x.length = width)
    (rest : List α) {i : Nat} (hi : i < xs.length) :
    ((xs.flatten ++ rest).drop (i * width)).take width = xs[i] := by
  induction xs generalizing i with
  | nil => simp at hi
  | cons x xs ih =>
    have hx : x.length = width := h x (by simp)
    cases i with
    | zero => simp [List.append_assoc, List.take_left' hx]
    | succ i =>
      have hdrop : (x ++ (xs.flatten ++ rest)).drop ((i + 1) * width) =
          (xs.flatten ++ rest).drop (i * width) := by
        rw [Nat.succ_mul, Nat.add_comm, ← List.drop_drop, List.drop_left' hx]
      rw [List.flatten_cons, List.append_assoc, hdrop]
      exact ih (fun y hy => h y (List.mem_cons_of_mem _ hy)) (by simpa using hi)

theorem length_flatten_of_width {width : Nat} {xs : List (List α)}
    (h : ∀ x ∈ xs, x.length = width) : xs.flatten.length = xs.length * width := by
  induction xs with
  | nil => simp
  | cons x xs ih =>
    rw [List.flatten_cons, List.length_append, h x (by simp),
      ih fun y hy => h y (List.mem_cons_of_mem _ hy), List.length_cons, Nat.succ_mul, Nat.add_comm]

end Pieces

namespace Page

/-- The rows in the slots, up to the names of their columns. -/
def cells (p : Page) : List (Option Row) := p.slots.map (Option.map Tuple.row)

@[simp] theorem length_cells (p : Page) : p.cells.length = p.slots.length := by simp [cells]

@[simp] theorem cells_mark (p : Page) (tx : Option TxId) : (p.mark tx).cells = p.cells := rfl

/-- The cells of a page with every slot free. -/
def blank (schema : Schema) (size : Nat) : List (Option Row) :=
  List.replicate (slotCount size schema.size) none

/-- What every page of a store satisfies. -/
structure Sound (p : Page) : Prop where
  length_slots : p.slots.length = slotCount p.size p.schema.size
  length_bitmap : p.bitmap.length = 8 * bitmapBytes p.slots.length
  occupancy_eq : p.occupancy = p.slots.map Option.isSome
  row_ok : ∀ (i : Nat) (row : Tuple), p.slots[i]? = some (some row) →
    row.Fits p.schema ∧ row.record = some ⟨p.id, i⟩ ∧ i ≤ maxSlot

theorem Sound.mark {p : Page} (h : p.Sound) (tx : Option TxId) : (p.mark tx).Sound :=
  ⟨h.length_slots, h.length_bitmap, h.occupancy_eq, h.row_ok⟩

/-! ### Reading an image -/

section Decode

variable (schema : Schema) (image : List UInt8)

/-- The bits of the bitmap of an image. -/
def imageBits : List Bool :=
  Bitmap.unpack (image.take (bitmapBytes (slotCount image.length schema.size)))

/-- The bytes of a slot of an image. -/
def imageSlot (i : Nat) : List UInt8 :=
  ((image.drop (bitmapBytes (slotCount image.length schema.size))).drop
    (i * schema.size)).take schema.size

theorem length_imageBits :
    (imageBits schema image).length = 8 * bitmapBytes (slotCount image.length schema.size) := by
  have hfit := bitmapBytes_add_slots_le image.length schema.size
  rw [imageBits, Bitmap.length_unpack, List.length_take, Nat.min_eq_left (by omega)]

theorem lt_length_imageBits {i : Nat} (hi : i < slotCount image.length schema.size) :
    i < (imageBits schema image).length := by
  rw [length_imageBits]
  exact lt_of_lt_of_le hi (le_bitmapBytes _)

/-- The page of an image and the rows found in its slots. -/
def ofImage (id : PageId) (slots : List (Option Tuple)) : Page :=
  { id, schema, size := image.length, bitmap := imageBits schema image, slots, dirtiedBy := none }

variable {schema image}

/-- An image decodes to a page exactly when each of its slots does. -/
theorem decode_eq_ok_iff {id : PageId} {p : Page} :
    decode id schema image = .ok p ↔ ∃ slots : List (Option Tuple),
      slots.length = slotCount image.length schema.size ∧
      (∀ (i : Nat) (hi : i < slots.length) (hbit : i < (imageBits schema image).length),
        decodeSlot id schema i (imageBits schema image)[i] (imageSlot schema image i) =
          .ok slots[i]) ∧
      p = ofImage schema image id slots := by
  let count := slotCount image.length schema.size
  let cells := pieces schema.size count (image.drop (bitmapBytes count))
  let entries := ((imageBits schema image).zip cells).zipIdx
  have hentries : entries.length = count := by
    have hbits : (imageBits schema image).length = 8 * bitmapBytes count :=
      length_imageBits schema image
    have hle := le_bitmapBytes count
    simp only [entries, cells, List.length_zipIdx, List.length_zip, length_pieces, hbits]
    omega
  have hentry : ∀ (i : Nat) (hi : i < entries.length) (hbit : i < (imageBits schema image).length),
      entries[i] = (((imageBits schema image)[i], imageSlot schema image i), i) := by
    intro i hi hbit
    have hcell : i < cells.length := by
      simp only [cells, length_pieces]
      omega
    have hpiece : cells[i] = imageSlot schema image i := by
      have hget := getElem?_pieces schema.size count (image.drop (bitmapBytes count)) i
      rw [if_pos (by omega), List.getElem?_eq_getElem hcell, Option.some.injEq] at hget
      exact hget
    simp only [entries, List.getElem_zipIdx, List.getElem_zip, hpiece, Nat.zero_add]
  have hunfold : decode id schema image = entries.mapM (fun entry =>
      decodeSlot id schema entry.2 entry.1.1 entry.1.2) >>= fun slots =>
        .ok (ofImage schema image id slots) := rfl
  rw [hunfold, bind_eq_ok_iff]
  refine exists_congr fun slots => ?_
  rw [mapM_eq_ok_iff, List.forall₂_iff_get, and_assoc]
  constructor
  · rintro ⟨hlen, hget, hp⟩
    refine ⟨hlen.symm.trans hentries, fun i hi hbit => ?_, by cases hp; rfl⟩
    have hi' : i < entries.length := by omega
    have h := hget i hi' hi
    simp only [List.get_eq_getElem, hentry i hi' hbit] at h
    exact h
  · rintro ⟨hlen, hget, hp⟩
    refine ⟨hentries.trans hlen.symm, fun i hi hi' => ?_, by rw [hp]⟩
    have hbit := lt_length_imageBits schema image (hentries ▸ hi)
    simp only [List.get_eq_getElem, hentry i hi hbit]
    exact hget i hi' hbit

/-- A slot is free, or it has a row that was read from its bytes. -/
theorem decodeSlot_cases {id : PageId} {slot : Nat} {used : Bool} {cell : List UInt8}
    {o : Option Tuple} (h : decodeSlot id schema slot used cell = .ok o) :
    (used = false ∧ o = none) ∨
      ∃ row rest, used = true ∧ Tuple.read schema cell = (some row, rest) ∧ slot ≤ maxSlot ∧
        o = some { row with record := some ⟨id, slot⟩ } := by
  unfold decodeSlot at h
  split at h
  · rename_i hused
    cases h
    exact .inl ⟨by simpa using hused, rfl⟩
  · rename_i hused
    split at h
    · cases h
    · rename_i row hread
      split at h
      · cases h
      · rename_i hslot
        cases h
        exact .inr ⟨row, _, by simpa using hused, Prod.ext hread rfl, by omega, rfl⟩

/-- What a slot decodes to. -/
theorem decodeSlot_eq_ok {id : PageId} {slot : Nat} {used : Bool} {cell : List UInt8}
    {o : Option Tuple} (h : decodeSlot id schema slot used cell = .ok o) :
    o.isSome = used ∧
      ∀ row, o = some row → row.Fits schema ∧ row.record = some ⟨id, slot⟩ ∧ slot ≤ maxSlot := by
  rcases decodeSlot_cases h with ⟨rfl, rfl⟩ | ⟨row, rest, rfl, hread, hslot, rfl⟩
  · exact ⟨rfl, nofun⟩
  · refine ⟨rfl, ?_⟩
    rintro _ ⟨⟩
    exact ⟨(Tuple.fits_of_read hread).2, rfl, hslot⟩

/-- The page that an image decodes to is sound, and clean. -/
theorem sound_of_decode {id : PageId} {p : Page} (h : decode id schema image = .ok p) :
    p.Sound ∧ p.id = id ∧ p.schema = schema ∧ p.size = image.length ∧ p.dirtiedBy = none := by
  obtain ⟨slots, hlen, hslots, rfl⟩ := decode_eq_ok_iff.1 h
  have hbit : ∀ i, i < slots.length → i < (imageBits schema image).length := fun i hi =>
    lt_length_imageBits schema image (hlen ▸ hi)
  have hslot : ∀ (i : Nat) (hi : i < slots.length),
      slots[i].isSome = (imageBits schema image).get ⟨i, hbit i hi⟩ ∧
        ∀ row, slots[i] = some row →
          row.Fits schema ∧ row.record = some ⟨id, i⟩ ∧ i ≤ maxSlot := fun i hi =>
    decodeSlot_eq_ok (hslots i hi (hbit i hi))
  refine ⟨⟨hlen, ?_, ?_, ?_⟩, rfl, rfl, rfl, rfl⟩
  · rw [show (ofImage schema image id slots).slots.length = slots.length from rfl, hlen]
    exact length_imageBits schema image
  · refine List.ext_getElem ?_ fun i hi hi' => ?_
    · have hle : slots.length ≤ (imageBits schema image).length := by
        rw [length_imageBits, hlen]
        exact le_bitmapBytes _
      simpa [occupancy, ofImage] using hle
    · have hi'' : i < slots.length := by simpa [ofImage] using hi'
      simpa [occupancy, ofImage] using (hslot i hi'').1.symm
  · intro i row hrow
    obtain ⟨hi, hrow⟩ := List.getElem?_eq_some_iff.1 hrow
    exact (hslot i hi).2 row hrow

end Decode

/-! ### Writing an image -/

/-- What a slot holds has a written form of the size of a row, which reads back. -/
theorem exists_slotImage {id : PageId} {schema : Schema} (slot : Nat) {o : Option Tuple}
    (h : ∀ row, o = some row → row.Fits schema ∧ row.record = some ⟨id, slot⟩ ∧ slot ≤ maxSlot) :
    ∃ cell, encodeSlot schema.size o = .ok cell ∧ cell.length = schema.size ∧
      ∃ o', decodeSlot id schema slot o.isSome cell = .ok o' ∧
        o'.map Tuple.row = o.map Tuple.row := by
  cases o with
  | none => exact ⟨List.replicate schema.size 0, rfl, by simp, none, rfl, rfl⟩
  | some row =>
    obtain ⟨hfits, hrecord, hslot⟩ := h row rfl
    obtain ⟨cell, hencode, hlen, hread⟩ := Tuple.exists_image hfits
    obtain ⟨u, hu, hschema, hvalues⟩ := hread []
    have htypes : row.schema.types = schema.types := hfits.1
    rw [List.append_nil] at hu
    refine ⟨cell, hencode, hlen, some { u with record := some ⟨id, slot⟩ }, ?_, ?_⟩
    · simp only [decodeSlot, hu]
      rw [if_neg (by simp), if_neg (by omega)]
    · simp only [Option.map_some, Tuple.row, hschema, hvalues, hrecord, htypes]

theorem length_pack {bits : List Bool} {n : Nat} (h : bits.length = 8 * n) :
    (Bitmap.pack bits).length = n := by
  have hlen := congrArg List.length (Bitmap.unpack_pack bits ⟨n, h⟩)
  rw [Bitmap.length_unpack, h] at hlen
  omega

theorem Sound.getElem_bitmap {p : Page} (h : p.Sound) {i : Nat} (hi : i < p.slots.length)
    (hbit : i < p.bitmap.length) : p.bitmap[i] = p.slots[i].isSome := by
  have hget := congrArg (·[i]?) h.occupancy_eq
  simpa [occupancy, List.getElem?_take, hi, hbit] using hget

/-- The bits and the slots of an image that was put together from them. -/
theorem image_parts {schema : Schema} {image head rest : List UInt8} {cells : List (List UInt8)}
    (himage : image = head ++ cells.flatten ++ rest)
    (hwidth : ∀ c ∈ cells, c.length = schema.size)
    (hcount : slotCount image.length schema.size = cells.length)
    (hhead : head.length = bitmapBytes cells.length) :
    imageBits schema image = Bitmap.unpack head ∧
      ∀ (i : Nat) (hi : i < cells.length), imageSlot schema image i = cells[i] := by
  have hhead' : head.length = bitmapBytes (slotCount image.length schema.size) := by
    rw [hcount, hhead]
  rw [List.append_assoc] at himage
  have htake : image.take (bitmapBytes (slotCount image.length schema.size)) = head := by
    rw [← hhead', himage, List.take_left]
  have hdrop : image.drop (bitmapBytes (slotCount image.length schema.size)) =
      cells.flatten ++ rest := by
    rw [← hhead', himage, List.drop_left]
  refine ⟨by rw [imageBits, htake], fun i hi => ?_⟩
  rw [imageSlot, hdrop, take_drop_flatten hwidth rest hi]

/-- The slots of a sound page have written forms of one width, which read back. -/
theorem exists_slotImages {p : Page} (h : p.Sound) :
    ∃ (cells : List (List UInt8)) (slots : List (Option Tuple)),
      p.slots.mapM (encodeSlot p.schema.size) = .ok cells ∧
      (∀ c ∈ cells, c.length = p.schema.size) ∧ cells.length = p.slots.length ∧
      slots.map (Option.map Tuple.row) = p.cells ∧
      ∀ (i : Nat) (hi : i < p.slots.length) (hc : i < cells.length) (hs : i < slots.length),
        decodeSlot p.id p.schema i p.slots[i].isSome cells[i] = .ok slots[i] := by
  have hslot := fun (i : Nat) (hi : i < p.slots.length) =>
    exists_slotImage i fun row (hrow : p.slots[i] = some row) =>
      h.row_ok i row (List.getElem?_eq_some_iff.2 ⟨hi, hrow⟩)
  choose cell hencode hlen read hdecode hrow using hslot
  refine ⟨List.ofFn fun i : Fin p.slots.length => cell i.1 i.2,
    List.ofFn fun i : Fin p.slots.length => read i.1 i.2, ?_, ?_, by simp, ?_,
    fun i hi hc hs => by simpa using hdecode i hi⟩
  · refine mapM_eq_ok_iff.2 (List.forall₂_iff_get.2 ⟨by simp, fun i hi hi' => ?_⟩)
    simpa using hencode i hi
  · intro c hc
    obtain ⟨i, rfl⟩ := List.mem_ofFn.1 hc
    exact hlen i.1 i.2
  · refine List.ext_getElem (by simp [Page.cells]) fun i hi hi' => ?_
    have hlt : i < p.slots.length := by simpa [Page.cells] using hi'
    simpa [Page.cells] using hrow i hlt

/-- A sound page has an image of its size, which decodes to a page with the same cells and bits. -/
theorem exists_image {p : Page} (h : p.Sound) :
    ∃ image, p.encode = .ok image ∧ image.length = p.size ∧
      ∃ q, decode p.id p.schema image = .ok q ∧ q.cells = p.cells ∧ q.bitmap = p.bitmap := by
  obtain ⟨cells, slots, hencode, hwidth, hlength, hrows, hdecode⟩ := exists_slotImages h
  have hflat : cells.flatten.length = p.slots.length * p.schema.size := by
    rw [length_flatten_of_width hwidth, hlength]
  have hpack := length_pack h.length_bitmap
  have hcount : slotCount p.size p.schema.size = p.slots.length := h.length_slots.symm
  have hfit := bitmapBytes_add_slots_le p.size p.schema.size
  rw [hcount] at hfit
  let used := Bitmap.pack p.bitmap ++ cells.flatten
  let image := used ++ List.replicate (p.size - used.length) 0
  have himage : image.length = p.size := by
    simp only [image, used, List.length_append, hpack, hflat, List.length_replicate]
    omega
  have hparts : image = Bitmap.pack p.bitmap ++ cells.flatten ++
      List.replicate (p.size - used.length) 0 := rfl
  obtain ⟨hbits, hbytes⟩ := image_parts hparts hwidth
    (by rw [himage, hcount, hlength]) (by rw [hpack, hlength])
  rw [Bitmap.unpack_pack _ ⟨_, h.length_bitmap⟩] at hbits
  have hslots : slots.length = p.slots.length := by
    simpa [Page.cells] using congrArg List.length hrows
  refine ⟨image, by unfold encode; rw [hencode]; rfl, himage, ofImage p.schema image p.id slots,
    decode_eq_ok_iff.2 ⟨slots, by rw [hslots, himage, hcount], fun i hi hbit => ?_, rfl⟩, hrows,
    hbits⟩
  -- the bit of a slot says whether it is used, and its bytes are those that were written
  have hi' : i < p.slots.length := hslots ▸ hi
  have hused : (imageBits p.schema image)[i] = p.slots[i].isSome := by
    simp only [hbits]
    exact h.getElem_bitmap hi' _
  rw [hused, hbytes i (hlength.symm ▸ hi')]
  exact hdecode i hi' _ hi

/-- Zeros decode to the page with every slot free. -/
theorem decode_zeros_eq_empty (id : PageId) (schema : Schema) (size : Nat) :
    decode id schema (List.replicate size 0) = .ok (empty id schema size) := by
  have hzero : Bitmap.bits 0 = List.replicate 8 false := by decide
  have hunpack : ∀ n, Bitmap.unpack (List.replicate n 0) = List.replicate (8 * n) false := by
    intro n
    induction n with
    | zero => rfl
    | succ n ih =>
      rw [List.replicate_succ, Bitmap.unpack_cons, ih, hzero, List.replicate_append_replicate]
      congr 1
      omega
  have hfit := bitmapBytes_add_slots_le size schema.size
  have hbits : imageBits schema (List.replicate size 0) =
      List.replicate (8 * bitmapBytes (slotCount size schema.size)) false := by
    rw [imageBits, List.length_replicate, List.take_replicate, hunpack, Nat.min_eq_left (by omega)]
  refine decode_eq_ok_iff.2 ⟨(empty id schema size).slots, by simp [empty], fun i hi hbit => ?_, ?_⟩
  · simp [hbits, decodeSlot, empty]
  · simp [ofImage, empty, hbits]

/-- Zeros decode to a page with every slot free. -/
theorem decode_zeros (id : PageId) (schema : Schema) (size : Nat) :
    ∃ p, decode id schema (List.replicate size 0) = .ok p ∧ p.cells = blank schema size :=
  ⟨_, decode_zeros_eq_empty id schema size, by simp [cells, empty, blank]⟩

end Page

end Rowstore
