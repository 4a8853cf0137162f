import Mathlib
import Rowstore.Proofs.Codec.PageImage

/-!
# Significant bytes

Which bytes of an image tell what is on the page: the bitmap, and of the used slots the integers and
the lengths and texts of the strings. Free slots, the rest of a string's cell and what comes after
the last slot tell nothing.

* `wipe` puts zeros where a mask does not hold.
* `Value.encode_of_ofCell?`, `Tuple.encode_of_readValues`: what is read from bytes is written as
  those bytes with everything insignificant wiped.
* `Page.encode_of_decode`: so is a page.
-/

namespace Rowstore

/-! ### Wiping -/

/-- The bytes, with a zero in every place where the mask does not hold. -/
def wipe (mask : List Bool) (bytes : List UInt8) : List UInt8 :=
  List.zipWith (fun keep byte => if keep then byte else 0) mask bytes

section Wipe

variable {mask mask' : List Bool} {bytes bytes' : List UInt8}

theorem length_wipe (h : mask.length = bytes.length) : (wipe mask bytes).length = bytes.length := by
  simp [wipe, h]

theorem wipe_append (h : mask.length = bytes.length) :
    wipe (mask ++ mask') (bytes ++ bytes') = wipe mask bytes ++ wipe mask' bytes' :=
  List.zipWith_append h

theorem wipe_all {n : Nat} (h : bytes.length = n) : wipe (List.replicate n true) bytes = bytes := by
  subst h
  induction bytes with
  | nil => rfl
  | cons b bytes ih =>
    rw [List.length_cons, List.replicate_succ]
    exact congrArg (b :: ·) ih

theorem wipe_none {n : Nat} (h : bytes.length = n) :
    wipe (List.replicate n false) bytes = List.replicate n 0 := by
  subst h
  induction bytes with
  | nil => rfl
  | cons b bytes ih =>
    rw [List.length_cons, List.replicate_succ, List.replicate_succ]
    exact congrArg (0 :: ·) ih

/-- Wiping changes nothing exactly if the bytes that it covers are zeros already. -/
theorem wipe_eq_self_iff (h : mask.length = bytes.length) :
    wipe mask bytes = bytes ↔ ∀ i : Nat, mask[i]? = some false → bytes[i]? = some 0 := by
  constructor
  · intro hsame i hi
    obtain ⟨hlt, hfalse⟩ := List.getElem?_eq_some_iff.1 hi
    have hget : (wipe mask bytes)[i]? = bytes[i]? := by rw [hsame]
    simp only [wipe, List.getElem?_zipWith, hi] at hget
    rw [List.getElem?_eq_getElem (h ▸ hlt)] at hget ⊢
    simpa using hget.symm
  · intro hzero
    refine List.ext_getElem (length_wipe h) fun i hi hi' => ?_
    have hmask : i < mask.length := h ▸ hi'
    rw [show (wipe mask bytes)[i] = if mask[i] then bytes[i] else 0 by simp [wipe]]
    split_ifs with hkeep
    · rfl
    · have hbyte := hzero i (by rw [List.getElem?_eq_getElem hmask]; simpa using hkeep)
      rw [List.getElem?_eq_getElem hi', Option.some.injEq] at hbyte
      exact hbyte.symm

/-- Wiping pieces one by one wipes the whole. -/
theorem wipe_flatten {masks : List (List Bool)} {cells : List (List UInt8)}
    (h : List.Forall₂ (fun mask cell => mask.length = cell.length) masks cells) :
    wipe masks.flatten cells.flatten = (List.zipWith wipe masks cells).flatten := by
  induction h with
  | nil => rfl
  | cons hlen _ ih =>
    rw [List.flatten_cons, List.flatten_cons, wipe_append hlen, ih, List.zipWith_cons_cons,
      List.flatten_cons]

theorem length_flatten_congr {masks : List (List Bool)} {cells : List (List UInt8)}
    (h : List.Forall₂ (fun mask cell => mask.length = cell.length) masks cells) :
    masks.flatten.length = cells.flatten.length := by
  induction h with
  | nil => rfl
  | cons hlen _ ih => rw [List.flatten_cons, List.flatten_cons, List.length_append,
      List.length_append, hlen, ih]

end Wipe

/-! ### Cells -/

namespace Value

/-- The significant bytes of a cell: all of an integer, the length and the text of a string. -/
def significant (type : ColumnType) (cell : List UInt8) : List Bool :=
  match type with
  | .int => List.replicate 4 true
  | .str =>
    let length := LittleEndian.value (cell.take 4)
    List.replicate (4 + length) true ++ List.replicate (maxTextBytes - length) false

theorem length_significant {type : ColumnType} {cell : List UInt8} {v : Value}
    (h : ofCell? type cell = some v) : (significant type cell).length = type.width := by
  cases type with
  | int => rfl
  | str =>
    simp only [ofCell?] at h
    split at h
    · cases h
    · simp only [significant, List.length_append, List.length_replicate, ColumnType.width]
      omega

/-- The value of a cell is written as the cell was, but for the rest after a string. -/
theorem encode_of_ofCell? {type : ColumnType} {cell : List UInt8} {v : Value}
    (hlen : cell.length = type.width) (h : ofCell? type cell = some v) :
    v.encode = .ok (wipe (significant type cell) cell) := by
  cases type with
  | int =>
    have htake : cell.take 4 = cell := List.take_of_length_le hlen.le
    have hlt : LittleEndian.value cell < 2 ^ 32 := by
      have hvalue := LittleEndian.value_lt cell
      rw [hlen] at hvalue
      exact hvalue
    simp only [ofCell?, htake] at h
    cases h
    have hbits : ((UInt32.ofNat (LittleEndian.value cell)).toInt32.toUInt32).toNat =
        LittleEndian.value cell := by
      rw [show (UInt32.ofNat (LittleEndian.value cell)).toInt32.toUInt32 =
        UInt32.ofNat (LittleEndian.value cell) from rfl, UInt32.toNat_ofNat', Nat.mod_eq_of_lt hlt]
    have hbytes : LittleEndian.bytes 4 (LittleEndian.value cell) = cell := by
      rw [show (4 : Nat) = cell.length from hlen.symm, LittleEndian.bytes_value]
    have hfour : cell.length = 4 := hlen
    rw [encode, hbits, hbytes, significant, wipe_all hfour]
  | str =>
    simp only [ofCell?] at h
    split at h
    · cases h
    rename_i hmax
    obtain ⟨s, hs, rfl⟩ := Option.map_eq_some_iff.1 h
    -- the cell is its length, the text, and some bytes after that
    have htext := TextBytes.encode_of_decode? hs
    generalize hlength : LittleEndian.value (cell.take 4) = length at hmax hs htext
    rw [ColumnType.width] at hlen
    have hsize : (TextBytes.encode s).length = length := by
      rw [htext, List.length_take, List.length_drop]
      omega
    have hhead : LittleEndian.bytes 4 length = cell.take 4 := by
      have hfour : (cell.take 4).length = 4 := by rw [List.length_take]; omega
      have hbytes := LittleEndian.bytes_value (cell.take 4)
      rwa [hfour, hlength] at hbytes
    have hcell : cell = (cell.take 4 ++ TextBytes.encode s) ++ (cell.drop 4).drop length := by
      rw [htext, List.append_assoc, List.take_append_drop, List.take_append_drop]
    have hfront : (cell.take 4 ++ TextBytes.encode s).length = 4 + length := by
      rw [List.length_append, hsize, List.length_take]
      omega
    have hrest : ((cell.drop 4).drop length).length = maxTextBytes - length := by
      rw [List.length_drop, List.length_drop]
      omega
    have hwipe : wipe (significant .str cell) cell =
        cell.take 4 ++ TextBytes.encode s ++ List.replicate (maxTextBytes - length) 0 := by
      simp only [significant, hlength]
      conv_lhs => rw [hcell]
      rw [wipe_append (by rw [List.length_replicate, hfront]), wipe_all hfront, wipe_none hrest]
    have hshort : ¬ length > maxTextBytes := hmax
    simp only [encode, hsize, if_neg hshort, hwipe, hhead]

end Value

/-! ### Rows -/

namespace Tuple

/-- The significant bytes of the cells of a row. -/
def significant : List ColumnType → List UInt8 → List Bool
  | [], _ => []
  | type :: types, bytes =>
    Value.significant type (bytes.take type.width) ++ significant types (bytes.drop type.width)

/-- Values that are read from their cells are written as the cells were, with the insignificant
bytes wiped. -/
theorem encode_of_readValues {types : List ColumnType} {bytes rest : List UInt8} {vs : List Value}
    (hlen : bytes.length = ColumnType.totalWidth types)
    (h : readValues types bytes = (some vs, rest)) :
    (significant types bytes).length = bytes.length ∧
      ∃ cells, List.Forall₂ (fun v cell => Value.encode v = .ok cell) vs cells ∧
        cells.flatten = wipe (significant types bytes) bytes := by
  induction types generalizing bytes vs with
  | nil =>
    cases h
    exact ⟨hlen.symm, [], .nil, rfl⟩
  | cons type types ih =>
    rw [ColumnType.totalWidth_cons] at hlen
    have hwidth : (bytes.take type.width).length = type.width := by
      rw [List.length_take]
      omega
    have hdrop : (bytes.drop type.width).length = ColumnType.totalWidth types := by
      rw [List.length_drop]
      omega
    simp only [readValues, Value.read, hwidth, lt_irrefl, if_false] at h
    cases hcell : Value.ofCell? type (bytes.take type.width) with
    | none =>
      rw [hcell] at h
      simp only at h
      split at h <;> rename_i heq <;> split at heq <;> cases heq
      all_goals cases h
    | some v =>
      rw [hcell] at h
      simp only at h
      split at h
      · cases h
      · rename_i hvalues
        cases h
        obtain ⟨hlength, cells, hcells, hflat⟩ := ih hdrop hvalues
        have hsignificant : (Value.significant type (bytes.take type.width)).length =
            (bytes.take type.width).length := by
          rw [Value.length_significant hcell, hwidth]
        refine ⟨?_, _, .cons (Value.encode_of_ofCell? hwidth hcell) hcells, ?_⟩
        · rw [significant, List.length_append, hsignificant, hlength, ← List.length_append,
            List.take_append_drop]
        · have hsplit : wipe (significant (type :: types) bytes)
              (bytes.take type.width ++ bytes.drop type.width) =
                wipe (Value.significant type (bytes.take type.width)) (bytes.take type.width) ++
                  wipe (significant types (bytes.drop type.width)) (bytes.drop type.width) :=
            wipe_append hsignificant
          rw [List.take_append_drop] at hsplit
          rw [List.flatten_cons, hflat, hsplit]

end Tuple

/-! ### Pages -/

/-- Pieces put together again. -/
theorem flatten_pieces {α : Type} (width n : Nat) (l : List α) :
    (pieces width n l).flatten = l.take (n * width) := by
  induction n generalizing l with
  | zero => simp [pieces]
  | succ n ih =>
    rw [pieces, List.flatten_cons, ih, Nat.succ_mul, Nat.add_comm, List.take_add]

namespace Page

variable {id : PageId} {schema : Schema}

/-- The slots of an image. -/
def imageSlots (schema : Schema) (image : List UInt8) : List (List UInt8) :=
  let count := slotCount image.length schema.size
  pieces schema.size count (image.drop (bitmapBytes count))

/-- The bytes that come after the slots of an image. -/
def imageRest (schema : Schema) (image : List UInt8) : List UInt8 :=
  let count := slotCount image.length schema.size
  image.drop (bitmapBytes count + count * schema.size)

/-- The significant bytes of a slot with the given bit. -/
def slotSignificant (schema : Schema) (used : Bool) (cell : List UInt8) : List Bool :=
  if used then Tuple.significant schema.types cell else List.replicate schema.size false

/-- The significant bytes of the slots of an image. -/
def slotsSignificant (schema : Schema) (image : List UInt8) : List (List Bool) :=
  List.zipWith (slotSignificant schema) (imageBits schema image) (imageSlots schema image)

/-- The significant bytes of an image: the bitmap and what its slots have, and nothing after the
last slot. -/
def significant (schema : Schema) (image : List UInt8) : List Bool :=
  List.replicate (bitmapBytes (slotCount image.length schema.size)) true ++
    (slotsSignificant schema image).flatten ++
    List.replicate (imageRest schema image).length false

section

variable (schema : Schema) (image : List UInt8)

@[simp] theorem length_imageSlots :
    (imageSlots schema image).length = slotCount image.length schema.size := length_pieces _ _ _

theorem getElem_imageSlots {i : Nat} (hi : i < (imageSlots schema image).length) :
    (imageSlots schema image)[i] = imageSlot schema image i := by
  have hget := getElem?_pieces schema.size (slotCount image.length schema.size)
    (image.drop (bitmapBytes (slotCount image.length schema.size))) i
  rw [if_pos (length_imageSlots schema image ▸ hi)] at hget
  exact (List.getElem?_eq_some_iff.1 hget).2

theorem length_imageSlot {i : Nat} (hi : i < slotCount image.length schema.size) :
    (imageSlot schema image i).length = schema.size := by
  have hfit := bitmapBytes_add_slots_le image.length schema.size
  have hslots : (i + 1) * schema.size ≤ slotCount image.length schema.size * schema.size :=
    Nat.mul_le_mul_right _ hi
  rw [Nat.succ_mul] at hslots
  rw [imageSlot, List.length_take, List.length_drop, List.length_drop]
  omega

/-- An image is its bitmap, its slots and what comes after them. -/
theorem image_eq_parts :
    image.take (bitmapBytes (slotCount image.length schema.size)) ++
      (imageSlots schema image).flatten ++ imageRest schema image = image := by
  rw [imageSlots, imageRest, flatten_pieces, List.append_assoc, ← List.drop_drop,
    List.take_append_drop, List.take_append_drop]

@[simp] theorem length_slotsSignificant :
    (slotsSignificant schema image).length = slotCount image.length schema.size := by
  rw [slotsSignificant, List.length_zipWith, length_imageBits, length_imageSlots]
  exact Nat.min_eq_right (le_bitmapBytes _)

end

/-- What a slot decodes to is written as the slot was, with the insignificant bytes wiped. -/
theorem encodeSlot_of_decodeSlot {slot : Nat} {used : Bool} {cell : List UInt8}
    {o : Option Tuple} (hlen : cell.length = schema.size)
    (h : decodeSlot id schema slot used cell = .ok o) :
    (slotSignificant schema used cell).length = cell.length ∧
      encodeSlot schema.size o = .ok (wipe (slotSignificant schema used cell) cell) := by
  unfold slotSignificant
  rcases decodeSlot_cases h with ⟨rfl, rfl⟩ | ⟨row, rest, rfl, hread, -, rfl⟩
  · rw [if_neg Bool.false_ne_true, wipe_none hlen, List.length_replicate]
    exact ⟨hlen.symm, rfl⟩
  · unfold Tuple.read at hread
    split at hread
    · cases hread
    · rename_i vs rest hvalues
      cases hread
      obtain ⟨hlength, cells, hcells, hflat⟩ := Tuple.encode_of_readValues hlen hvalues
      rw [if_pos rfl, ← hflat]
      exact ⟨hlength, Tuple.encode_of_cells rfl hcells⟩

/-- The slots of a page that was decoded are written as they were, wiped. -/
theorem encodeSlots_of_decode {image : List UInt8} {p : Page}
    (h : decode id schema image = .ok p) :
    List.Forall₂ (fun mask cell => mask.length = cell.length) (slotsSignificant schema image)
        (imageSlots schema image) ∧
      p.slots.mapM (encodeSlot schema.size) =
        .ok (List.zipWith wipe (slotsSignificant schema image) (imageSlots schema image)) := by
  obtain ⟨slots, hslots, hdecode, rfl⟩ := decode_eq_ok_iff.1 h
  have hslot : ∀ (i : Nat) (hi : i < slots.length)
      (hmask : i < (slotsSignificant schema image).length)
      (hcell : i < (imageSlots schema image).length),
      (slotsSignificant schema image)[i].length = (imageSlots schema image)[i].length ∧
        encodeSlot schema.size slots[i] =
          .ok (wipe (slotsSignificant schema image)[i] (imageSlots schema image)[i]) := by
    intro i hi hmask hcell
    have hbit := lt_length_imageBits schema image (hslots ▸ hi)
    simp only [slotsSignificant, List.getElem_zipWith, getElem_imageSlots]
    exact encodeSlot_of_decodeSlot (length_imageSlot schema image (hslots ▸ hi)) (hdecode i hi hbit)
  constructor
  · refine List.forall₂_iff_get.2 ⟨by simp, fun i hi hi' => ?_⟩
    have hi'' : i < slots.length := by simpa [hslots] using hi'
    exact (hslot i hi'' hi hi').1
  · refine mapM_eq_ok_iff.2 (List.forall₂_iff_get.2 ⟨by simp [ofImage, hslots], fun i hi hi' => ?_⟩)
    simp only [List.get_eq_getElem, List.getElem_zipWith]
    exact (hslot i hi _ _).2

/-- An image is wiped slot by slot, and after the slots altogether. -/
theorem wipe_significant {image : List UInt8}
    (h : List.Forall₂ (fun mask cell => mask.length = cell.length) (slotsSignificant schema image)
      (imageSlots schema image)) :
    (significant schema image).length = image.length ∧
      wipe (significant schema image) image =
        image.take (bitmapBytes (slotCount image.length schema.size)) ++
          (List.zipWith wipe (slotsSignificant schema image) (imageSlots schema image)).flatten ++
          List.replicate (imageRest schema image).length 0 := by
  have hfit := bitmapBytes_add_slots_le image.length schema.size
  have hparts := image_eq_parts schema image
  generalize hheader : image.take (bitmapBytes (slotCount image.length schema.size)) = header at *
  have hlen : header.length = bitmapBytes (slotCount image.length schema.size) := by
    rw [← hheader, List.length_take]
    omega
  have hfront : (List.replicate header.length true ++
      (slotsSignificant schema image).flatten).length =
      (header ++ (imageSlots schema image).flatten).length := by
    rw [List.length_append, List.length_append, List.length_replicate, length_flatten_congr h]
  have hsignificant : significant schema image = List.replicate header.length true ++
      (slotsSignificant schema image).flatten ++
      List.replicate (imageRest schema image).length false := by rw [significant, hlen]
  constructor
  · have htotal := congrArg List.length hparts
    rw [List.length_append, ← hfront] at htotal
    rw [hsignificant, List.length_append, List.length_replicate, htotal]
  · have hwipe : wipe (significant schema image)
        (header ++ (imageSlots schema image).flatten ++ imageRest schema image) =
          header ++ (List.zipWith wipe (slotsSignificant schema image)
            (imageSlots schema image)).flatten ++
            List.replicate (imageRest schema image).length 0 := by
      rw [hsignificant, wipe_append hfront, wipe_append List.length_replicate, wipe_all rfl,
        wipe_none rfl, wipe_flatten h]
    rwa [hparts] at hwipe

/-- A page that was decoded is written as its image was, with the insignificant bytes wiped. -/
theorem encode_of_decode {image : List UInt8} {p : Page} (h : decode id schema image = .ok p) :
    (significant schema image).length = image.length ∧
      p.encode = .ok (wipe (significant schema image) image) := by
  obtain ⟨hmasks, hwritten⟩ := encodeSlots_of_decode h
  obtain ⟨hlength, hwipe⟩ := wipe_significant hmasks
  obtain ⟨slots, -, -, rfl⟩ := decode_eq_ok_iff.1 h
  refine ⟨hlength, ?_⟩
  have hpack : Bitmap.pack (imageBits schema image) =
      image.take (bitmapBytes (slotCount image.length schema.size)) := Bitmap.pack_unpack _
  -- the page is as long as the image, so what was left after the slots is left again
  have hrest : image.length - (Bitmap.pack (imageBits schema image) ++
      (List.zipWith wipe (slotsSignificant schema image)
        (imageSlots schema image)).flatten).length =
      (imageRest schema image).length := by
    have hsame := length_wipe hlength
    rw [hwipe, ← hpack, List.length_append, List.length_replicate] at hsame
    omega
  rw [hwipe, ← hpack, ← hrest]
  unfold encode
  simp only [ofImage] at hwritten ⊢
  rw [hwritten]
  rfl

end Page

end Rowstore
