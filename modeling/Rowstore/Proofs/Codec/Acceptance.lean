import Mathlib
import Rowstore.Proofs.Codec.Reader
import Rowstore.Proofs.Codec.Significant

/-!
# Acceptance

Which byte strings are images of pages, told by the places of their bits and cells. A slot is used
if its bit is set. Of a used slot the number must be one that records can have, and its strings must
be legible: a length that is small enough, and as many bytes of text.

* `Page.WellFormed` says so, and `Page.decode_iff_wellFormed` that the images with it are the ones
  that decode. All others are invalid pages.
* `Page.Alike` compares two images where a reader looks: at the bits of the slots, and of the used
  ones at integers, lengths and texts. Images that are alike decode to the same slots. The bytes of
  free slots, those after a text or after the last slot, and the bits that are no slot's make no
  difference.
-/

namespace Rowstore

/-! ### Cells -/

namespace Value

/-- The cell of a string has a length that is small enough, and as many bytes of text. -/
def Legible (cell : List UInt8) : Prop :=
  LittleEndian.value (cell.take 4) ≤ maxTextBytes ∧
    (ByteArray.mk ((cell.drop 4).take (LittleEndian.value (cell.take 4))).toArray).IsValidUTF8

/-- Two cells have the same number, or the same length and, if it is small enough, the same bytes of
text. -/
def Alike (type : ColumnType) (cell cell' : List UInt8) : Prop :=
  match type with
  | .int => cell' = cell
  | .str => cell'.take 4 = cell.take 4 ∧
    (LittleEndian.value (cell.take 4) ≤ maxTextBytes →
      (cell'.drop 4).take (LittleEndian.value (cell.take 4)) =
        (cell.drop 4).take (LittleEndian.value (cell.take 4)))

variable {type : ColumnType} {cell cell' : List UInt8}

/-- Every cell holds an integer, and the legible ones a string. -/
theorem ofCell?_isSome_iff : (ofCell? type cell).isSome ↔ (type = .str → Legible cell) := by
  cases type with
  | int => simp [ofCell?]
  | str =>
    simp only [ofCell?, Legible, forall_const]
    split_ifs with hlarge
    · simp only [Option.isSome_none, Bool.false_eq_true, false_iff, not_and]
      intro hle
      omega
    · rw [Option.isSome_map, TextBytes.decode?, String.fromUTF8?]
      split_ifs with hvalid
      · simp only [Option.isSome_some, hvalid, and_true, true_iff]
        omega
      · simp [hvalid]

/-- Cells that are alike hold the same. -/
theorem ofCell?_eq_of_alike (h : Alike type cell cell') : ofCell? type cell' = ofCell? type cell := by
  cases type with
  | int => rw [show cell' = cell from h]
  | str =>
    obtain ⟨hhead, htext⟩ := h
    simp only [ofCell?, hhead]
    split_ifs with hlarge
    · rfl
    · rw [htext (by omega)]

end Value

namespace Tuple

/-- The cell in a column of a type, of cells that stand side by side. -/
def cellAt (types : List ColumnType) (bytes : List UInt8) (column : Nat) (type : ColumnType) :
    List UInt8 :=
  (bytes.drop (ColumnType.totalWidth (types.take column))).take type.width

theorem cellAt_succ (type' : ColumnType) (types : List ColumnType) (bytes : List UInt8)
    (column : Nat) (type : ColumnType) :
    cellAt (type' :: types) bytes (column + 1) type =
      cellAt types (bytes.drop type'.width) column type := by
  rw [cellAt, cellAt, List.take_succ_cons, ColumnType.totalWidth_cons, List.drop_drop]

/-- Every cell has a value if its string, if it is one, is legible. -/
theorem isSome_values?_iff {types : List ColumnType} {bytes : List UInt8} :
    (values? types bytes).isSome ↔ ∀ column, types[column]? = some .str →
      Value.Legible (cellAt types bytes column .str) := by
  induction types generalizing bytes with
  | nil => simp [values?]
  | cons type types ih =>
    have hvalues : (values? (type :: types) bytes).isSome ↔
        (Value.ofCell? type (bytes.take type.width)).isSome ∧
          (values? types (bytes.drop type.width)).isSome := by
      rw [values?]
      cases Value.ofCell? type (bytes.take type.width) with
      | none => simp
      | some v => cases values? types (bytes.drop type.width) <;> simp
    rw [hvalues, ih, Value.ofCell?_isSome_iff]
    constructor
    · rintro ⟨hfirst, hrest⟩ column hcolumn
      cases column with
      | zero =>
        cases hcolumn
        exact hfirst rfl
      | succ column =>
        rw [cellAt_succ]
        exact hrest column hcolumn
    · intro h
      refine ⟨?_, fun column hcolumn => ?_⟩
      · rintro rfl
        exact h 0 rfl
      · rw [← cellAt_succ]
        exact h (column + 1) hcolumn

/-- Cells that are alike have the same values. -/
theorem values?_eq_of_alike {types : List ColumnType} {bytes bytes' : List UInt8}
    (h : ∀ column type, types[column]? = some type →
      Value.Alike type (cellAt types bytes column type) (cellAt types bytes' column type)) :
    values? types bytes' = values? types bytes := by
  induction types generalizing bytes bytes' with
  | nil => rfl
  | cons type types ih =>
    have hrest := @ih (bytes.drop type.width) (bytes'.drop type.width) fun column type' hcolumn => by
      have halike := h (column + 1) type' hcolumn
      rwa [cellAt_succ, cellAt_succ] at halike
    have hfirst : Value.Alike type (bytes.take type.width) (bytes'.take type.width) := h 0 type rfl
    rw [values?, values?, Value.ofCell?_eq_of_alike hfirst, hrest]

end Tuple

namespace Page

/-! ### Places in an image -/

/-- Whether the bit of a slot is set. -/
def slotBit (image : List UInt8) (slot : Nat) : Bool :=
  image[slot / 8]?.any fun byte => byte.toNat.testBit (slot % 8)

/-- Where a slot begins. -/
def slotStart (schema : Schema) (image : List UInt8) (slot : Nat) : Nat :=
  bitmapBytes (slotCount image.length schema.size) + slot * schema.size

/-- The cell of a slot in a column of a type. -/
def cellOf (schema : Schema) (image : List UInt8) (slot column : Nat) (type : ColumnType) :
    List UInt8 :=
  Tuple.cellAt schema.types (image.drop (slotStart schema image slot)) column type

/-- An image whose used slots have numbers for records, and legible strings. -/
structure WellFormed (schema : Schema) (image : List UInt8) : Prop where
  le_maxSlot : ∀ slot < slotCount image.length schema.size, slotBit image slot → slot ≤ maxSlot
  legible : ∀ slot < slotCount image.length schema.size, slotBit image slot →
    ∀ column, schema.types[column]? = some .str →
      Value.Legible (cellOf schema image slot column .str)

/-- Two images of one length with the same used slots and the same in their cells. -/
structure Alike (schema : Schema) (image image' : List UInt8) : Prop where
  length_eq : image'.length = image.length
  bit_eq : ∀ slot < slotCount image.length schema.size, slotBit image' slot = slotBit image slot
  cell_alike : ∀ slot < slotCount image.length schema.size, slotBit image slot →
    ∀ column type, schema.types[column]? = some type →
      Value.Alike type (cellOf schema image slot column type) (cellOf schema image' slot column type)

variable {id : PageId} {schema : Schema} {image image' : List UInt8} {slot : Nat}

theorem getElem_imageBits (hslot : slot < slotCount image.length schema.size)
    (hbit : slot < (imageBits schema image).length) :
    (imageBits schema image)[slot] = slotBit image slot := by
  have hbyte : slot / 8 < bitmapBytes (slotCount image.length schema.size) := by
    unfold bitmapBytes
    omega
  have hget := checkedBit_eq (image.take (bitmapBytes (slotCount image.length schema.size))) slot
  rw [← imageBits, List.getElem?_eq_getElem hbit, checkedBit, List.getElem?_take_of_lt hbyte] at hget
  obtain ⟨byte, himage, hvalue⟩ := Option.map_eq_some_iff.1 hget
  rw [slotBit, himage, Option.any_some, hvalue]

/-- The slots that an image decodes to, told one by one. -/
theorem slots_decode (id : PageId) (schema : Schema) (image : List UInt8) :
    (decode id schema image).map Page.slots =
      (List.range (slotCount image.length schema.size)).mapM fun slot =>
        decodeSlot id schema slot (slotBit image slot) (imageSlot schema image slot) := by
  have hentries : ((imageBits schema image).zip (imageSlots schema image)).zipIdx =
      (List.range (slotCount image.length schema.size)).map fun slot =>
        ((slotBit image slot, imageSlot schema image slot), slot) := by
    have hle := le_bitmapBytes (slotCount image.length schema.size)
    refine List.ext_getElem ?_ fun slot hslot hslot' => ?_
    · simp only [List.length_zipIdx, List.length_zip, length_imageBits, length_imageSlots,
        List.length_map, List.length_range]
      omega
    · have hlt : slot < slotCount image.length schema.size := by simpa using hslot'
      simp only [List.getElem_zipIdx, List.getElem_zip, Nat.zero_add, List.getElem_map,
        List.getElem_range, getElem_imageSlots, getElem_imageBits hlt]
  have hslots := congrArg (List.mapM fun entry : (Bool × List UInt8) × Nat =>
    decodeSlot id schema entry.2 entry.1.1 entry.1.2) hentries
  rw [List.mapM_map] at hslots
  refine Eq.trans ?_ hslots
  have hdecode : decode id schema image = (List.mapM (fun entry : (Bool × List UInt8) × Nat =>
      decodeSlot id schema entry.2 entry.1.1 entry.1.2)
        ((imageBits schema image).zip (imageSlots schema image)).zipIdx).map
      fun slots => ofImage schema image id slots := (map_eq_bind _ _).symm
  rw [hdecode]
  cases List.mapM (fun entry : (Bool × List UInt8) × Nat =>
    decodeSlot id schema entry.2 entry.1.1 entry.1.2)
      ((imageBits schema image).zip (imageSlots schema image)).zipIdx <;> rfl

/-- What a used slot decodes to, from the values in its cells. -/
theorem decodeSlot_imageSlot (id : PageId) (hslot : slot < slotCount image.length schema.size) :
    decodeSlot id schema slot true (imageSlot schema image slot) =
      match Tuple.values? schema.types (image.drop (slotStart schema image slot)) with
      | none => .error (.invalidPage id)
      | some vs =>
        if slot > maxSlot then .error (.invalidPage id)
        else .ok (some { Tuple.ofList schema vs with record := some ⟨id, slot⟩ }) := by
  have hroom : schema.size ≤ (image.drop (slotStart schema image slot)).length := by
    have hlen := length_imageSlot schema image hslot
    rw [imageSlot, List.drop_drop, ← slotStart, List.length_take] at hlen
    omega
  rewrite [imageSlot, List.drop_drop, ← slotStart, decodeSlot_take hroom,
    (Tuple.readValues_of_le hroom).1]
  cases Tuple.values? schema.types (image.drop (slotStart schema image slot)) <;> rfl

/-- A slot decodes if it is free, or its number and its strings are in order. -/
theorem exists_decodeSlot_iff (hslot : slot < slotCount image.length schema.size) {used : Bool} :
    (∃ row, decodeSlot id schema slot used (imageSlot schema image slot) = .ok row) ↔
      (used → slot ≤ maxSlot ∧ ∀ column, schema.types[column]? = some .str →
        Value.Legible (cellOf schema image slot column .str)) := by
  cases used with
  | false => exact ⟨fun _ h => (by cases h), fun _ => ⟨none, rfl⟩⟩
  | true =>
    simp only [forall_const]
    rw [decodeSlot_imageSlot id hslot]
    simp only [cellOf, ← Tuple.isSome_values?_iff]
    cases Tuple.values? schema.types (image.drop (slotStart schema image slot)) with
    | none => simp
    | some vs =>
      simp only [Option.isSome_some, and_true]
      split_ifs with hlarge
      · simp only [exists_false, false_iff]
        omega
      · simp only [Except.ok.injEq, exists_eq', true_iff]
        omega

/-- A slot that does not decode makes the page invalid. -/
theorem eq_of_decodeSlot_eq_error {used : Bool} {cell : List UInt8} {cause : DbError}
    (h : decodeSlot id schema slot used cell = .error cause) : cause = .invalidPage id := by
  unfold decodeSlot at h
  split at h
  · cases h
  · split at h
    · cases h
      rfl
    · split at h <;> cases h
      rfl

theorem exists_decode_iff :
    (∃ p, decode id schema image = .ok p) ↔
      ∃ slots, (List.range (slotCount image.length schema.size)).mapM (fun slot =>
        decodeSlot id schema slot (slotBit image slot) (imageSlot schema image slot)) =
          .ok slots := by
  rw [← slots_decode]
  cases decode id schema image with
  | error cause => exact ⟨nofun, nofun⟩
  | ok p => exact ⟨fun _ => ⟨p.slots, rfl⟩, fun _ => ⟨p, rfl⟩⟩

/-- What does not decode is an invalid page. -/
theorem eq_of_decode_eq_error {cause : DbError} (h : decode id schema image = .error cause) :
    cause = .invalidPage id := by
  have hslots := slots_decode id schema image
  rw [h] at hslots
  obtain ⟨before, slot, after, -, -, hslot⟩ := mapM_eq_error_iff.1 hslots.symm
  exact eq_of_decodeSlot_eq_error hslot

/-- Images that are alike decode to the same slots. -/
theorem slots_decode_eq_of_alike (id : PageId) (h : Alike schema image image') :
    (decode id schema image').map Page.slots = (decode id schema image).map Page.slots := by
  rw [slots_decode, slots_decode, h.length_eq]
  have hslots : ∀ slot ∈ List.range (slotCount image.length schema.size),
      decodeSlot id schema slot (slotBit image' slot) (imageSlot schema image' slot) =
        decodeSlot id schema slot (slotBit image slot) (imageSlot schema image slot) := by
    intro slot hslot
    have hlt : slot < slotCount image.length schema.size := List.mem_range.1 hslot
    have hlt' : slot < slotCount image'.length schema.size := h.length_eq ▸ hlt
    rw [h.bit_eq slot hlt]
    cases hused : slotBit image slot with
    | false => rfl
    | true =>
      rw [decodeSlot_imageSlot id hlt, decodeSlot_imageSlot id hlt',
        Tuple.values?_eq_of_alike (h.cell_alike slot hlt hused)]
  have hmap := congrArg (List.mapM fun row : Except DbError (Option Tuple) => row)
    (List.map_congr_left hslots)
  rwa [List.mapM_map, List.mapM_map] at hmap

/-- **Images are the well-formed byte strings**, of any length and for any schema. The reader stays
within the bytes. -/
theorem decode_iff_wellFormed (id : PageId) (schema : Schema) (image : List UInt8) :
    checkedDecode id schema image = some (decode id schema image) ∧
      ((∃ p, decode id schema image = .ok p) ↔ WellFormed schema image) ∧
      (¬ WellFormed schema image → decode id schema image = .error (.invalidPage id)) ∧
      ∀ image', Alike schema image image' →
        (decode id schema image').map Page.slots = (decode id schema image).map Page.slots := by
  have hiff : (∃ p, decode id schema image = .ok p) ↔ WellFormed schema image := by
    rw [exists_decode_iff, exists_mapM_iff]
    constructor
    · intro h
      have hslot := fun slot hlt => (exists_decodeSlot_iff hlt).1 (h slot (List.mem_range.2 hlt))
      exact ⟨fun slot hlt hused => (hslot slot hlt hused).1,
        fun slot hlt hused => (hslot slot hlt hused).2⟩
    · intro h slot hslot
      have hlt : slot < slotCount image.length schema.size := List.mem_range.1 hslot
      exact (exists_decodeSlot_iff hlt).2 fun hused =>
        ⟨h.le_maxSlot slot hlt hused, h.legible slot hlt hused⟩
  refine ⟨checkedDecode_eq_some id schema image, hiff, ?_, fun image' =>
    slots_decode_eq_of_alike id⟩
  intro hmalformed
  cases hdecode : decode id schema image with
  | ok p => exact absurd (hiff.1 ⟨p, hdecode⟩) hmalformed
  | error cause => rw [eq_of_decode_eq_error hdecode]

/-- A name in the first of two slots, with noise wherever it is not looked at, and a name that is no
text. -/
theorem name_read_among_noise :
    let id : PageId := ⟨⟨1⟩, 0⟩
    let names : Schema := .single ⟨.str, none⟩
    let image : UInt8 → List UInt8 → UInt8 → List UInt8 := fun bits text noise =>
      [bits, 2, 0, 0, 0] ++ text ++ List.replicate 259 noise
    let row : Tuple := { Tuple.ofList names [.str "hi"] with record := some ⟨id, 0⟩ }
    slotCount 266 names.size = 2 ∧
      (decode id names (image 0x01 [104, 105] 0)).map Page.slots = .ok [some row, none] ∧
      (decode id names (image 0xfd [104, 105] 0xaa)).map Page.slots = .ok [some row, none] ∧
      decode id names (image 0x01 [104, 0x85] 0) = .error (.invalidPage id) := by
  intro id names image row
  have hclean : (decode id names (image 0x01 [104, 105] 0)).map Page.slots =
      .ok [some row, none] := by decide +kernel
  obtain ⟨-, -, -, halike⟩ := decode_iff_wellFormed id names (image 0x01 [104, 105] 0)
  obtain ⟨-, -, hinvalid, -⟩ := decode_iff_wellFormed id names (image 0x01 [104, 0x85] 0)
  refine ⟨by decide, hclean, (halike _ ⟨by decide +kernel, by decide +kernel, ?_⟩).trans hclean,
    hinvalid ?_⟩
  · intro slot hslot hused column type hcolumn
    have hzero : slot = 0 := by
      have hcount : slotCount (image 0x01 [104, 105] 0).length names.size = 2 := by
        decide +kernel
      rw [hcount] at hslot
      interval_cases slot
      · rfl
      · exact absurd hused (by decide +kernel)
    cases column with
    | zero =>
      cases hcolumn
      subst hzero
      exact ⟨by decide +kernel, fun _ => by decide +kernel⟩
    | succ column => cases hcolumn
  · intro h
    have htext := (h.legible 0 (by decide +kernel) (by decide +kernel) 0 rfl).2
    revert htext
    decide +kernel

end Page

end Rowstore
