import Mathlib
import Rowstore.Proofs.Codec.PageImage

/-!
# Reading with a cursor

Pages read from a buffer that is used up from the front, where reaching past its end stops the
program. A value is read number by number and text by text, a row value by value, and of a page the
bitmap first and then slot after slot: the bytes of a used slot are read and those of a free slot
are skipped.

The layout leaves room enough for all of this. `Page.checkedDecode_eq_some`: the program is never
stopped, and reads the page that `Page.decode` finds by cutting the image into pieces.
-/

namespace Rowstore

/-- A result with something made of it. -/
theorem map_eq_bind {α β : Type} (f : α → β) (x : Except DbError α) :
    x.map f = x >>= fun a => .ok (f a) := by
  cases x <;> rfl

/-! ### Buffers -/

namespace Buffer

/-- Skip bytes. There must be as many. -/
def advance (n : Nat) (bytes : List UInt8) : Option (List UInt8) :=
  if n ≤ bytes.length then some (bytes.drop n) else none

/-- Take bytes from the front. There must be as many. -/
def take (n : Nat) (bytes : List UInt8) : Option (List UInt8 × List UInt8) :=
  if n ≤ bytes.length then some (bytes.take n, bytes.drop n) else none

variable {n : Nat} {bytes : List UInt8}

theorem advance_eq_some (h : n ≤ bytes.length) : advance n bytes = some (bytes.drop n) := if_pos h

theorem take_eq_some (h : n ≤ bytes.length) :
    take n bytes = some (bytes.take n, bytes.drop n) := if_pos h

end Buffer

/-! ### Values -/

namespace Value

/-- Take a value of a type from the front of a buffer: nothing if there is no room for it, and else
an integer, or a length and, if that may be one, the text. -/
def checkedRead (type : ColumnType) (bytes : List UInt8) : Option (Option Value × List UInt8) :=
  if bytes.length < type.width then some (none, bytes)
  else match type with
    | .int => do
      let (number, rest) ← Buffer.take 4 bytes
      return (some (int (UInt32.ofNat (LittleEndian.value number)).toInt32), rest)
    | .str => do
      let (number, rest) ← Buffer.take 4 bytes
      let length := LittleEndian.value number
      if length > maxTextBytes then return (none, rest)
      let (text, rest) ← Buffer.take maxTextBytes rest
      return ((TextBytes.decode? (text.take length)).map str, rest)

/-- What is read where there is room for a cell. -/
theorem read_of_le {type : ColumnType} {bytes : List UInt8} (h : type.width ≤ bytes.length) :
    read type bytes = match ofCell? type (bytes.take type.width) with
      | some v => (some v, bytes.drop type.width)
      | none =>
        if LittleEndian.value (bytes.take 4) > maxTextBytes then (none, bytes.drop 4)
        else (none, bytes.drop type.width) := by
  have hfour : 4 ≤ type.width := by cases type <;> decide
  rewrite [read, if_neg (by rw [List.length_take]; omega), List.take_take,
    Nat.min_eq_left hfour]
  cases ofCell? type (bytes.take type.width) <;> rfl

/-- The cell of a string: its length, and the text with what comes after it. -/
theorem ofCell?_str_take (bytes : List UInt8) :
    ofCell? .str (bytes.take ColumnType.str.width) =
      if LittleEndian.value (bytes.take 4) > maxTextBytes then none
      else (TextBytes.decode? (((bytes.drop 4).take maxTextBytes).take
        (LittleEndian.value (bytes.take 4)))).map str := by
  have hhead : (bytes.take ColumnType.str.width).take 4 = bytes.take 4 := by
    rw [List.take_take]
    rfl
  have htext : (bytes.take ColumnType.str.width).drop 4 = (bytes.drop 4).take maxTextBytes :=
    List.drop_take
  simp only [ofCell?, hhead, htext]

/-- A value is read within the buffer. -/
theorem checkedRead_eq_some (type : ColumnType) (bytes : List UInt8) :
    checkedRead type bytes = some (read type bytes) := by
  unfold checkedRead
  by_cases hshort : bytes.length < type.width
  · rw [if_pos hshort, read, if_pos (by rw [List.length_take]; omega)]
  · rw [if_neg hshort, read_of_le (by omega)]
    cases type with
    | int =>
      have hfour : 4 ≤ bytes.length := by simpa using hshort
      have hcell : ofCell? .int (bytes.take 4) =
          some (int (UInt32.ofNat (LittleEndian.value (bytes.take 4))).toInt32) := by
        simp [ofCell?, List.take_take]
      simp only [Buffer.take_eq_some hfour, ColumnType.width_int, hcell]
      rfl
    | str =>
      have hfour : 4 ≤ bytes.length := by
        rw [ColumnType.width_str] at hshort
        omega
      have hroom : maxTextBytes ≤ (bytes.drop 4).length := by
        rw [ColumnType.width_str] at hshort
        rw [List.length_drop, maxTextBytes]
        omega
      simp only [Buffer.take_eq_some hfour, Option.bind_eq_bind, Option.bind_some,
        ofCell?_str_take]
      split_ifs with hlarge
      · rfl
      · simp only [Buffer.take_eq_some hroom, List.drop_drop, Option.bind_some]
        cases TextBytes.decode? _ <;> rfl

end Value

/-! ### Rows -/

namespace Tuple

/-- Take values of the given types from the front of a buffer, up to the first that is malformed. -/
def checkedReadValues : List ColumnType → List UInt8 → Option (Option (List Value) × List UInt8)
  | [], bytes => some (some [], bytes)
  | type :: types, bytes => do
    match ← Value.checkedRead type bytes with
    | (none, rest) => return (none, rest)
    | (some v, rest) =>
      let (vs, rest) ← checkedReadValues types rest
      return (vs.map (v :: ·), rest)

/-- Values are read within the buffer. -/
theorem checkedReadValues_eq_some (types : List ColumnType) (bytes : List UInt8) :
    checkedReadValues types bytes = some (readValues types bytes) := by
  induction types generalizing bytes with
  | nil => rfl
  | cons type types ih =>
    rw [checkedReadValues, Value.checkedRead_eq_some, readValues]
    rcases hread : Value.read type bytes with ⟨_ | v, rest⟩
    · rfl
    · simp only [Option.bind_eq_bind, Option.bind_some, ih]
      rcases readValues types rest with ⟨_ | vs, rest⟩ <;> rfl

/-- The values in cells that stand side by side, if each of them has one. -/
def values? : List ColumnType → List UInt8 → Option (List Value)
  | [], _ => some []
  | type :: types, bytes => do
    let v ← Value.ofCell? type (bytes.take type.width)
    let vs ← values? types (bytes.drop type.width)
    return v :: vs

/-- What comes after the cells does not matter. -/
theorem values?_take (types : List ColumnType) (bytes : List UInt8) :
    values? types (bytes.take (ColumnType.totalWidth types)) = values? types bytes := by
  induction types generalizing bytes with
  | nil => rfl
  | cons type types ih =>
    rw [ColumnType.totalWidth_cons, values?, values?, List.take_take,
      Nat.min_eq_left (Nat.le_add_right _ _), List.drop_take, Nat.add_sub_cancel_left, ih]

/-- Where there is room for the cells of a row, the row is read from them, and they are used up. -/
theorem readValues_of_le {types : List ColumnType} {bytes : List UInt8}
    (h : ColumnType.totalWidth types ≤ bytes.length) :
    (readValues types bytes).1 = values? types bytes ∧
      ∀ vs rest, readValues types bytes = (some vs, rest) →
        rest = bytes.drop (ColumnType.totalWidth types) := by
  induction types generalizing bytes with
  | nil =>
    refine ⟨rfl, ?_⟩
    rintro vs rest ⟨⟩
    rfl
  | cons type types ih =>
    rw [ColumnType.totalWidth_cons] at h
    obtain ⟨hfirst, hrest⟩ := @ih (bytes.drop type.width) (by
      rw [List.length_drop]
      omega)
    rw [readValues, Value.read_of_le (by omega), values?, ← hfirst]
    cases Value.ofCell? type (bytes.take type.width) with
    | none =>
      simp only
      split_ifs <;> exact ⟨rfl, by simp⟩
    | some v =>
      simp only [Option.bind_eq_bind, Option.bind_some]
      rcases hread : readValues types (bytes.drop type.width) with ⟨_ | vs, rest⟩
      · exact ⟨rfl, by simp⟩
      · refine ⟨rfl, ?_⟩
        rintro _ _ ⟨⟩
        rw [hrest vs rest hread, List.drop_drop, ColumnType.totalWidth_cons]

end Tuple

/-! ### Pages -/

namespace Page

variable {id : PageId} {schema : Schema}

/-- The bit of a slot. Its byte must be there. -/
def checkedBit (header : List UInt8) (slot : Nat) : Option Bool :=
  header[slot / 8]?.map fun byte => byte.toNat.testBit (slot % 8)

/-- Read slots from the front of a buffer, from one slot on as many as asked for. A free slot is
skipped. -/
def checkedSlots (id : PageId) (schema : Schema) (header : List UInt8) :
    Nat → Nat → List UInt8 → Option (Except DbError (List (Option Tuple)))
  | _, 0, _ => some (.ok [])
  | slot, count + 1, bytes => do
    let used ← checkedBit header slot
    if used then
      match ← Tuple.checkedReadValues schema.types bytes with
      | (none, _) => return .error (.invalidPage id)
      | (some vs, rest) =>
        if slot > maxSlot then return .error (.invalidPage id)
        let slots ← checkedSlots id schema header (slot + 1) count rest
        return slots.map (some { Tuple.ofList schema vs with record := some ⟨id, slot⟩ } :: ·)
    else
      let rest ← Buffer.advance schema.size bytes
      let slots ← checkedSlots id schema header (slot + 1) count rest
      return slots.map (none :: ·)

/-- Read a page from a buffer. -/
def checkedDecode (id : PageId) (schema : Schema) (image : List UInt8) :
    Option (Except DbError Page) := do
  let count := slotCount image.length schema.size
  let (header, rest) ← Buffer.take (bitmapBytes count) image
  let slots ← checkedSlots id schema header 0 count rest
  return slots.map fun slots =>
    { id, schema, size := image.length, bitmap := Bitmap.unpack header, slots, dirtiedBy := none }

/-- The bit of a slot is in the byte of its number. -/
theorem checkedBit_eq (header : List UInt8) (slot : Nat) :
    checkedBit header slot = (Bitmap.unpack header)[slot]? := by
  induction header generalizing slot with
  | nil => rfl
  | cons byte header ih =>
    rw [Bitmap.unpack_cons]
    by_cases hslot : slot < 8
    · rw [List.getElem?_append_left (by simpa using hslot), checkedBit, Nat.div_eq_of_lt hslot,
        Nat.mod_eq_of_lt hslot]
      simp [Bitmap.bits, hslot]
    · have hshift : slot / 8 = (slot - 8) / 8 + 1 := by omega
      have hmod : slot % 8 = (slot - 8) % 8 := by omega
      rw [List.getElem?_append_right (by simpa using hslot), Bitmap.length_bits, ← ih, checkedBit,
        checkedBit, hshift, hmod, List.getElem?_cons_succ]

/-- A used slot with room for its row has the row that is read from there. -/
theorem decodeSlot_take {slot : Nat} {bytes : List UInt8} (h : schema.size ≤ bytes.length) :
    decodeSlot id schema slot true (bytes.take schema.size) =
      match (Tuple.readValues schema.types bytes).1 with
      | none => .error (.invalidPage id)
      | some vs =>
        if slot > maxSlot then .error (.invalidPage id)
        else .ok (some { Tuple.ofList schema vs with record := some ⟨id, slot⟩ }) := by
  have hcell : (Tuple.readValues schema.types (bytes.take schema.size)).1 =
      (Tuple.readValues schema.types bytes).1 := by
    have hlen : schema.size ≤ (bytes.take schema.size).length := by
      rw [List.length_take]
      omega
    rw [(Tuple.readValues_of_le hlen).1, (Tuple.readValues_of_le h).1, Schema.size,
      Tuple.values?_take]
  rw [decodeSlot, if_neg (by simp), ← hcell, Tuple.read]
  rcases Tuple.readValues schema.types (bytes.take schema.size) with ⟨_ | vs, rest⟩ <;> rfl

/-- Slots with room for their rows are read as their bytes are decoded. -/
theorem checkedSlots_eq_some {header : List UInt8} {slot count : Nat} {bytes : List UInt8}
    (hbits : slot + count ≤ (Bitmap.unpack header).length)
    (hroom : count * schema.size ≤ bytes.length) :
    checkedSlots id schema header slot count bytes =
      some (((((Bitmap.unpack header).drop slot).zip (pieces schema.size count bytes)).zipIdx
        slot).mapM fun ((used, cell), slot) => decodeSlot id schema slot used cell) := by
  induction count generalizing slot bytes with
  | zero => rw [pieces, List.zip_nil_right]; rfl
  | succ count ih =>
    rw [Nat.succ_mul] at hroom
    have hslot : slot < (Bitmap.unpack header).length := by omega
    have hrest := @ih (slot + 1) (bytes.drop schema.size) (by omega) (by
      rw [List.length_drop]
      omega)
    rw [List.drop_eq_getElem_cons hslot, pieces, List.zip_cons_cons, List.zipIdx_cons,
      List.mapM_cons, checkedSlots, checkedBit_eq, List.getElem?_eq_getElem hslot]
    simp only [Option.bind_eq_bind, Option.bind_some]
    generalize (Bitmap.unpack header)[slot] = used
    cases used with
    | false =>
      have hfree : decodeSlot id schema slot false (bytes.take schema.size) = .ok none := rfl
      rw [if_neg Bool.false_ne_true, Buffer.advance_eq_some (by omega), hfree, Option.bind_some,
        hrest, Option.bind_some]
      exact congrArg some (map_eq_bind _ _)
    | true =>
      have hcells : ColumnType.totalWidth schema.types ≤ bytes.length := by
        rw [← Schema.size]
        omega
      obtain ⟨-, hrow⟩ := Tuple.readValues_of_le hcells
      rw [if_pos rfl, decodeSlot_take (by omega), Tuple.checkedReadValues_eq_some,
        Option.bind_some]
      rcases hread : Tuple.readValues schema.types bytes with ⟨_ | vs, rest⟩
      · rfl
      · simp only
        split_ifs with hslot
        · rfl
        · rw [hrow vs rest hread, ← Schema.size, hrest, Option.bind_some]
          exact congrArg some (map_eq_bind _ _)

/-- A page is read within its image. -/
theorem checkedDecode_eq_some (id : PageId) (schema : Schema) (image : List UInt8) :
    checkedDecode id schema image = some (decode id schema image) := by
  have hfit := bitmapBytes_add_slots_le image.length schema.size
  unfold checkedDecode decode
  generalize slotCount image.length schema.size = count at *
  have hbits : 0 + count ≤ (Bitmap.unpack (image.take (bitmapBytes count))).length := by
    have hle := le_bitmapBytes count
    rw [Bitmap.length_unpack, List.length_take]
    omega
  have hroom : count * schema.size ≤ (image.drop (bitmapBytes count)).length := by
    rw [List.length_drop]
    omega
  simp only [Buffer.take_eq_some (show bitmapBytes count ≤ image.length by omega),
    Option.bind_eq_bind, Option.bind_some, checkedSlots_eq_some hbits hroom, List.drop_zero]
  exact congrArg some (map_eq_bind _ _)

end Page

end Rowstore
