import Mathlib
import Rowstore.Proofs.Codec.Stream
import Rowstore.Proofs.Page.SlotMap

/-!
# Layout

A page has its bitmap in front, the slots after it, and zeros up to its size. There are as many
slots as there is room for: with one more, the bitmap and the slots would not fit the page.

* `checkedSlotCount` and `checkedBitmapBytes` compute the layout in words, where a number that is no
  word stops the program. It suffices that the bits of the page and those of a slot, its bit of the
  bitmap included, can be counted in a word.
* `Page.checkedEncode` writes a page slot by slot, and then as many zeros as there is room for. More
  than the page has room for stops the program, which happens to no page that came about by calls:
  `Page.Sound.checkedEncode_eq_some`.
* `Page.largest_layout_fits` puts this together for all sizes of pages and rows. Images of the size
  are read within their bounds too, whatever their bytes.
-/

namespace Rowstore

/-! ### Layouts in words -/

section Words

variable {limit n pageSize rowSize slots : Nat}

/-- A number as a word. Words go up to a limit. -/
def checkedWord (limit n : Nat) : Option Nat := if n ≤ limit then some n else none

/-- How many rows of a size fit a page, found with words. -/
def checkedSlotCount (limit pageSize rowSize : Nat) : Option Nat := do
  let pageBits ← checkedWord limit (pageSize * 8)
  let rowBits ← checkedWord limit (rowSize * 8)
  let slotBits ← checkedWord limit (rowBits + 1)
  return pageBits / slotBits

/-- The bytes of a bitmap with a bit for each slot, found with words. -/
def checkedBitmapBytes (limit slots : Nat) : Option Nat := do
  let bits ← checkedWord limit (slots + 7)
  return bits / 8

theorem checkedWord_eq_some (h : n ≤ limit) : checkedWord limit n = some n := if_pos h

/-- The slots are counted if the bits of the page and of a slot are words. -/
theorem checkedSlotCount_eq_some (hpage : 8 * pageSize ≤ limit) (hslot : 8 * rowSize + 1 ≤ limit) :
    checkedSlotCount limit pageSize rowSize = some (slotCount pageSize rowSize) := by
  rw [checkedSlotCount, checkedWord_eq_some (show pageSize * 8 ≤ limit by omega),
    checkedWord_eq_some (show rowSize * 8 ≤ limit by omega)]
  simp only [Option.bind_eq_bind, Option.bind_some,
    checkedWord_eq_some (show rowSize * 8 + 1 ≤ limit by omega)]
  rfl

/-- Then the bytes of their bitmap are counted, too. -/
theorem checkedBitmapBytes_eq_some (hrow : 0 < rowSize) (hpage : 8 * pageSize ≤ limit)
    (hslot : 8 * rowSize + 1 ≤ limit) :
    checkedBitmapBytes limit (slotCount pageSize rowSize) =
      some (bitmapBytes (slotCount pageSize rowSize)) := by
  -- a slot takes nine bits at least, which leaves words enough for rounding up
  have hcount : slotCount pageSize rowSize ≤ pageSize * 8 / 9 :=
    Nat.div_le_div_left (by omega) (by omega)
  rw [checkedBitmapBytes, checkedWord_eq_some (by omega)]
  rfl

end Words

/-! ### Writing within the page -/

namespace Buffer

/-- Fill a buffer with zeros up to a size. There must not be more in it already. -/
def fill (size : Nat) (bytes : List UInt8) : Option (List UInt8) :=
  if bytes.length ≤ size then some (bytes ++ List.replicate (size - bytes.length) 0) else none

theorem fill_eq_some {size : Nat} {bytes : List UInt8} (h : bytes.length ≤ size) :
    fill size bytes = some (bytes ++ List.replicate (size - bytes.length) 0) := if_pos h

end Buffer

namespace Page

/-- Append slots to a buffer, zeros for those that are free, up to the first row that has no
written form. -/
def writeSlots (rowSize : Nat) : List (Option Tuple) → List UInt8 → Outcome (List UInt8) Unit
  | [], buffer => (.ok (), buffer)
  | none :: slots, buffer => writeSlots rowSize slots (buffer ++ List.replicate rowSize 0)
  | some row :: slots, buffer =>
    (row.write buffer).andThen (fun buffer => buffer) fun _ buffer =>
      writeSlots rowSize slots buffer

/-- Write the bitmap and the slots of a page. -/
def writeParts (p : Page) : Outcome (List UInt8) Unit :=
  writeSlots p.schema.size p.slots (Bitmap.pack p.bitmap)

/-- Write a page. -/
def checkedEncode (p : Page) : Option (Except DbError (List UInt8)) :=
  match p.writeParts with
  | (.ok (), parts) => (Buffer.fill p.size parts).map .ok
  | (.error cause, _) => some (.error cause)

variable {id : PageId} {schema : Schema} {size : Nat} {p : Page}

/-- Slots that have written forms are all appended. -/
theorem writeSlots_of_ok {rowSize : Nat} {slots : List (Option Tuple)} {cells : List (List UInt8)}
    (h : slots.mapM (encodeSlot rowSize) = .ok cells) (buffer : List UInt8) :
    writeSlots rowSize slots buffer = (.ok (), buffer ++ cells.flatten) := by
  rw [mapM_eq_ok_iff] at h
  induction h generalizing buffer with
  | nil => rw [writeSlots, List.flatten_nil, List.append_nil]
  | @cons slot cell slots cells hcell _ ih =>
    cases slot with
    | none =>
      cases hcell
      rw [writeSlots, ih, List.flatten_cons, List.append_assoc]
    | some row =>
      rw [writeSlots, Tuple.write_of_ok hcell, Outcome.andThen_ok, ih, List.flatten_cons,
        List.append_assoc]

/-- The bitmap and the slots of a sound page are written, and take the bytes of its layout. -/
theorem Sound.exists_parts (h : p.Sound) :
    ∃ parts, p.writeParts = (.ok (), parts) ∧
      parts.length = bitmapBytes p.slots.length + p.slots.length * p.schema.size ∧
      p.encode = .ok (parts ++ List.replicate (p.size - parts.length) 0) := by
  obtain ⟨cells, -, hencode, hwidth, hlength, -, -⟩ := exists_slotImages h
  refine ⟨Bitmap.pack p.bitmap ++ cells.flatten, writeSlots_of_ok hencode _, ?_, ?_⟩
  · rw [List.length_append, length_pack h.length_bitmap, length_flatten_of_width hwidth, hlength]
  · unfold encode
    rw [hencode]
    rfl

/-- A sound page is written within its size, as `encode` says. -/
theorem Sound.checkedEncode_eq_some (h : p.Sound) : p.checkedEncode = some p.encode := by
  obtain ⟨parts, hparts, hlength, hencode⟩ := h.exists_parts
  -- the parts take what the layout says, so it is the count of slots that leaves room for them
  have hfit : parts.length ≤ p.size := by
    rw [hlength, bitmapBytes_add_slots_le_iff]
    exact h.length_slots.le
  simp only [checkedEncode, hparts, Buffer.fill_eq_some hfit, hencode]
  rfl

/-- A call keeps a page sound, if a row that it stores has an entry for every column. -/
theorem SoundAs.call (h : SoundAs id schema size p) {c : Call}
    (hcomplete : ∀ row, c = .insert row → row.Complete) :
    SoundAs id schema size (p.call c).2 := by
  cases c with
  | insert row =>
    have hedit : (p.call (.insert row)).2 = p.edit (.insert row (hcomplete row rfl)) := by
      rw [Page.call_insert, Page.edit]
      cases p.insert row <;> rfl
    rw [hedit]
    exact h.edit _
  | delete row =>
    have hedit : (p.call (.delete row)).2 = p.edit (.delete row) := by
      rw [Page.call_delete, Page.edit]
      cases p.delete row <;> rfl
    rw [hedit]
    exact h.edit _
  | mark tx =>
    obtain ⟨hsound, hid, hschema, hsize⟩ := h
    exact ⟨hsound.mark tx, hid, hschema, hsize⟩

theorem SoundAs.calls (h : SoundAs id schema size p) {cs : List Call}
    (hcomplete : ∀ row, .insert row ∈ cs → row.Complete) :
    SoundAs id schema size (p.calls cs) := by
  induction cs generalizing p with
  | nil => exact h
  | cons c cs ih =>
    refine ih (h.call fun row hc => hcomplete row ?_) fun row hrow => hcomplete row ?_
    · rw [hc]
      exact List.mem_cons_self
    · exact List.mem_cons_of_mem _ hrow

/-- **A page has room for its bitmap and its slots**, and would have none for another slot. -/
theorem largest_layout_fits (pageSize rowSize : Nat) :
    let slots := slotCount pageSize rowSize
    bitmapBytes slots + slots * rowSize ≤ pageSize ∧
    pageSize < bitmapBytes (slots + 1) + (slots + 1) * rowSize ∧
    (∀ n, bitmapBytes n + n * rowSize ≤ pageSize ↔ n ≤ slots) ∧
    (0 < rowSize → ∀ limit, 8 * pageSize ≤ limit → 8 * rowSize + 1 ≤ limit →
      checkedSlotCount limit pageSize rowSize = some slots ∧
        checkedBitmapBytes limit slots = some (bitmapBytes slots)) ∧
    ∀ (id : PageId) (schema : Schema), schema.size = rowSize →
      (∀ image : List UInt8, image.length = pageSize →
        checkedDecode id schema image = some (decode id schema image)) ∧
      ∀ start, Begins id schema pageSize start → ∀ cs : List Call,
        (∀ row, .insert row ∈ cs → row.Complete) →
        let p := start.calls cs
        ∃ parts, p.writeParts = (.ok (), parts) ∧
          parts.length = bitmapBytes slots + slots * rowSize ∧
          p.checkedEncode = some p.encode ∧
          p.encode = .ok (parts ++ List.replicate (pageSize - parts.length) 0) := by
  intro slots
  refine ⟨bitmapBytes_add_slots_le pageSize rowSize, ?_, fun n => bitmapBytes_add_slots_le_iff,
    fun hrow limit hpage hslot => ⟨checkedSlotCount_eq_some hpage hslot,
      checkedBitmapBytes_eq_some hrow hpage hslot⟩, ?_⟩
  · rw [← not_le, bitmapBytes_add_slots_le_iff]
    exact Nat.not_succ_le_self slots
  · rintro id schema rfl
    refine ⟨fun image _ => checkedDecode_eq_some id schema image, ?_⟩
    intro start hstart cs hcomplete p
    obtain ⟨hsound, -, hschema, hsize⟩ := hstart.soundAs.calls hcomplete
    obtain ⟨parts, hparts, hlength, hencode⟩ := hsound.exists_parts
    rw [hsound.length_slots, hschema, hsize] at hlength
    rw [hsize] at hencode
    exact ⟨parts, hparts, hlength, hsound.checkedEncode_eq_some, hencode⟩

/-- Pairs of integers on a page of 256 bytes: 31 of them, with four bytes of bitmap before and four
zeros after them. With another one they would be 260 bytes. -/
theorem largest_layout_fits_pairs :
    let id : PageId := ⟨⟨1⟩, 0⟩
    let pairs : Schema := .pair ⟨.int, none⟩ ⟨.int, none⟩
    let row : Tuple := .ofList pairs [.int 7, .int (-1)]
    let limit := 2 ^ 64 - 1
    let start := empty id pairs 256
    let p := start.calls [.insert row, .insert row, .delete { row with record := some ⟨id, 0⟩ },
      .mark (some ⟨3⟩)]
    let noise : List UInt8 := List.replicate 256 0xff
    slotCount 256 8 = 31 ∧ bitmapBytes 31 + 31 * 8 = 252 ∧ bitmapBytes 32 + 32 * 8 = 260 ∧
    252 ≤ 256 ∧ 256 < 260 ∧ 0 < 8 ∧ 8 * 256 ≤ limit ∧ 8 * 8 + 1 ≤ limit ∧
    checkedSlotCount limit 256 8 = some 31 ∧ checkedBitmapBytes limit 31 = some 4 ∧
    pairs.size = 8 ∧ checkedDecode id pairs noise = some (decode id pairs noise) ∧
    Begins id pairs 256 start ∧ row.Complete ∧
    ∃ parts, p.writeParts = (.ok (), parts) ∧ parts.length = 252 ∧
      p.checkedEncode = some (.ok (parts ++ [0, 0, 0, 0])) := by
  intro id pairs row limit start p noise
  obtain ⟨hfits, hnext, -, hwords, hpages⟩ := largest_layout_fits 256 8
  obtain ⟨hcount, hbitmap⟩ := hwords (by decide) limit (by decide) (by decide)
  obtain ⟨hreads, hwrites⟩ := hpages id pairs rfl
  have hstart : Begins id pairs 256 start := .inl rfl
  obtain ⟨parts, hparts, hlength, hchecked, hencode⟩ := hwrites start hstart
    [.insert row, .insert row, .delete { row with record := some ⟨id, 0⟩ }, .mark (some ⟨3⟩)]
    (by simp [row, pairs, Tuple.Complete, Tuple.ofList, Schema.arity, Schema.pair])
  have hlength' : parts.length = 252 := hlength
  refine ⟨rfl, rfl, rfl, hfits, hnext, by decide, by decide, by decide, hcount, hbitmap, rfl,
    hreads noise List.length_replicate, hstart, rfl, parts, hparts, hlength', ?_⟩
  rw [hchecked, hencode, hlength']
  rfl

end Page

end Rowstore
