import Mathlib
import Rowstore.Outcome
import Rowstore.Proofs.Page.RoundTrip

/-!
# Pages as maps of slots

A page tells twice which slots hold a row: by the bits of its bitmap, and by the slots themselves.
`Page.SlotMap` says that the two tell the same and that every row is where its record says. Rows are
stored and deleted and pages are marked in any order.

* `Page.insertSteps` and `Page.deleteSteps` change a page step by step, the bit of a slot first and
  then its content. They come to what `Page.insert` and `Page.delete` say, so a call that fails
  leaves the page as it was: `Page.call_error`.
* `Page.SlotMap.calls`: the page remains such a map, whatever is asked of it.
* `Page.slot_map`: what it answers. A row goes into the lowest free slot and a deletion frees the
  slot of the record that it is given; nothing else of the page changes.
-/

namespace Rowstore

namespace Page

variable {id : PageId} {schema : Schema} {size : Nat} {p q start : Page} {row : Tuple} {slot : Nat}
  {o : Option Tuple}

/-! ### Changing a page step by step -/

/-- Set the bit of a slot. -/
def setBit (p : Page) (slot : Nat) (used : Bool) : Page :=
  { p with bitmap := p.bitmap.set slot used }

/-- Put a row, or none, into a slot and leave its bit. -/
def putCell (p : Page) (slot : Nat) (o : Option Tuple) : Page :=
  { p with slots := p.slots.set slot o }

/-- Store a row: see that it may be stored, find a free slot, see that it has a number, set its bit,
and put the row there under its new record. -/
def insertSteps (p : Page) (row : Tuple) : Outcome Page RecordId :=
  match row.checkStorable p.schema with
  | .error cause => (.error cause, p)
  | .ok () => match p.firstFree? with
    | none => (.error (.pageFull p.id), p)
    | some slot =>
      if slot > maxSlot then (.error (.invalidPage p.id), p)
      else
        let row := { row with record := some ⟨p.id, slot⟩ }
        let p := p.setBit slot true
        let p := p.putCell slot (some row)
        (.ok ⟨p.id, slot⟩, p)

/-- Free a slot: see that the row has a record, that it is on the page, and that its slot is used,
clear the slot's bit, and take the row out. -/
def deleteSteps (p : Page) (row : Tuple) : Outcome Page Unit :=
  match row.record with
  | none => (.error .missingRecordId, p)
  | some record =>
    if record.page ≠ p.id then (.error (.foreignTuple record), p)
    else if ¬ p.isUsed record.slot then (.error (.slotNotOccupied p.id record.slot), p)
    else
      let p := p.setBit record.slot false
      let p := p.putCell record.slot none
      (.ok (), p)

/-- The steps come to what `Page.insert` says. -/
theorem insertSteps_eq (p : Page) (row : Tuple) :
    p.insertSteps row = match p.insert row with
      | .ok (record, p') => (.ok record, p')
      | .error cause => (.error cause, p) := by
  unfold insertSteps insert
  cases row.checkStorable p.schema with
  | error cause => rfl
  | ok u =>
    simp only [bind, Except.bind]
    cases p.firstFree? with
    | none => rfl
    | some slot =>
      by_cases hmax : slot > maxSlot
      · simp only [if_pos hmax]
        rfl
      · simp only [if_neg hmax]
        rfl

/-- The steps come to what `Page.delete` says. -/
theorem deleteSteps_eq (p : Page) (row : Tuple) :
    p.deleteSteps row = match p.delete row with
      | .ok p' => (.ok (), p')
      | .error cause => (.error cause, p) := by
  unfold deleteSteps delete
  cases row.record with
  | none => rfl
  | some record =>
    by_cases hpage : record.page ≠ p.id
    · simp only [if_pos hpage]
      rfl
    · by_cases hused : ¬ p.isUsed record.slot
      · simp only [if_neg hpage, if_pos hused]
        rfl
      · simp only [if_neg hpage, if_neg hused]
        rfl

/-! ### What is asked of a page -/

/-- A call on a page. -/
inductive Call
  | insert (row : Tuple)
  | delete (row : Tuple)
  | mark (tx : Option TxId)

/-- The answer to a call and the page after it. The answer to an insertion is the record of the
row. -/
def call (p : Page) : Call → Outcome Page (Option RecordId)
  | .insert row =>
    let (result, p) := p.insertSteps row
    (result.map some, p)
  | .delete row =>
    let (result, p) := p.deleteSteps row
    (result.map fun _ => none, p)
  | .mark tx => (.ok none, p.mark tx)

theorem call_insert (p : Page) (row : Tuple) :
    p.call (.insert row) = match p.insert row with
      | .ok (record, p') => (.ok (some record), p')
      | .error cause => (.error cause, p) := by
  rw [call, insertSteps_eq]
  cases p.insert row <;> rfl

theorem call_delete (p : Page) (row : Tuple) :
    p.call (.delete row) = match p.delete row with
      | .ok p' => (.ok none, p')
      | .error cause => (.error cause, p) := by
  rw [call, deleteSteps_eq]
  cases p.delete row <;> rfl

/-- The page after calls one after another. -/
def calls (p : Page) (cs : List Call) : Page := cs.foldl (fun p c => (p.call c).2) p

/-- A slot holds a row. -/
def Filled (p : Page) (slot : Nat) : Prop := ∃ row, p.slots[slot]? = some (some row)

/-- A slot holds no row, and all slots below it hold one. -/
def LowestFree (p : Page) (slot : Nat) : Prop :=
  p.slots[slot]? = some none ∧ ∀ i < slot, p.Filled i

/-- The second page is the first with other contents of one slot. -/
structure Refilled (p : Page) (slot : Nat) (o : Option Tuple) (q : Page) : Prop where
  content : q.slots[slot]? = some o
  bit : q.bitmap[slot]? = some o.isSome
  other_slots : ∀ i ≠ slot, q.slots[i]? = p.slots[i]?
  other_bits : ∀ i ≠ slot, q.bitmap[i]? = p.bitmap[i]?
  same_id : q.id = p.id
  same_schema : q.schema = p.schema
  same_size : q.size = p.size
  same_mark : q.dirtiedBy = p.dirtiedBy

/-- The bits that are set are those of the slots that hold a row, and every row has the record of
its slot and may be stored. -/
structure SlotMap (id : PageId) (schema : Schema) (size : Nat) (p : Page) : Prop where
  id_eq : p.id = id
  schema_eq : p.schema = schema
  size_eq : p.size = size
  length_slots : p.slots.length = slotCount size schema.size
  length_bitmap : p.bitmap.length = 8 * bitmapBytes p.slots.length
  bit_iff : ∀ i < p.slots.length, (p.bitmap[i]? = some true ↔ p.Filled i)
  stored : ∀ (i : Nat) (row : Tuple), p.slots[i]? = some (some row) →
    row.record = some ⟨id, i⟩ ∧ row.Storable schema

/-- A call that fails leaves the page as it was. -/
theorem call_error {c : Call} {cause : DbError} (h : (p.call c).1 = .error cause) :
    (p.call c).2 = p := by
  cases c with
  | insert row =>
    rw [call_insert] at h ⊢
    cases hinsert : p.insert row with
    | error cause' => rfl
    | ok stored => simp [hinsert] at h
  | delete row =>
    rw [call_delete] at h ⊢
    cases hdelete : p.delete row with
    | error cause' => rfl
    | ok q => simp [hdelete] at h
  | mark tx => cases h

theorem Filled.lt (h : p.Filled slot) : slot < p.slots.length := by
  obtain ⟨row, hrow⟩ := h
  exact (List.getElem?_eq_some_iff.1 hrow).1

theorem LowestFree.lt (h : p.LowestFree slot) : slot < p.slots.length :=
  (List.getElem?_eq_some_iff.1 h.1).1

theorem filled_iff (hslot : slot < p.slots.length) :
    p.Filled slot ↔ p.slots[slot].isSome = true := by
  rw [Filled, List.getElem?_eq_getElem hslot, Option.isSome_iff_exists]
  simp only [Option.some.injEq]

/-- A page begins as a map of its slots. -/
theorem SlotMap.of_begins (h : Begins id schema size start) : SlotMap id schema size start := by
  obtain ⟨hsound, rfl, rfl, rfl⟩ := h.soundAs
  refine ⟨rfl, rfl, rfl, hsound.length_slots, hsound.length_bitmap, fun i hi => ?_,
    fun i row hrow => ?_⟩
  · have hbit : i < start.bitmap.length := by
      rw [hsound.length_bitmap]
      exact lt_of_lt_of_le hi (le_bitmapBytes _)
    rw [List.getElem?_eq_getElem hbit, hsound.getElem_bitmap hi hbit, Option.some.injEq,
      filled_iff hi]
  · obtain ⟨hfits, hrecord, -⟩ := hsound.row_ok i row hrow
    exact ⟨hrecord, hfits.storable⟩

namespace SlotMap

/-! ### What a map of slots tells -/

theorem lt_length_bitmap (h : SlotMap id schema size p) (hslot : slot < p.slots.length) :
    slot < p.bitmap.length := by
  rw [h.length_bitmap]
  exact lt_of_lt_of_le hslot (le_bitmapBytes _)

/-- The bits of the slots are read off the slots. -/
theorem occupancy_eq (h : SlotMap id schema size p) :
    p.occupancy = p.slots.map Option.isSome := by
  have hlen : p.slots.length ≤ p.bitmap.length := by
    rw [h.length_bitmap]
    exact le_bitmapBytes _
  refine List.ext_getElem (by simp [occupancy, hlen]) fun i hi hi' => ?_
  have hslot : i < p.slots.length := by simpa using hi'
  have hbit : p.bitmap[i]? = some p.bitmap[i] := List.getElem?_eq_getElem _
  have hiff := h.bit_iff i hslot
  rw [hbit, Option.some.injEq, filled_iff hslot] at hiff
  simp only [occupancy, List.getElem_take, List.getElem_map]
  exact Bool.eq_iff_iff.2 hiff

theorem isUsed_iff (h : SlotMap id schema size p) : p.isUsed slot = true ↔ p.Filled slot := by
  rw [isUsed, h.occupancy_eq, List.getD_eq_getElem?_getD, List.getElem?_map, Filled]
  rcases p.slots[slot]? with _ | _ | row <;> simp

theorem firstFree?_eq_some_iff (h : SlotMap id schema size p) :
    p.firstFree? = some slot ↔ p.LowestFree slot := by
  rw [firstFree?, h.occupancy_eq, List.findIdx?_map, List.findIdx?_eq_some_iff_getElem]
  constructor
  · rintro ⟨hslot, hfree, hbelow⟩
    refine ⟨?_, fun i hi => ?_⟩
    · rw [List.getElem?_eq_getElem hslot]
      simpa using hfree
    · have hused := hbelow i hi
      exact (filled_iff (hi.trans hslot)).2 (by simpa [Option.isSome_iff_ne_none] using hused)
  · rintro ⟨hfree, hbelow⟩
    obtain ⟨hslot, hnone⟩ := List.getElem?_eq_some_iff.1 hfree
    refine ⟨hslot, by simp [hnone], fun i hi => ?_⟩
    have hused := (filled_iff (hi.trans hslot)).1 (hbelow i hi)
    simpa [Option.isSome_iff_ne_none] using hused

/-- The used slots and the free ones are all slots. -/
theorem length_rows_add_freeCount (h : SlotMap id schema size p) :
    p.rows.length + p.freeCount = p.slots.length := by
  rw [rows, freeCount, h.occupancy_eq]
  generalize p.slots = slots
  induction slots with
  | nil => rfl
  | cons o slots ih => cases o <;> simp <;> omega

/-! ### One slot at a time -/

/-- Filling or freeing a slot changes nothing else. -/
theorem refilled_setSlot (h : SlotMap id schema size p) (hslot : slot < p.slots.length) :
    p.Refilled slot o (p.setSlot slot o) where
  content := by simp [setSlot, hslot]
  bit := by simp [setSlot, h.lt_length_bitmap hslot]
  other_slots i hi := List.getElem?_set_ne hi.symm
  other_bits i hi := List.getElem?_set_ne hi.symm
  same_id := rfl
  same_schema := rfl
  same_size := rfl
  same_mark := rfl

/-- A page with other contents of a slot is a map of its slots again, if what is put into the slot
is at its place there. -/
theorem setSlot (h : SlotMap id schema size p) (hslot : slot < p.slots.length)
    (ho : ∀ row, o = some row → row.record = some ⟨id, slot⟩ ∧ row.Storable schema) :
    SlotMap id schema size (p.setSlot slot o) := by
  have hrefilled : p.Refilled slot o (p.setSlot slot o) := h.refilled_setSlot hslot
  have hlength : (p.setSlot slot o).slots.length = p.slots.length := List.length_set
  refine ⟨h.id_eq, h.schema_eq, h.size_eq, hlength.trans h.length_slots, ?_, ?_, ?_⟩
  · rw [hlength, ← h.length_bitmap]
    exact List.length_set
  · intro i hi
    rw [hlength] at hi
    by_cases heq : i = slot
    · subst heq
      rw [Filled, hrefilled.bit, hrefilled.content]
      simp [Option.isSome_iff_exists]
    · rw [Filled, hrefilled.other_bits i heq, hrefilled.other_slots i heq]
      exact h.bit_iff i hi
  · intro i row hrow
    by_cases heq : i = slot
    · subst heq
      rw [hrefilled.content] at hrow
      exact ho row (Option.some.inj hrow)
    · rw [hrefilled.other_slots i heq] at hrow
      exact h.stored i row hrow

/-- When a row is stored, and where. -/
theorem insert_eq_ok_iff (h : SlotMap id schema size p) {record : RecordId} :
    p.insert row = .ok (record, q) ↔ row.Storable schema ∧ record.page = id ∧
      p.LowestFree record.slot ∧ record.slot ≤ maxSlot ∧
      q = p.setSlot record.slot (some { row with record := some record }) := by
  rw [Page.insert_eq_ok_iff, h.schema_eq, h.id_eq, h.firstFree?_eq_some_iff]

/-- When a row is deleted. -/
theorem delete_eq_ok_iff (h : SlotMap id schema size p) :
    p.delete row = .ok q ↔ ∃ slot, row.record = some ⟨id, slot⟩ ∧ p.Filled slot ∧
      q = p.setSlot slot none := by
  rw [Page.delete_eq_ok_iff, h.id_eq]
  simp only [h.isUsed_iff]

/-- What a call does to a map of slots: nothing but to its mark, or it fills or frees one slot. -/
theorem call_cases (h : SlotMap id schema size p) (c : Call) :
    (∃ tx, (p.call c).2 = p.mark tx) ∨ ∃ slot o, slot < p.slots.length ∧
      (∀ row, o = some row → row.record = some ⟨id, slot⟩ ∧ row.Storable schema) ∧
      (p.call c).2 = p.setSlot slot o := by
  have hself : p = p.mark p.dirtiedBy := rfl
  cases c with
  | insert row =>
    rw [call_insert]
    cases hinsert : p.insert row with
    | error cause => exact .inl ⟨_, hself⟩
    | ok stored =>
      obtain ⟨record, q⟩ := stored
      obtain ⟨hstorable, rfl, hfree, -, rfl⟩ := h.insert_eq_ok_iff.1 hinsert
      refine .inr ⟨record.slot, _, hfree.lt, ?_, rfl⟩
      rintro _ ⟨⟩
      exact ⟨rfl, hstorable.shape, hstorable.value⟩
  | delete row =>
    rw [call_delete]
    cases hdelete : p.delete row with
    | error cause => exact .inl ⟨_, hself⟩
    | ok q =>
      obtain ⟨slot, -, hfilled, rfl⟩ := h.delete_eq_ok_iff.1 hdelete
      exact .inr ⟨slot, none, hfilled.lt, nofun, rfl⟩
  | mark tx => exact .inl ⟨tx, rfl⟩

/-- A call keeps the map, and the bits past the last slot. -/
theorem call (h : SlotMap id schema size p) (c : Call) :
    SlotMap id schema size (p.call c).2 ∧
      ∀ i, slotCount size schema.size ≤ i → (p.call c).2.bitmap[i]? = p.bitmap[i]? := by
  rcases h.call_cases c with ⟨tx, hcall⟩ | ⟨slot, o, hslot, ho, hcall⟩ <;> rw [hcall]
  · exact ⟨⟨h.id_eq, h.schema_eq, h.size_eq, h.length_slots, h.length_bitmap, h.bit_iff, h.stored⟩,
      fun i _ => rfl⟩
  · refine ⟨h.setSlot hslot ho, fun i hi => ?_⟩
    have hne : i ≠ slot := by
      have := h.length_slots
      omega
    exact (h.refilled_setSlot hslot).other_bits i hne

/-- Calls keep the map, and the bits past the last slot. -/
theorem calls (h : SlotMap id schema size p) (cs : List Call) :
    SlotMap id schema size (p.calls cs) ∧
      ∀ i, slotCount size schema.size ≤ i → (p.calls cs).bitmap[i]? = p.bitmap[i]? := by
  induction cs generalizing p with
  | nil => exact ⟨h, fun i _ => rfl⟩
  | cons c cs ih =>
    obtain ⟨hmap, hbits⟩ := h.call c
    obtain ⟨hmap', hbits'⟩ := ih hmap
    exact ⟨hmap', fun i hi => (hbits' i hi).trans (hbits i hi)⟩

/-! ### What a map of slots answers -/

theorem call_insert_iff (h : SlotMap id schema size p) {record : RecordId} :
    (p.call (.insert row)).1 = .ok (some record) ↔ row.Storable schema ∧ record.page = id ∧
      p.LowestFree record.slot ∧ record.slot ≤ maxSlot := by
  rw [Page.call_insert]
  constructor
  · intro hcall
    cases hinsert : p.insert row with
    | error cause => simp [hinsert] at hcall
    | ok stored =>
      obtain ⟨record', q⟩ := stored
      simp only [hinsert, Except.ok.injEq, Option.some.injEq] at hcall
      subst hcall
      obtain ⟨hstorable, hpage, hfree, hmax, -⟩ := h.insert_eq_ok_iff.1 hinsert
      exact ⟨hstorable, hpage, hfree, hmax⟩
  · rintro ⟨hstorable, hpage, hfree, hmax⟩
    have hinsert := h.insert_eq_ok_iff.2 ⟨hstorable, hpage, hfree, hmax, rfl⟩
    simp only [hinsert]

theorem call_delete_iff (h : SlotMap id schema size p) :
    (p.call (.delete row)).1 = .ok none ↔
      ∃ slot, row.record = some ⟨id, slot⟩ ∧ p.Filled slot := by
  rw [Page.call_delete]
  constructor
  · intro hcall
    cases hdelete : p.delete row with
    | error cause => simp [hdelete] at hcall
    | ok q =>
      obtain ⟨slot, hrecord, hfilled, -⟩ := h.delete_eq_ok_iff.1 hdelete
      exact ⟨slot, hrecord, hfilled⟩
  · rintro ⟨slot, hrecord, hfilled⟩
    have hdelete := h.delete_eq_ok_iff.2 ⟨slot, hrecord, hfilled, rfl⟩
    simp only [hdelete]

end SlotMap

/-- What a page is that began as another one, and how it answers. -/
structure Answers (id : PageId) (schema : Schema) (size : Nat) (start p : Page) : Prop where
  map : SlotMap id schema size p
  used_iff : ∀ slot, p.isUsed slot = true ↔ p.Filled slot
  /-- The used slots and the free ones are all slots. -/
  count : p.rows.length + p.freeCount = slotCount size schema.size
  /-- The bits past the last slot are those it began with. -/
  spare : ∀ i, slotCount size schema.size ≤ i → p.bitmap[i]? = start.bitmap[i]?
  /-- A row is stored exactly if it may be and the lowest free slot has a number. -/
  insert_iff : ∀ row record, (p.call (.insert row)).1 = .ok (some record) ↔
    row.Storable schema ∧ record.page = id ∧ p.LowestFree record.slot ∧ record.slot ≤ maxSlot
  /-- It fills that slot, and nothing else changes. -/
  inserted : ∀ row record, (p.call (.insert row)).1 = .ok (some record) →
    p.Refilled record.slot (some { row with record := some record }) (p.call (.insert row)).2
  /-- A row is deleted exactly if its record is a used slot of the page. -/
  delete_iff : ∀ row, (p.call (.delete row)).1 = .ok none ↔
    ∃ slot, row.record = some ⟨id, slot⟩ ∧ p.Filled slot
  /-- It frees that slot, and nothing else changes. -/
  deleted : ∀ row slot, row.record = some ⟨id, slot⟩ → p.Filled slot →
    p.Refilled slot none (p.call (.delete row)).2
  marked : ∀ tx, p.call (.mark tx) = (.ok none, { p with dirtiedBy := tx })
  /-- A call that fails changes nothing. -/
  refused : ∀ c cause, (p.call c).1 = .error cause → (p.call c).2 = p

/-- **Pages are maps of their slots**, by any calls. -/
theorem slot_map (h : Begins id schema size start) (cs : List Call) :
    Answers id schema size start (start.calls cs) := by
  obtain ⟨hmap, hbits⟩ := (SlotMap.of_begins h).calls cs
  generalize start.calls cs = p at hmap hbits
  exact {
    map := hmap
    used_iff := fun slot => hmap.isUsed_iff
    count := hmap.length_slots ▸ hmap.length_rows_add_freeCount
    spare := hbits
    insert_iff := fun row record => hmap.call_insert_iff
    inserted := by
      intro row record hok
      obtain ⟨hstorable, hpage, hfree, hmax⟩ := hmap.call_insert_iff.1 hok
      have hinsert := hmap.insert_eq_ok_iff.2 ⟨hstorable, hpage, hfree, hmax, rfl⟩
      simp only [call_insert, hinsert]
      exact hmap.refilled_setSlot hfree.lt
    delete_iff := fun row => hmap.call_delete_iff
    deleted := by
      intro row slot hrecord hfilled
      have hdelete := hmap.delete_eq_ok_iff.2 ⟨slot, hrecord, hfilled, rfl⟩
      simp only [call_delete, hdelete]
      exact hmap.refilled_setSlot hfilled.lt
    marked := fun tx => rfl
    refused := fun c cause => call_error }

/-- A page that was read with a bit set past its last slot is filled, and its first slot is freed
and filled again. -/
theorem slot_map_scribbled :
    let id : PageId := ⟨⟨1⟩, 0⟩
    let row : Tuple := .ofList named [.int 8, .str "ho"]
    ∃ start, decode id named scribbled = .ok start ∧ Begins id named 300 start ∧
      let p := start.calls [.insert row, .insert row, .delete { row with record := some ⟨id, 0⟩ },
        .mark (some ⟨3⟩)]
      SlotMap id named 300 p ∧ p.rows.length + p.freeCount = 2 ∧ p.bitmap[2]? = some true ∧
        (p.call (.insert row)).1 = .ok (some ⟨id, 0⟩) := by
  intro id row
  have hreads : (decode id named scribbled).toOption.map (fun start =>
      (start.bitmap[2]?, (start.calls [.insert row, .insert row,
        .delete { row with record := some ⟨id, 0⟩ }, .mark (some ⟨3⟩)]).slots[0]?)) =
      some (some true, some none) := by decide +kernel
  cases hdecode : decode id named scribbled with
  | error cause =>
    rw [hdecode] at hreads
    cases hreads
  | ok start =>
    rw [hdecode] at hreads
    obtain ⟨hbit, hfree⟩ := Prod.mk.inj (Option.some.inj hreads)
    have hbegins : Begins id named 300 start := .inr ⟨scribbled, by decide +kernel, hdecode⟩
    have hanswers := slot_map hbegins [.insert row, .insert row,
      .delete { row with record := some ⟨id, 0⟩ }, .mark (some ⟨3⟩)]
    have hstorable : row.Storable named := Tuple.checkStorable_eq_ok_iff.1 (by decide)
    refine ⟨start, rfl, hbegins, hanswers.map, hanswers.count,
      (hanswers.spare 2 (by decide)).trans hbit, ?_⟩
    exact (hanswers.insert_iff row ⟨id, 0⟩).2 ⟨hstorable, rfl, ⟨hfree, nofun⟩, Nat.zero_le _⟩

end Page

end Rowstore
