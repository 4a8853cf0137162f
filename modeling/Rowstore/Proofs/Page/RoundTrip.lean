import Mathlib
import Rowstore.Proofs.Codec.Significant
import Rowstore.Proofs.Page.Slots

/-!
# Pages and their images

A page and its image tell the same. `Page.Begins` says how a page comes into being, empty or from an
image, and `Page.edits` what becomes of it when rows are stored and deleted.

* `Page.Sound.edits`: every such page is sound, so that its image reads back.
* `Page.image_round_trip`: the image of a page has the page's size and decodes to a page that agrees
  with it: the same bits, the same slots in use and the same rows. A page that was decoded is
  written as its image was, with zeros in place of the insignificant bytes. The two images are equal
  exactly if those bytes were zeros before.
-/

namespace Rowstore

namespace Page

variable {id : PageId} {schema : Schema} {size : Nat} {image : List UInt8} {p q start : Page}

/-! ### Pages that come about -/

/-- A change that is asked of a page. -/
inductive Edit
  | insert (row : Tuple) (complete : row.Complete)
  | delete (row : Tuple)

/-- The page after a change. One that fails leaves the page as it was. -/
def edit (p : Page) : Edit → Page
  | .insert row _ =>
    match p.insert row with
    | .ok (_, p) => p
    | .error _ => p
  | .delete row =>
    match p.delete row with
    | .ok p => p
    | .error _ => p

/-- The page after changes one after another. -/
def edits (p : Page) (changes : List Edit) : Page := changes.foldl edit p

/-- A page of a size comes into being with every slot free, or from an image. -/
def Begins (id : PageId) (schema : Schema) (size : Nat) (p : Page) : Prop :=
  create id schema size = .ok p ∨
    ∃ image : List UInt8, image.length = size ∧ decode id schema image = .ok p

/-- A sound page with a number, a schema and a size. -/
def SoundAs (id : PageId) (schema : Schema) (size : Nat) (p : Page) : Prop :=
  p.Sound ∧ p.id = id ∧ p.schema = schema ∧ p.size = size

theorem Begins.soundAs (h : Begins id schema size p) : SoundAs id schema size p := by
  have hdecode : ∀ {image : List UInt8}, image.length = size → decode id schema image = .ok p →
      SoundAs id schema size p := by
    intro image hlen hdecode
    obtain ⟨hsound, hid, hschema, hsize, -⟩ := sound_of_decode hdecode
    exact ⟨hsound, hid, hschema, hsize.trans hlen⟩
  rcases h with hcreate | ⟨image, hlen, himage⟩
  · unfold create at hcreate
    split_ifs at hcreate
    cases hcreate
    exact hdecode List.length_replicate (decode_zeros_eq_empty id schema size)
  · exact hdecode hlen himage

/-- A change keeps the page's number. -/
theorem id_edit (p : Page) (change : Edit) : (p.edit change).id = p.id := by
  cases change with
  | insert row complete =>
    cases hinsert : p.insert row with
    | error cause => simp only [Page.edit, hinsert]
    | ok stored =>
      simp only [Page.edit, hinsert]
      exact id_of_insert hinsert
  | delete row =>
    cases hdelete : p.delete row with
    | error cause => simp only [Page.edit, hdelete]
    | ok p' =>
      simp only [Page.edit, hdelete]
      exact id_of_delete hdelete

/-- A change keeps a page sound, whether it fails or not. -/
theorem SoundAs.edit (h : SoundAs id schema size p) (change : Edit) :
    SoundAs id schema size (p.edit change) := by
  obtain ⟨hsound, hid, hschema, hsize⟩ := h
  cases change with
  | insert row complete =>
    cases hinsert : p.insert row with
    | error cause =>
      simp only [Page.edit, hinsert]
      exact ⟨hsound, hid, hschema, hsize⟩
    | ok stored =>
      obtain ⟨record, p'⟩ := stored
      simp only [Page.edit, hinsert]
      obtain ⟨hsound', hid', hschema', hsize', -⟩ := hsound.insert_eq_ok complete hinsert
      exact ⟨hsound', hid'.trans hid, hschema'.trans hschema, hsize'.trans hsize⟩
  | delete row =>
    cases hdelete : p.delete row with
    | error cause =>
      simp only [Page.edit, hdelete]
      exact ⟨hsound, hid, hschema, hsize⟩
    | ok p' =>
      simp only [Page.edit, hdelete]
      obtain ⟨hsound', hid', hschema', hsize', -⟩ := hsound.delete_eq_ok hdelete
      exact ⟨hsound', hid'.trans hid, hschema'.trans hschema, hsize'.trans hsize⟩

theorem SoundAs.edits (h : SoundAs id schema size p) (changes : List Edit) :
    SoundAs id schema size (p.edits changes) := by
  induction changes generalizing p with
  | nil => exact h
  | cons change changes ih => exact ih (h.edit change)

/-! ### Reading back -/

/-- Rows in the slots of two pages agree when the cells of the pages are the same. -/
theorem agrees_of_cells (h : q.cells = p.cells) :
    List.Forall₂ (Option.Rel Tuple.Agrees) q.slots p.slots := by
  have hlen : q.slots.length = p.slots.length := by simpa using congrArg List.length h
  refine List.forall₂_iff_get.2 ⟨hlen, fun i hi hi' => ?_⟩
  have hcell : q.slots[i].map Tuple.row = p.slots[i].map Tuple.row := by
    have hget : q.cells[i]? = p.cells[i]? := by rw [h]
    simpa [cells, hi, hi'] using hget
  simp only [List.get_eq_getElem]
  generalize q.slots[i] = a at hcell
  generalize p.slots[i] = b at hcell
  cases a <;> cases b
  · exact .none
  · cases hcell
  · cases hcell
  · exact .some (Tuple.row_eq_iff.1 (Option.some.inj hcell))

/-- The rows of a page that was decoded have the schema that they were read with. -/
theorem schema_of_decode (h : decode id schema image = .ok p) {i : Nat} {row : Tuple}
    (hrow : p.slots[i]? = some (some row)) : row.schema = schema := by
  obtain ⟨slots, hslots, hdecode, rfl⟩ := decode_eq_ok_iff.1 h
  obtain ⟨hi, hslot⟩ := List.getElem?_eq_some_iff.1 hrow
  have hi' : i < slots.length := hi
  have hread := hdecode i hi' (lt_length_imageBits schema image (hslots ▸ hi'))
  rw [show slots[i] = some row from hslot] at hread
  rcases decodeSlot_cases hread with ⟨-, hnone⟩ | ⟨u, rest, -, hu, -, hsome⟩
  · cases hnone
  · cases hsome
    exact (Tuple.fits_of_read hu).1

/-- Two pages that were decoded, with the same cells and bits, are the same. -/
theorem eq_of_decode {image' : List UInt8} (hp : decode id schema image = .ok p)
    (hq : decode id schema image' = .ok q) (hlen : image'.length = image.length)
    (hcells : q.cells = p.cells) (hbitmap : q.bitmap = p.bitmap) : q = p := by
  have hslots : q.slots = p.slots := by
    have hcount : q.slots.length = p.slots.length := by simpa using congrArg List.length hcells
    refine List.ext_getElem hcount fun i hi hi' => ?_
    have hcell : q.slots[i].map Tuple.row = p.slots[i].map Tuple.row := by
      have hget : q.cells[i]? = p.cells[i]? := by rw [hcells]
      simpa [cells, hi, hi'] using hget
    have hq' := fun row (h : q.slots[i] = some row) =>
      schema_of_decode hq (List.getElem?_eq_some_iff.2 ⟨hi, h⟩)
    have hp' := fun row (h : p.slots[i] = some row) =>
      schema_of_decode hp (List.getElem?_eq_some_iff.2 ⟨hi', h⟩)
    generalize q.slots[i] = a at hcell hq'
    generalize p.slots[i] = b at hcell hp'
    rcases a with _ | ⟨sa, va, ra⟩ <;> rcases b with _ | ⟨sb, vb, rb⟩
    · rfl
    · cases hcell
    · cases hcell
    · have hschema : sa = sb := (hq' _ rfl).trans (hp' _ rfl).symm
      have hrow := Tuple.row_eq_iff.1 (Option.some.inj hcell)
      obtain ⟨-, hvalues, hrecord⟩ := hrow
      cases hschema
      cases hvalues
      cases hrecord
      rfl
  obtain ⟨-, hid, hschema, hsize, hclean⟩ := sound_of_decode hp
  obtain ⟨-, hid', hschema', hsize', hclean'⟩ := sound_of_decode hq
  obtain ⟨⟩ := p
  obtain ⟨⟩ := q
  simp_all

/-- The occupied slots of sound pages with the same cells are the same. -/
theorem Sound.occupancy_congr (hp : p.Sound) (hq : q.Sound) (h : q.cells = p.cells) :
    q.occupancy = p.occupancy := by
  have hsome : ∀ r : Page, r.slots.map Option.isSome = r.cells.map Option.isSome := by
    intro r
    simp [cells]
  rw [hp.occupancy_eq, hq.occupancy_eq, hsome, hsome, h]

/-- **A page and its image tell the same**, whichever of the two was first. -/
theorem image_round_trip (id : PageId) (schema : Schema) :
    (∀ size start, Begins id schema size start → ∀ changes,
      ∃ image q, (start.edits changes).encode = .ok image ∧ image.length = size ∧
        decode id schema image = .ok q ∧ q.bitmap = (start.edits changes).bitmap ∧
        q.occupancy = (start.edits changes).occupancy ∧
        List.Forall₂ (Option.Rel Tuple.Agrees) q.slots (start.edits changes).slots) ∧
    (∀ image p, decode id schema image = .ok p →
      ∃ image', p.encode = .ok image' ∧ decode id schema image' = .ok p ∧
        (significant schema image).length = image.length ∧
        image' = wipe (significant schema image) image ∧
        (image' = image ↔
          ∀ i : Nat, (significant schema image)[i]? = some false → image[i]? = some 0)) := by
  constructor
  · intro size start hstart changes
    obtain ⟨hsound, hid, hschema, hsize⟩ := hstart.soundAs.edits changes
    obtain ⟨image, hencode, hlen, q, hdecode, hcells, hbitmap⟩ := exists_image hsound
    rw [hid, hschema] at hdecode
    exact ⟨image, q, hencode, hlen.trans hsize, hdecode, hbitmap,
      hsound.occupancy_congr (sound_of_decode hdecode).1 hcells, agrees_of_cells hcells⟩
  · intro image p hdecode
    obtain ⟨hlength, hencode⟩ := encode_of_decode hdecode
    obtain ⟨hsound, hid, hschema, hsize, -⟩ := sound_of_decode hdecode
    obtain ⟨image', hencode', hlen, q, hdecode', hcells, hbitmap⟩ := exists_image hsound
    rw [hid, hschema] at hdecode'
    have hsame := eq_of_decode hdecode hdecode' (hlen.trans hsize) hcells hbitmap
    cases hencode'.symm.trans hencode
    exact ⟨_, hencode, hsame ▸ hdecode', hlength, rfl, wipe_eq_self_iff hlength⟩

/-- The schema of a number and a name. -/
def named : Schema := .pair ⟨.int, none⟩ ⟨.str, none⟩

/-- A page of two slots, with 7 and a name of two letters in the first. A bit past the last slot is
set, and some bytes tell nothing. -/
def scribbled : List UInt8 :=
  [0b101, 7, 0, 0, 0, 2, 0, 0, 0, 104, 105, 9] ++ List.replicate 125 0 ++ [5] ++
    List.replicate 161 0 ++ [6]

/-- The law on a page that two rows fill and a third does not, and of which the first is deleted;
and on an image with bytes that tell nothing, which is written otherwise. -/
theorem image_round_trip_named :
    let id : PageId := ⟨⟨1⟩, 0⟩
    let row : Tuple := .ofList named [.int 7, .str "hi"]
    let start := empty id named 300
    let p := start.edits [.insert row rfl, .insert row rfl, .insert row rfl,
      .delete { row with record := some ⟨id, 0⟩ }]
    (Begins id named 300 start ∧ ∃ image q, p.encode = .ok image ∧ image.length = 300 ∧
      decode id named image = .ok q ∧ q.bitmap = p.bitmap ∧ q.occupancy = p.occupancy ∧
      List.Forall₂ (Option.Rel Tuple.Agrees) q.slots p.slots) ∧
    ∃ p image', decode id named scribbled = .ok p ∧ p.encode = .ok image' ∧
      decode id named image' = .ok p ∧ image' ≠ scribbled := by
  intro id row start p
  have hstart : Begins id named 300 start := .inl rfl
  refine ⟨⟨hstart, (image_round_trip id named).1 300 start hstart _⟩, ?_⟩
  have hreads : (decode id named scribbled).toOption.isSome = true := by decide +kernel
  cases hdecode : decode id named scribbled with
  | error cause =>
    rw [hdecode] at hreads
    cases hreads
  | ok p =>
    obtain ⟨image', hencode, hagain, -, -, hsame⟩ :=
      (image_round_trip id named).2 scribbled p hdecode
    refine ⟨p, image', rfl, hencode, hagain, fun heq => ?_⟩
    -- the byte after the name is not a zero
    have hzero := hsame.1 heq 11 (by decide +kernel)
    exact absurd hzero (by decide +kernel)

end Page

end Rowstore
