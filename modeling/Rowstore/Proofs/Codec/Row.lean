import Mathlib
import Rowstore.Proofs.Codec.Cell
import Rowstore.Tuple

/-!
# Stored rows

What of a row is stored. A page keeps the values of a row and not the names of its columns, so two
rows are the same `Row` when they agree: same column types, same values, same record.

* `Tuple.Fits` says that a row may be stored under a schema: it has the shape of the schema, and a
  value that fits for every column.
* `Tuple.checkStorable_eq_ok_iff`: the check on storing lets pass what is `Tuple.Storable`. Of a row
  that has an entry for every column that is the same, by `Tuple.fits_of_checkStorable`.
* `Tuple.exists_image`: a row that fits has a written form of the size of the schema, and reading
  that in front of any bytes gives the values back.
-/

namespace Rowstore

/-! ### Lists of results -/

section Results

variable {α β : Type}

/-- A computation in two parts comes through when both do. -/
theorem bind_eq_ok_iff {x : Except DbError α} {f : α → Except DbError β} {b : β} :
    x >>= f = .ok b ↔ ∃ a, x = .ok a ∧ f a = .ok b := by
  cases x with
  | error cause => exact ⟨nofun, nofun⟩
  | ok a => exact ⟨fun h => ⟨a, rfl, h⟩, fun ⟨_, ha, h⟩ => by cases ha; exact h⟩

/-- A list of results comes through when each of them does. -/
theorem mapM_eq_ok_iff {f : α → Except DbError β} {xs : List α} {ys : List β} :
    xs.mapM f = .ok ys ↔ List.Forall₂ (fun x y => f x = .ok y) xs ys := by
  induction xs generalizing ys with
  | nil =>
    rw [List.mapM_nil, List.forall₂_nil_left_iff]
    exact ⟨fun h => by cases h; rfl, fun h => by rw [h]; rfl⟩
  | cons x xs ih =>
    rw [List.mapM_cons]
    constructor
    · intro h
      obtain ⟨y, hx, h⟩ := bind_eq_ok_iff.1 h
      obtain ⟨ys', hxs, h⟩ := bind_eq_ok_iff.1 h
      cases h
      exact .cons hx (ih.1 hxs)
    · rintro (_ | ⟨hx, hxs⟩)
      rw [hx, ih.2 hxs]
      rfl

/-- A list of results fails when one of them does, with the cause of the first. -/
theorem mapM_eq_error_iff {f : α → Except DbError β} {xs : List α} {cause : DbError} :
    xs.mapM f = .error cause ↔
      ∃ before x after, xs = before ++ x :: after ∧ (∀ y ∈ before, ∃ b, f y = .ok b) ∧
        f x = .error cause := by
  induction xs with
  | nil =>
    rw [List.mapM_nil]
    constructor
    · rintro ⟨⟩
    · rintro ⟨before, x, after, hxs, -⟩
      cases before <;> cases hxs
  | cons x xs ih =>
    rw [List.mapM_cons]
    cases hx : f x with
    | error first =>
      change Except.error first = _ ↔ _
      constructor
      · rintro ⟨⟩
        exact ⟨[], x, xs, rfl, nofun, hx⟩
      · rintro ⟨before, y, after, hxs, hbefore, hy⟩
        cases before with
        | nil =>
          cases hxs
          cases hx.symm.trans hy
          rfl
        | cons z before =>
          cases hxs
          obtain ⟨b, hb⟩ := hbefore x List.mem_cons_self
          rw [hx] at hb
          cases hb
    | ok b =>
      have hrest : (do let bs ← xs.mapM f; return b :: bs) = .error cause ↔
          xs.mapM f = .error cause := by
        cases xs.mapM f with
        | error cause => rfl
        | ok bs => exact ⟨nofun, nofun⟩
      refine hrest.trans (ih.trans ⟨?_, ?_⟩)
      · rintro ⟨before, y, after, rfl, hbefore, hy⟩
        exact ⟨x :: before, y, after, rfl, List.forall_mem_cons.2 ⟨⟨b, hx⟩, hbefore⟩, hy⟩
      · rintro ⟨before, y, after, hxs, hbefore, hy⟩
        cases before with
        | nil =>
          cases hxs
          rw [hx] at hy
          cases hy
        | cons z before =>
          cases hxs
          exact ⟨before, y, after, rfl, (List.forall_mem_cons.1 hbefore).2, hy⟩

/-- There is a list of results when there is a result each time. -/
theorem exists_mapM_iff {f : α → Except DbError β} {xs : List α} :
    (∃ ys, xs.mapM f = .ok ys) ↔ ∀ x ∈ xs, ∃ y, f x = .ok y := by
  constructor
  · rintro ⟨ys, hys⟩ x hx
    obtain ⟨hsame, hget⟩ := List.forall₂_iff_get.1 (mapM_eq_ok_iff.1 hys)
    obtain ⟨i, hi, rfl⟩ := List.mem_iff_getElem.1 hx
    exact ⟨ys[i], hget i hi (hsame ▸ hi)⟩
  · intro h
    cases hys : xs.mapM f with
    | ok ys => exact ⟨ys, rfl⟩
    | error cause =>
      obtain ⟨before, x, after, rfl, -, hx⟩ := mapM_eq_error_iff.1 hys
      obtain ⟨y, hy⟩ := h x (List.mem_append_right _ List.mem_cons_self)
      rw [hx] at hy
      cases hy

/-- A list of checks passes when each of them does. -/
theorem forM_eq_ok_iff {f : α → Except DbError Unit} {xs : List α} :
    xs.forM f = .ok () ↔ ∀ x ∈ xs, f x = .ok () := by
  induction xs with
  | nil => exact ⟨fun _ x hx => by simp at hx, fun _ => rfl⟩
  | cons x xs ih =>
    rw [List.forall_mem_cons, ← ih]
    change f x >>= (fun _ => xs.forM f) = .ok () ↔ _
    rw [bind_eq_ok_iff]
    exact ⟨fun ⟨_, hx, h⟩ => ⟨hx, h⟩, fun ⟨hx, h⟩ => ⟨_, hx, h⟩⟩

end Results

/-! ### Rows -/

/-- A row up to the names of its columns. -/
structure Row where
  types : List ColumnType
  values : List (Option Value)
  record : Option RecordId
deriving DecidableEq

namespace Tuple

/-- What two rows that agree have in common. -/
def row (t : Tuple) : Row := ⟨t.schema.types, t.values, t.record⟩

/-- The row that is stored when this one is put into a record. -/
def rowAt (t : Tuple) (record : RecordId) : Row := ⟨t.schema.types, t.values, some record⟩

theorem row_eq_iff {a b : Tuple} : a.row = b.row ↔ a.Agrees b := by
  simp [row, Agrees, Schema.SameShape]

/-- There is an entry for every column, as in every row that was built from a schema. -/
def Complete (t : Tuple) : Prop := t.values.length = t.schema.arity

instance (t : Tuple) : Decidable t.Complete := inferInstanceAs (Decidable (_ = _))

/-- A row may be stored under a schema. -/
def Fits (t : Tuple) (schema : Schema) : Prop :=
  t.schema.SameShape schema ∧
    ∃ vs, t.values = vs.map some ∧ List.Forall₂ Value.Fits vs schema.types

/-- A value that is there is found. -/
theorem field_eq_ok_iff {t : Tuple} {index : Nat} {v : Value} :
    t.field index = .ok v ↔ t.values[index]? = some (some v) := by
  unfold field
  split <;> rename_i h <;> simp [h]

/-- A list without gaps is a list of values. -/
theorem exists_map_some {α : Type} :
    ∀ {xs : List (Option α)}, (∀ x ∈ xs, x ≠ none) → ∃ ys : List α, xs = ys.map some
  | [], _ => ⟨[], rfl⟩
  | none :: _, h => absurd rfl (h none (by simp))
  | some x :: xs, h => by
    obtain ⟨ys, rfl⟩ := exists_map_some fun y hy => h y (List.mem_cons_of_mem _ hy)
    exact ⟨x :: ys, rfl⟩

/-- A row may be put into a page of a schema: its columns have the types of the schema, and for each
of them there is a value that fits. -/
structure Storable (t : Tuple) (schema : Schema) : Prop where
  shape : t.schema.SameShape schema
  value : ∀ (i : Nat) (column : Column), schema.columns[i]? = some column →
    ∃ v : Value, t.values[i]? = some (some v) ∧ v.Fits column.type

/-- The rows that pass the check on storing. -/
theorem checkStorable_eq_ok_iff {t : Tuple} {schema : Schema} :
    t.checkStorable schema = .ok () ↔ t.Storable schema := by
  unfold checkStorable
  by_cases hshape : t.schema.SameShape schema
  · rw [if_neg (not_not.2 hshape), forM_eq_ok_iff]
    constructor
    · intro h
      refine ⟨hshape, fun i column hi => ?_⟩
      obtain ⟨v, hv, hfits⟩ := bind_eq_ok_iff.1 (h (column, i) (List.mem_zipIdx_iff_getElem?.2 hi))
      exact ⟨v, field_eq_ok_iff.1 hv, hfits⟩
    · rintro h ⟨column, i⟩ hi
      obtain ⟨v, hv, hfits⟩ := h.value i column (List.mem_zipIdx_iff_getElem?.1 hi)
      exact bind_eq_ok_iff.2 ⟨v, field_eq_ok_iff.2 hv, hfits⟩
  · rw [if_pos hshape]
    exact ⟨nofun, fun h => absurd h.shape hshape⟩

/-- A row that fits may be stored. -/
theorem Fits.storable {t : Tuple} {schema : Schema} (h : t.Fits schema) : t.Storable schema := by
  obtain ⟨hshape, vs, hvs, hfits⟩ := h
  refine ⟨hshape, fun i column hi => ?_⟩
  obtain ⟨hlen, hget⟩ := List.forall₂_iff_get.1 hfits
  obtain ⟨hcol, rfl⟩ := List.getElem?_eq_some_iff.1 hi
  have htype : i < schema.types.length := by simpa [Schema.types] using hcol
  have hi' : i < vs.length := hlen ▸ htype
  refine ⟨vs[i], by simp [hvs, hi'], ?_⟩
  have hfit := hget i hi' htype
  simpa [Schema.types] using hfit

/-- A row that passes the check on storing fits. -/
theorem fits_of_checkStorable {t : Tuple} {schema : Schema} (hcomplete : t.Complete)
    (h : t.checkStorable schema = .ok ()) : t.Fits schema := by
  obtain ⟨hshape, hvalue⟩ := checkStorable_eq_ok_iff.1 h
  have hlen : t.values.length = schema.columns.length := by
    have htypes := congrArg List.length (show t.schema.types = schema.types from hshape)
    simp only [Schema.types, List.length_map] at htypes
    exact hcomplete.trans htypes
  -- there is an entry for every column, so none of them is missing
  have hsome : ∀ x ∈ t.values, x ≠ none := by
    rintro _ hx rfl
    obtain ⟨i, hi, hnone⟩ := List.mem_iff_getElem.1 hx
    obtain ⟨v, hv, -⟩ := hvalue i _ (List.getElem?_eq_getElem (hlen ▸ hi))
    rw [List.getElem?_eq_getElem hi, hnone] at hv
    cases hv
  obtain ⟨vs, hvs⟩ := exists_map_some hsome
  refine ⟨hshape, vs, hvs, List.forall₂_iff_get.2 ⟨?_, ?_⟩⟩
  · simpa [hvs, Schema.types] using hlen
  · intro i hi hi'
    have hcol : i < schema.columns.length := by simpa [Schema.types] using hi'
    obtain ⟨v, hv, hfits⟩ := hvalue i _ (List.getElem?_eq_getElem hcol)
    rw [hvs, List.getElem?_map, List.getElem?_eq_getElem hi] at hv
    cases hv
    simpa [Schema.types] using hfits

/-! ### Written form -/

/-- Values that fit their columns have cells, which read back as the values. -/
theorem exists_cells {vs : List Value} {types : List ColumnType}
    (h : List.Forall₂ Value.Fits vs types) :
    ∃ cells, List.Forall₂ (fun v cell => Value.encode v = .ok cell) vs cells ∧
      cells.flatten.length = ColumnType.totalWidth types ∧
      ∀ rest, readValues types (cells.flatten ++ rest) = (some vs, rest) := by
  induction h with
  | nil => exact ⟨[], .nil, rfl, fun rest => rfl⟩
  | @cons v type vs types hv _ ih =>
    obtain ⟨cell, hencode, hlen, hread⟩ := Value.exists_cell hv
    obtain ⟨cells, hcells, hlens, hreads⟩ := ih
    refine ⟨cell :: cells, .cons hencode hcells, ?_, fun rest => ?_⟩
    · simp [hlen, hlens]
    · rw [List.flatten_cons, List.append_assoc]
      simp only [readValues, hread, hreads]

/-- A row is written cell by cell. -/
theorem encode_of_cells {t : Tuple} {vs : List Value} {cells : List (List UInt8)}
    (hvs : t.values = vs.map some)
    (hcells : List.Forall₂ (fun v cell => Value.encode v = .ok cell) vs cells) :
    t.encode = .ok cells.flatten := by
  have hmap : (List.range t.values.length).mapM (fun index => do
      let v ← t.field index
      v.encode) = .ok cells := by
    obtain ⟨hsame, hget⟩ := List.forall₂_iff_get.1 hcells
    refine mapM_eq_ok_iff.2 (List.forall₂_iff_get.2 ⟨by simp [hvs, hsame], ?_⟩)
    intro i hi hi'
    have hi'' : i < vs.length := hsame ▸ hi'
    have hfield : t.field i = .ok vs[i] := field_eq_ok_iff.2 (by simp [hvs, hi''])
    simp only [List.get_eq_getElem, List.getElem_range, hfield]
    exact hget i hi'' hi'
  unfold encode
  rw [hmap]
  rfl

/-- A row that fits has a written form, which reads back as its values. -/
theorem exists_image {t : Tuple} {schema : Schema} (h : t.Fits schema) :
    ∃ image, t.encode = .ok image ∧ image.length = schema.size ∧
      ∀ rest, ∃ u, read schema (image ++ rest) = (some u, rest) ∧
        u.schema = schema ∧ u.values = t.values := by
  obtain ⟨-, vs, hvs, hfits⟩ := h
  obtain ⟨cells, hcells, hlen, hread⟩ := exists_cells hfits
  refine ⟨cells.flatten, encode_of_cells hvs hcells, hlen, fun rest =>
    ⟨ofList schema vs, ?_, rfl, hvs.symm⟩⟩
  rw [read, hread]

/-- Values read in columns fit them. -/
theorem fits_of_readValues {types : List ColumnType} {bytes rest : List UInt8} {vs : List Value}
    (h : readValues types bytes = (some vs, rest)) : List.Forall₂ Value.Fits vs types := by
  induction types generalizing bytes vs with
  | nil => cases h; exact .nil
  | cons type types ih =>
    simp only [readValues] at h
    split at h
    · cases h
    · rename_i hv
      split at h
      · cases h
      · rename_i hvs
        cases h
        exact .cons (Value.fits_of_read hv) (ih hvs)

/-- A row that was read under a schema has that schema and fits it. -/
theorem fits_of_read {schema : Schema} {bytes rest : List UInt8} {u : Tuple}
    (h : read schema bytes = (some u, rest)) : u.schema = schema ∧ u.Fits schema := by
  unfold read at h
  split at h
  · cases h
  · rename_i hvs
    cases h
    exact ⟨rfl, rfl, _, rfl, fits_of_readValues hvs⟩

end Tuple

end Rowstore
