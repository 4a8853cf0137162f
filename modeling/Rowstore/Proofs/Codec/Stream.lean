import Mathlib
import Rowstore.Outcome
import Rowstore.Proofs.Codec.Acceptance
import Rowstore.Proofs.Codec.Row

/-!
# Rows in a stream

Rows written to the end of a buffer and read from the front of one, with whatever stands before and
after them.

* `Tuple.write` appends the cells of a row one by one. A value that is not there, or a string that
  is too long, ends it, and what was appended up to there stays. `Tuple.write_of_ok` and
  `Tuple.write_of_error` say that this comes to what `Tuple.encode` says of the row.
* `Tuple.StopsAt` is the first column, in order, where the bytes hold no value: too few of them for
  the column, a length that is too large, or a text that is not UTF-8. The reader gives no row
  exactly if there is such a column, and then it has come as far as reading that column takes it.
* `Tuple.codec_on_stream` puts the two together for all schemas. A row that passes the check on
  storing appends as many bytes as the schema says, and the reader gives its values back from them
  and leaves what follows. Two such rows that are written alike have the same values.
-/

namespace Rowstore

/-! ### Writing -/

namespace Value

/-- Append the cell of a value to a buffer. For a string that is too long nothing is appended. -/
def write (v : Value) (buffer : List UInt8) : Outcome (List UInt8) Unit :=
  match v with
  | int n => (.ok (), buffer ++ LittleEndian.bytes 4 n.toUInt32.toNat)
  | str s =>
    let text := TextBytes.encode s
    if text.length > maxTextBytes then
      (.error (.stringTooLong text.length maxTextBytes), buffer)
    else
      let buffer := buffer ++ LittleEndian.bytes 4 text.length
      let buffer := buffer ++ text
      (.ok (), buffer ++ List.replicate (maxTextBytes - text.length) 0)

/-- What is appended is the cell, if the value has one. -/
theorem write_eq (v : Value) (buffer : List UInt8) :
    v.write buffer = match v.encode with
      | .ok cell => (.ok (), buffer ++ cell)
      | .error cause => (.error cause, buffer) := by
  cases v with
  | int n => rfl
  | str s =>
    simp only [write, encode]
    by_cases hlarge : (TextBytes.encode s).length > maxTextBytes
    · rw [if_pos hlarge, if_pos hlarge]
    · rw [if_neg hlarge, if_neg hlarge, List.append_assoc, List.append_assoc, List.append_assoc]

end Value

namespace Tuple

/-- Append the cells in some columns of a row, up to the first that has none. -/
def writeColumns (t : Tuple) : List Nat → List UInt8 → Outcome (List UInt8) Unit
  | [], buffer => (.ok (), buffer)
  | column :: columns, buffer =>
    match t.field column with
    | .error cause => (.error cause, buffer)
    | .ok v => (v.write buffer).andThen id fun _ buffer => t.writeColumns columns buffer

/-- Append the cells of a row to a buffer. -/
def write (t : Tuple) (buffer : List UInt8) : Outcome (List UInt8) Unit :=
  t.writeColumns (List.range t.values.length) buffer

/-- The cells in some columns of a row. -/
def cellsIn (t : Tuple) (columns : List Nat) : Except DbError (List (List UInt8)) :=
  columns.mapM fun column => do
    let v ← t.field column
    v.encode

/-- Columns that have cells are all appended. -/
theorem writeColumns_of_ok {t : Tuple} {columns : List Nat} {cells : List (List UInt8)}
    (h : t.cellsIn columns = .ok cells) (buffer : List UInt8) :
    t.writeColumns columns buffer = (.ok (), buffer ++ cells.flatten) := by
  induction columns generalizing cells buffer with
  | nil =>
    rw [cellsIn, List.mapM_nil] at h
    cases h
    rw [writeColumns, List.flatten_nil, List.append_nil]
  | cons column columns ih =>
    rw [cellsIn, mapM_eq_ok_iff] at h
    rcases h with _ | ⟨hcell, hcells⟩
    rename_i cell cells
    obtain ⟨v, hfield, hencode⟩ := bind_eq_ok_iff.1 hcell
    have hrest : t.cellsIn columns = .ok cells := mapM_eq_ok_iff.2 hcells
    rw [writeColumns, hfield]
    simp only [Value.write_eq, hencode, Outcome.andThen_ok]
    rw [ih hrest, List.flatten_cons, List.append_assoc]

/-- A column without a cell ends the writing, for the reason that it has none. -/
theorem writeColumns_of_error {t : Tuple} {columns : List Nat} {cause : DbError}
    (h : t.cellsIn columns = .error cause) (buffer : List UInt8) :
    ∃ written, t.writeColumns columns buffer = (.error cause, buffer ++ written) := by
  obtain ⟨before, column, after, rfl, hbefore, hcolumn⟩ := mapM_eq_error_iff.1 h
  clear h
  induction before generalizing buffer with
  | nil =>
    refine ⟨[], ?_⟩
    rw [List.nil_append, writeColumns, List.append_nil]
    cases hfield : t.field column with
    | error cause' =>
      rw [hfield] at hcolumn
      cases hcolumn
      rfl
    | ok v =>
      rw [hfield] at hcolumn
      have hencode : v.encode = .error cause := hcolumn
      simp only [Value.write_eq, hencode, Outcome.andThen_error, id]
  | cons first before ih =>
    obtain ⟨cell, hcell⟩ := hbefore first List.mem_cons_self
    obtain ⟨v, hfield, hencode⟩ := bind_eq_ok_iff.1 hcell
    obtain ⟨written, hwritten⟩ :=
      ih (buffer ++ cell) fun other hother => hbefore other (List.mem_cons_of_mem _ hother)
    refine ⟨cell ++ written, ?_⟩
    rw [List.cons_append, writeColumns, hfield]
    simp only [Value.write_eq, hencode, Outcome.andThen_ok]
    rw [hwritten, List.append_assoc]

/-- A row that has a written form is appended whole. -/
theorem write_of_ok {t : Tuple} {image : List UInt8} (h : t.encode = .ok image)
    (buffer : List UInt8) : t.write buffer = (.ok (), buffer ++ image) := by
  obtain ⟨cells, hcells, himage⟩ := bind_eq_ok_iff.1 h
  cases himage
  exact writeColumns_of_ok hcells buffer

/-- A row without one fails to be appended for the same reason. -/
theorem write_of_error {t : Tuple} {cause : DbError} (h : t.encode = .error cause)
    (buffer : List UInt8) : ∃ written, t.write buffer = (.error cause, buffer ++ written) := by
  cases hcells : t.cellsIn (List.range t.values.length) with
  | error cause' =>
    have hcause : t.encode = .error cause' := by
      rw [encode, ← cellsIn, hcells]
      rfl
    rw [hcause] at h
    cases h
    exact writeColumns_of_error hcells buffer
  | ok cells =>
    have himage : t.encode = .ok cells.flatten := by
      rw [encode, ← cellsIn, hcells]
      rfl
    rw [himage] at h
    cases h

end Tuple

/-! ### Reading -/

namespace Value

/-- At the front of the bytes there is no value of a type: there are too few of them, or they begin
a string whose length is too large, or whose text is not UTF-8. -/
def Unreadable (type : ColumnType) (bytes : List UInt8) : Prop :=
  bytes.length < type.width ∨
    type = .str ∧ (LittleEndian.value (bytes.take 4) > maxTextBytes ∨
      ¬ (ByteArray.mk
        ((bytes.drop 4).take (LittleEndian.value (bytes.take 4))).toArray).IsValidUTF8)

instance (type : ColumnType) (bytes : List UInt8) : Decidable (Unreadable type bytes) :=
  inferInstanceAs (Decidable (_ ∨ _))

/-- A whole cell is legible when its length is small enough and its text is UTF-8. -/
theorem legible_take_iff (bytes : List UInt8) :
    Legible (bytes.take ColumnType.str.width) ↔
      LittleEndian.value (bytes.take 4) ≤ maxTextBytes ∧ (ByteArray.mk
        ((bytes.drop 4).take (LittleEndian.value (bytes.take 4))).toArray).IsValidUTF8 := by
  have hhead : (bytes.take ColumnType.str.width).take 4 = bytes.take 4 := by
    rw [List.take_take]
    rfl
  have htail : (bytes.take ColumnType.str.width).drop 4 = (bytes.drop 4).take maxTextBytes :=
    List.drop_take
  rw [Legible, hhead, htail]
  apply and_congr_right
  intro hle
  rw [List.take_take, Nat.min_eq_left hle]

/-- Bytes in which there is a value give it, and leave what comes after its cell. -/
theorem read_of_readable {type : ColumnType} {bytes : List UInt8} (h : ¬ Unreadable type bytes) :
    ∃ v, read type bytes = (some v, bytes.drop type.width) := by
  rw [Unreadable, not_or] at h
  obtain ⟨hroom, htext⟩ := h
  have hlegible : type = .str → Legible (bytes.take type.width) := by
    rintro rfl
    rw [legible_take_iff]
    constructor
    · by_contra hlarge
      exact htext ⟨rfl, .inl (by omega)⟩
    · by_contra hinvalid
      exact htext ⟨rfl, .inr hinvalid⟩
  obtain ⟨v, hv⟩ := Option.isSome_iff_exists.1 (ofCell?_isSome_iff.2 hlegible)
  refine ⟨v, ?_⟩
  rw [read_of_le (by omega), hv]

/-- Bytes in which there is none give none. -/
theorem read_of_unreadable {type : ColumnType} {bytes : List UInt8} (h : Unreadable type bytes) :
    (read type bytes).1 = none := by
  by_cases hroom : bytes.length < type.width
  · rw [read, if_pos (by rw [List.length_take]; omega)]
  · obtain ⟨rfl, htext⟩ := h.resolve_left hroom
    have hcell : ofCell? .str (bytes.take ColumnType.str.width) = none := by
      rw [← Option.not_isSome_iff_eq_none, ofCell?_isSome_iff]
      intro hlegible
      obtain ⟨hle, hvalid⟩ := (legible_take_iff bytes).1 (hlegible rfl)
      rcases htext with hlarge | hinvalid
      · omega
      · exact hinvalid hvalid
    rw [read_of_le (by omega), hcell]
    simp only
    split_ifs <;> rfl

end Value

namespace Tuple

variable {types : List ColumnType} {bytes : List UInt8} {column : Nat}

/-- The bytes from a column on. -/
def fromColumn (types : List ColumnType) (bytes : List UInt8) (column : Nat) : List UInt8 :=
  bytes.drop (ColumnType.totalWidth (types.take column))

/-- In a column there is no value to read. -/
def Malformed (types : List ColumnType) (bytes : List UInt8) (column : Nat) : Prop :=
  ∃ type ∈ types[column]?, Value.Unreadable type (fromColumn types bytes column)

instance (types : List ColumnType) (bytes : List UInt8) (column : Nat) :
    Decidable (Malformed types bytes column) := inferInstanceAs (Decidable (∃ _ ∈ _, _))

/-- A column is the first, in order, in which there is no value to read. -/
def StopsAt (types : List ColumnType) (bytes : List UInt8) (column : Nat) : Prop :=
  Malformed types bytes column ∧ ∀ earlier < column, ¬ Malformed types bytes earlier

instance (types : List ColumnType) (bytes : List UInt8) (column : Nat) :
    Decidable (StopsAt types bytes column) := inferInstanceAs (Decidable (_ ∧ _))

theorem fromColumn_succ (type : ColumnType) (types : List ColumnType) (bytes : List UInt8)
    (column : Nat) :
    fromColumn (type :: types) bytes (column + 1) =
      fromColumn types (bytes.drop type.width) column := by
  rw [fromColumn, fromColumn, List.take_succ_cons, ColumnType.totalWidth_cons, List.drop_drop]

theorem malformed_zero {type : ColumnType} :
    Malformed (type :: types) bytes 0 ↔ Value.Unreadable type bytes := by
  constructor
  · rintro ⟨_, ⟨⟩, h⟩
    exact h
  · intro h
    exact ⟨type, rfl, h⟩

theorem malformed_succ {type : ColumnType} :
    Malformed (type :: types) bytes (column + 1) ↔
      Malformed types (bytes.drop type.width) column := by
  simp only [Malformed, List.getElem?_cons_succ, fromColumn_succ]

/-- The first column is where the reader stops when it is malformed, and else it stops where it
stops in the columns after it. -/
theorem stopsAt_cons_iff {type : ColumnType} :
    StopsAt (type :: types) bytes column ↔
      column = 0 ∧ Value.Unreadable type bytes ∨
        ∃ next, column = next + 1 ∧ ¬ Value.Unreadable type bytes ∧
          StopsAt types (bytes.drop type.width) next := by
  cases column with
  | zero =>
    constructor
    · rintro ⟨hmalformed, -⟩
      exact .inl ⟨rfl, malformed_zero.1 hmalformed⟩
    · rintro (⟨-, hfirst⟩ | ⟨_, ⟨⟩, -⟩)
      refine ⟨malformed_zero.2 hfirst, ?_⟩
      intro earlier hlt
      omega
  | succ next =>
    constructor
    · rintro ⟨hmalformed, hearlier⟩
      refine .inr ⟨next, rfl, ?_, malformed_succ.1 hmalformed, ?_⟩
      · intro hfirst
        exact hearlier 0 (Nat.succ_pos next) (malformed_zero.2 hfirst)
      · intro earlier hlt hearly
        exact hearlier (earlier + 1) (by omega) (malformed_succ.2 hearly)
    · rintro (⟨hzero, -⟩ | ⟨_, ⟨⟩, hfirst, hmalformed, hearlier⟩)
      · omega
      · refine ⟨malformed_succ.2 hmalformed, ?_⟩
        intro earlier hlt hearly
        cases earlier with
        | zero => exact hfirst (malformed_zero.1 hearly)
        | succ earlier => exact hearlier earlier (by omega) (malformed_succ.1 hearly)

/-- At the column where it stops the reader has done what reading that column does. -/
theorem readValues_of_stopsAt (h : StopsAt types bytes column) :
    ∃ type, types[column]? = some type ∧
      readValues types bytes = (none, (Value.read type (fromColumn types bytes column)).2) := by
  induction types generalizing bytes column with
  | nil =>
    obtain ⟨⟨type, hnil, -⟩, -⟩ := h
    cases hnil
  | cons type types ih =>
    rcases stopsAt_cons_iff.1 h with ⟨rfl, hfirst⟩ | ⟨next, rfl, hfirst, hnext⟩
    · refine ⟨type, rfl, ?_⟩
      have hnone := Value.read_of_unreadable hfirst
      rcases hread : Value.read type bytes with ⟨v, rest⟩
      rw [hread] at hnone
      obtain rfl : v = none := hnone
      rw [readValues, hread]
      change _ = (none, (Value.read type bytes).2)
      rw [hread]
    · obtain ⟨v, hv⟩ := Value.read_of_readable hfirst
      obtain ⟨type', htype, hread⟩ := ih hnext
      refine ⟨type', htype, ?_⟩
      rw [readValues, hv, fromColumn_succ]
      simp only [hread]

/-- Where it stops at no column it reads them all. -/
theorem readValues_of_forall_not_stopsAt (h : ∀ column, ¬ StopsAt types bytes column) :
    ∃ vs, readValues types bytes = (some vs, bytes.drop (ColumnType.totalWidth types)) := by
  induction types generalizing bytes with
  | nil => exact ⟨[], rfl⟩
  | cons type types ih =>
    have hfirst : ¬ Value.Unreadable type bytes := fun hfirst =>
      h 0 (stopsAt_cons_iff.2 (.inl ⟨rfl, hfirst⟩))
    obtain ⟨v, hv⟩ := Value.read_of_readable hfirst
    obtain ⟨vs, hvs⟩ := @ih (bytes.drop type.width) fun next hnext =>
      h (next + 1) (stopsAt_cons_iff.2 (.inr ⟨next, rfl, hfirst, hnext⟩))
    refine ⟨v :: vs, ?_⟩
    rw [readValues, hv]
    simp only [hvs]
    rw [List.drop_drop, ColumnType.totalWidth_cons]

/-- No row is read exactly if there is a column at which the reader stops. -/
theorem read_eq_none_iff {schema : Schema} :
    (read schema bytes).1 = none ↔ ∃ column, StopsAt schema.types bytes column := by
  constructor
  · intro hnone
    by_contra hnowhere
    obtain ⟨vs, hvs⟩ := readValues_of_forall_not_stopsAt (not_exists.1 hnowhere)
    rw [read, hvs] at hnone
    cases hnone
  · rintro ⟨column, hstops⟩
    obtain ⟨type, -, hread⟩ := readValues_of_stopsAt hstops
    rw [read, hread]

/-- **Rows go through a stream unchanged**, and what is not a row is told by its first bad
column. -/
theorem codec_on_stream (schema : Schema) :
    (∀ t : Tuple, t.Complete → t.checkStorable schema = .ok () →
      ∃ image : List UInt8, image.length = schema.size ∧
        (∀ buffer, t.write buffer = (.ok (), buffer ++ image)) ∧
        ∀ rest, ∃ u, read schema (image ++ rest) = (some u, rest) ∧
          u.schema = schema ∧ u.values = t.values) ∧
      (∀ t t' : Tuple, t.Complete → t'.Complete → t.checkStorable schema = .ok () →
        t'.checkStorable schema = .ok () → ∀ buffer, t.write buffer = t'.write buffer →
        t.values = t'.values) ∧
      ∀ bytes : List UInt8,
        checkedReadValues schema.types bytes = some (readValues schema.types bytes) ∧
        ((read schema bytes).1 = none ↔ ∃ column, StopsAt schema.types bytes column) ∧
        ∀ column, StopsAt schema.types bytes column → ∃ type,
          schema.types[column]? = some type ∧ read schema bytes =
            (none, (Value.read type (fromColumn schema.types bytes column)).2) := by
  have hwritten : ∀ t : Tuple, t.Complete → t.checkStorable schema = .ok () →
      ∃ image : List UInt8, image.length = schema.size ∧
        (∀ buffer, t.write buffer = (.ok (), buffer ++ image)) ∧
        ∀ rest, ∃ u, read schema (image ++ rest) = (some u, rest) ∧
          u.schema = schema ∧ u.values = t.values := by
    intro t hcomplete hstorable
    obtain ⟨image, hencode, hlen, hread⟩ :=
      exists_image (fits_of_checkStorable hcomplete hstorable)
    exact ⟨image, hlen, write_of_ok hencode, hread⟩
  refine ⟨hwritten, ?_, ?_⟩
  · intro t t' hcomplete hcomplete' hstorable hstorable' buffer hsame
    obtain ⟨image, -, hwrite, hread⟩ := hwritten t hcomplete hstorable
    obtain ⟨image', -, hwrite', hread'⟩ := hwritten t' hcomplete' hstorable'
    rw [hwrite, hwrite'] at hsame
    obtain rfl : image = image' := List.append_cancel_left (congrArg Prod.snd hsame)
    obtain ⟨u, hu, -, hvalues⟩ := hread []
    obtain ⟨u', hu', -, hvalues'⟩ := hread' []
    rw [hu] at hu'
    cases hu'
    exact hvalues.symm.trans hvalues'
  · intro bytes
    refine ⟨checkedReadValues_eq_some _ _, read_eq_none_iff, ?_⟩
    intro column hstops
    obtain ⟨type, htype, hread⟩ := readValues_of_stopsAt hstops
    refine ⟨type, htype, ?_⟩
    rw [read, hread]

/-- A text of two scripts, a negative integer and an empty text, in front of another row. Of 268
zeros one is cut off, a length is made too large, or a text ends within a character. -/
theorem codec_on_stream_of_texts :
    let schema : Schema := ⟨[⟨.str, none⟩, ⟨.int, none⟩, ⟨.str, none⟩], by simp⟩
    let t := ofList schema [.str "né∞", .int (-2), .str ""]
    let zeros : Nat → List UInt8 := fun n => List.replicate n 0
    t.Complete ∧ t.checkStorable schema = .ok () ∧
      (∃ image : List UInt8, image.length = 268 ∧
        (∀ buffer, t.write buffer = (.ok (), buffer ++ image)) ∧
        ∀ rest, ∃ u, read schema (image ++ rest) = (some u, rest) ∧ u.values = t.values) ∧
      (read schema (zeros 268)).1 ≠ none ∧
      StopsAt schema.types (zeros 267) 2 ∧ read schema (zeros 267) = (none, zeros 131) ∧
      StopsAt schema.types ([129, 0, 0, 0] ++ zeros 264) 0 ∧
      read schema ([129, 0, 0, 0] ++ zeros 264) = (none, zeros 264) ∧
      StopsAt schema.types (zeros 136 ++ [1, 0, 0, 0, 0xe2] ++ zeros 127) 2 ∧
      read schema (zeros 136 ++ [1, 0, 0, 0, 0xe2] ++ zeros 127) = (none, []) := by
  intro schema t zeros
  obtain ⟨hstored, -, hread⟩ := codec_on_stream schema
  have hcomplete : t.Complete := rfl
  have hstorable : t.checkStorable schema = .ok () := by decide +kernel
  obtain ⟨image, hlen, hwrite, hback⟩ := hstored t hcomplete hstorable
  have hsound : ∀ column, ¬ StopsAt schema.types (zeros 268) column := by
    intro column
    by_cases hcolumn : column < 3
    · interval_cases column <;> decide +kernel
    · rintro ⟨⟨type, htype, -⟩, -⟩
      have hlt : column < schema.types.length := (List.getElem?_eq_some_iff.1 htype).1
      exact hcolumn hlt
  have hshort : StopsAt schema.types (zeros 267) 2 := by decide +kernel
  have hlarge : StopsAt schema.types ([129, 0, 0, 0] ++ zeros 264) 0 := by decide +kernel
  have hcut : StopsAt schema.types (zeros 136 ++ [1, 0, 0, 0, 0xe2] ++ zeros 127) 2 := by
    decide +kernel
  refine ⟨hcomplete, hstorable, ⟨image, hlen, hwrite, fun rest => ?_⟩, ?_, hshort, ?_, hlarge, ?_,
    hcut, ?_⟩
  · obtain ⟨u, hu, -, hvalues⟩ := hback rest
    exact ⟨u, hu, hvalues⟩
  · intro hnone
    obtain ⟨column, hstops⟩ := (hread _).2.1.1 hnone
    exact hsound column hstops
  · obtain ⟨type, htype, hrest⟩ := (hread _).2.2 2 hshort
    cases htype
    rw [hrest]
    decide +kernel
  · obtain ⟨type, htype, hrest⟩ := (hread _).2.2 0 hlarge
    cases htype
    rw [hrest]
    decide +kernel
  · obtain ⟨type, htype, hrest⟩ := (hread _).2.2 2 hcut
    cases htype
    rw [hrest]
    decide +kernel

end Tuple

end Rowstore
