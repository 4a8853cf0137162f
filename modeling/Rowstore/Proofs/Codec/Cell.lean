import Mathlib
import Rowstore.LittleEndian.Lemmas
import Rowstore.Value

/-!
# Cells

What a cell holds can be written and read back. `Value.Fits` says that a value may stand in a
column of a type: it has the type, and a string is short enough.

* `Value.exists_cell`: a value that fits has a cell of the width of its type, and reading that cell
  in front of any bytes gives the value and leaves those bytes.
* `Value.fits_of_read`: whatever is read from bytes fits the column.
-/

namespace Rowstore

namespace TextBytes

@[simp] theorem length_encode (s : String) : (encode s).length = s.utf8ByteSize := by
  simp [encode]

end TextBytes

namespace Value

/-- A value may stand in a column of a type. -/
def Fits (v : Value) (type : ColumnType) : Prop := v.checkStorable type = .ok ()

instance (v : Value) (type : ColumnType) : Decidable (v.Fits type) :=
  inferInstanceAs (Decidable (_ = _))

@[simp] theorem fits_int {n : Int32} {type : ColumnType} : (int n).Fits type ↔ type = .int := by
  cases type <;> simp [Fits, checkStorable, Value.type]

@[simp] theorem fits_str {s : String} {type : ColumnType} :
    (str s).Fits type ↔ type = .str ∧ s.utf8ByteSize ≤ maxTextBytes := by
  cases type <;> simp [Fits, checkStorable, Value.type]

/-- Four bytes are enough for the bits of an integer. -/
theorem ofCell?_int (n : Int32) :
    ofCell? .int (LittleEndian.bytes 4 n.toUInt32.toNat) = some (int n) := by
  have htake : (LittleEndian.bytes 4 n.toUInt32.toNat).take 4 =
      LittleEndian.bytes 4 n.toUInt32.toNat := List.take_of_length_le (by simp)
  have hlt : n.toUInt32.toNat < 256 ^ 4 := n.toUInt32.toNat_lt
  simp only [ofCell?, htake, LittleEndian.value_bytes, Nat.mod_eq_of_lt hlt, UInt32.ofNat_toNat]
  rfl

/-- The length, the bytes and the zeros of a short string give it back. -/
theorem ofCell?_str {s : String} (h : s.utf8ByteSize ≤ maxTextBytes) (zeros : List UInt8) :
    ofCell? .str (LittleEndian.bytes 4 s.utf8ByteSize ++ TextBytes.encode s ++ zeros) =
      some (str s) := by
  have hmax : maxTextBytes < 256 ^ 4 := by decide
  have hlt : s.utf8ByteSize < 256 ^ 4 := by omega
  have htake : (LittleEndian.bytes 4 s.utf8ByteSize ++ TextBytes.encode s ++ zeros).take 4 =
      LittleEndian.bytes 4 s.utf8ByteSize := by
    rw [List.append_assoc, List.take_left' (by simp)]
  have hdrop : (LittleEndian.bytes 4 s.utf8ByteSize ++ TextBytes.encode s ++ zeros).drop 4 =
      TextBytes.encode s ++ zeros := by
    rw [List.append_assoc, List.drop_left' (by simp)]
  simp only [ofCell?, htake, hdrop, LittleEndian.value_bytes, Nat.mod_eq_of_lt hlt]
  rw [if_neg (by omega), List.take_left' (by simp), TextBytes.decode?_encode]
  rfl

/-- A whole cell is read from the front of the bytes. -/
theorem read_append {type : ColumnType} {cell : List UInt8} {v : Value}
    (hlen : cell.length = type.width) (hcell : ofCell? type cell = some v) (rest : List UInt8) :
    read type (cell ++ rest) = (some v, rest) := by
  simp only [read, List.take_left' hlen, List.drop_left' hlen, hlen, lt_irrefl, if_false, hcell]

/-- A value that fits has a cell, which reads back as the value. -/
theorem exists_cell {v : Value} {type : ColumnType} (h : v.Fits type) :
    ∃ cell, v.encode = .ok cell ∧ cell.length = type.width ∧
      ∀ rest, read type (cell ++ rest) = (some v, rest) := by
  cases v with
  | int n =>
    obtain rfl := fits_int.1 h
    exact ⟨_, rfl, by simp, read_append (by simp) (ofCell?_int n)⟩
  | str s =>
    obtain ⟨rfl, hlen⟩ := fits_str.1 h
    have hnot : ¬ s.utf8ByteSize > maxTextBytes := by omega
    have hwidth : (LittleEndian.bytes 4 s.utf8ByteSize ++ TextBytes.encode s ++
        List.replicate (maxTextBytes - s.utf8ByteSize) 0).length = ColumnType.str.width := by
      simp only [List.length_append, LittleEndian.length_bytes, TextBytes.length_encode,
        List.length_replicate, ColumnType.width]
      omega
    refine ⟨_, ?_, hwidth, read_append hwidth (ofCell?_str hlen _)⟩
    simp only [encode, TextBytes.length_encode, hnot, if_false]

/-- What a cell of a type holds fits the type. -/
theorem fits_of_ofCell? {type : ColumnType} {cell : List UInt8} {v : Value}
    (h : ofCell? type cell = some v) : v.Fits type := by
  cases type with
  | int =>
    cases h
    simp
  | str =>
    simp only [ofCell?] at h
    split at h
    · cases h
    · rename_i hhead
      obtain ⟨s, hs, rfl⟩ := Option.map_eq_some_iff.1 h
      have hsize : s.utf8ByteSize ≤ LittleEndian.value (cell.take 4) := by
        rw [← TextBytes.length_encode, TextBytes.encode_of_decode? hs]
        exact List.length_take_le _ _
      exact fits_str.2 ⟨rfl, by omega⟩

/-- What is read in a column fits it. -/
theorem fits_of_read {type : ColumnType} {bytes rest : List UInt8} {v : Value}
    (h : read type bytes = (some v, rest)) : v.Fits type := by
  simp only [read] at h
  split at h
  · cases h
  · split at h
    · rename_i hcell
      cases h
      exact fits_of_ofCell? hcell
    · split at h <;> cases h

end Value

end Rowstore
