import Rowstore.Comparison
import Rowstore.Error
import Rowstore.LittleEndian

/-!
# Values

What one field of a row holds, how two values compare, and the cell a value takes on a page.

* Integers compare as numbers and strings by their code points. Values of different types satisfy
  no comparison, not even `<>`. `LIKE` is equality of integers and containment of strings.
* An integer cell is the value in two's complement. A string cell is the count of its UTF-8 bytes,
  the bytes, and zeros up to the width of the type.
* `Value.encode` writes a cell, and `Value.read` takes one from the front of a list of bytes. What
  `read` leaves unread after a failure depends on what it had to see: nothing is taken when the
  bytes are fewer than the cell, the length alone when it is too large, and the whole cell when the
  text is not UTF-8.
-/

namespace Rowstore

/-- What a field holds. -/
inductive Value
  | int (value : Int32)
  | str (value : String)
deriving DecidableEq

/-- Whether one list of characters occurs in another as a run of neighbours. -/
def occursIn (part : List Char) : List Char → Bool
  | [] => part.isEmpty
  | c :: cs => part.isPrefixOf (c :: cs) || occursIn part cs

theorem occursIn_iff {part cs : List Char} : occursIn part cs = true ↔ part <:+: cs := by
  induction cs with
  | nil => simp [occursIn]
  | cons c cs ih =>
    rw [occursIn, Bool.or_eq_true, List.isPrefixOf_iff_prefix, ih, List.infix_cons_iff]

namespace TextBytes

/-- The UTF-8 bytes of a string. -/
def encode (s : String) : List UInt8 := s.toUTF8.data.toList

/-- The string with the given UTF-8 bytes, if they are valid. -/
def decode? (bytes : List UInt8) : Option String := String.fromUTF8? ⟨bytes.toArray⟩

/-- The bytes of a string read back as that string. -/
theorem decode?_encode (s : String) : decode? (encode s) = some s := by
  have h : (⟨s.toUTF8.data.toList.toArray⟩ : ByteArray) = s.toUTF8 := by simp
  unfold decode? encode
  rw [h, String.fromUTF8?, dif_pos (show s.toUTF8.IsValidUTF8 from s.isValidUTF8)]
  rfl

/-- Bytes that read as a string are the bytes of that string. -/
theorem encode_of_decode? {bytes : List UInt8} {s : String} (h : decode? bytes = some s) :
    encode s = bytes := by
  unfold decode? String.fromUTF8? at h
  split at h
  · cases h
    rfl
  · cases h

end TextBytes

namespace Value

/-- The type of a value. -/
def type : Value → ColumnType
  | int _ => .int
  | str _ => .str

/-- The written form of a value. -/
def text : Value → String
  | int n => toString n.toInt
  | str s => s

/-- The integer a value holds. -/
def asInt? : Value → Option Int32
  | int n => some n
  | str _ => none

/-- The string a value holds. -/
def asStr? : Value → Option String
  | int _ => none
  | str s => some s

/-- Whether `a op b` holds. -/
def satisfies (a : Value) (op : Comparison) (b : Value) : Bool :=
  match a, b with
  | int m, int n => op.accepts (compare m.toInt n.toInt)
  | str s, str t =>
    if op = .like then occursIn t.toList s.toList else op.accepts (compare s t)
  | _, _ => false

/-- Refuse a value that a cell of the given type cannot hold. -/
def checkStorable (v : Value) (expected : ColumnType) : Except DbError Unit :=
  if v.type ≠ expected then .error (.typeMismatch expected v.type)
  else match v with
    | int _ => .ok ()
    | str s =>
      if s.utf8ByteSize > maxTextBytes then .error (.stringTooLong s.utf8ByteSize maxTextBytes)
      else .ok ()

/-! ### Cells -/

/-- The cell of a value. -/
def encode : Value → Except DbError (List UInt8)
  | int n => .ok (LittleEndian.bytes 4 n.toUInt32.toNat)
  | str s =>
    let bytes := TextBytes.encode s
    if bytes.length > maxTextBytes then .error (.stringTooLong bytes.length maxTextBytes)
    else .ok (LittleEndian.bytes 4 bytes.length ++ bytes ++
      List.replicate (maxTextBytes - bytes.length) 0)

/-- The value in a whole cell of a type. -/
def ofCell? (type : ColumnType) (cell : List UInt8) : Option Value :=
  let head := LittleEndian.value (cell.take 4)
  match type with
  | .int => some (int (UInt32.ofNat head).toInt32)
  | .str => if head > maxTextBytes then none
    else (TextBytes.decode? ((cell.drop 4).take head)).map str

/-- Take one value of a type from the front of the bytes, with the bytes left unread. -/
def read (type : ColumnType) (bytes : List UInt8) : Option Value × List UInt8 :=
  let cell := bytes.take type.width
  if cell.length < type.width then (none, bytes)
  else match ofCell? type cell with
    | some v => (some v, bytes.drop type.width)
    | none =>
      if LittleEndian.value (cell.take 4) > maxTextBytes then (none, bytes.drop 4)
      else (none, bytes.drop type.width)

@[simp] theorem satisfies_int_str (n : Int32) (op : Comparison) (s : String) :
    (int n).satisfies op (str s) = false := rfl

@[simp] theorem satisfies_str_int (s : String) (op : Comparison) (n : Int32) :
    (str s).satisfies op (int n) = false := rfl

/-- Among strings, `LIKE` holds when the second occurs in the first. -/
theorem satisfies_like {s t : String} :
    (str s).satisfies .like (str t) = true ↔ t.toList <:+: s.toList := by
  simp [satisfies, occursIn_iff]

/-- Every cell has the width of its type. -/
theorem length_of_encode {v : Value} {cell : List UInt8} (h : v.encode = .ok cell) :
    cell.length = v.type.width := by
  cases v with
  | int n => cases h; simp [type]
  | str s =>
    simp only [encode] at h
    split at h
    · cases h
    · rename_i hlen
      cases h
      simp only [type, ColumnType.width_str, List.length_append, LittleEndian.length_bytes,
        List.length_replicate, maxTextBytes] at hlen ⊢
      omega

end Value

end Rowstore
