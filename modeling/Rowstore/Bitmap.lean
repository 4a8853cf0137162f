/-!
# Bitmaps

A list of bits packed eight to a byte, the first bit lowest. Packing and unpacking are inverse on
whole bytes: `pack_unpack` and `unpack_pack`.
-/

namespace Rowstore.Bitmap

/-- The bits of a byte, lowest first. -/
def bits (b : UInt8) : List Bool := (List.range 8).map b.toNat.testBit

/-- The byte whose lowest bits are the given ones. -/
def byte (bs : List Bool) : UInt8 := UInt8.ofNat (bs.foldr (fun b n => b.toNat + 2 * n) 0)

/-- The bits of all bytes in order. -/
def unpack (bytes : List UInt8) : List Bool := bytes.flatMap bits

/-- The bytes that hold the bits. Bits that do not fill a byte are dropped. -/
def pack : List Bool → List UInt8
  | b₀ :: b₁ :: b₂ :: b₃ :: b₄ :: b₅ :: b₆ :: b₇ :: rest =>
    byte [b₀, b₁, b₂, b₃, b₄, b₅, b₆, b₇] :: pack rest
  | _ => []

@[simp] theorem unpack_nil : unpack [] = [] := rfl

@[simp] theorem unpack_cons (b : UInt8) (bs : List UInt8) :
    unpack (b :: bs) = bits b ++ unpack bs := rfl

@[simp] theorem length_bits (b : UInt8) : (bits b).length = 8 := by simp [bits]

@[simp] theorem length_unpack (bytes : List UInt8) : (unpack bytes).length = 8 * bytes.length := by
  induction bytes with
  | nil => rfl
  | cons b bytes ih => simp [ih]; omega

theorem byte_bits (b : UInt8) : byte (bits b) = b := by
  have h : ∀ i : Fin 256, byte (bits (UInt8.ofNat i.val)) = UInt8.ofNat i.val := by
    decide +kernel
  simpa using h ⟨b.toNat, b.toNat_lt⟩

theorem bits_byte (b₀ b₁ b₂ b₃ b₄ b₅ b₆ b₇ : Bool) :
    bits (byte [b₀, b₁, b₂, b₃, b₄, b₅, b₆, b₇]) = [b₀, b₁, b₂, b₃, b₄, b₅, b₆, b₇] := by
  revert b₀ b₁ b₂ b₃ b₄ b₅ b₆ b₇
  decide

/-- Packing the bits of a byte in front gives that byte in front. -/
theorem pack_bits_append (b : UInt8) (rest : List Bool) :
    pack (bits b ++ rest) = b :: pack rest := by
  have h : bits b = [b.toNat.testBit 0, b.toNat.testBit 1, b.toNat.testBit 2, b.toNat.testBit 3,
    b.toNat.testBit 4, b.toNat.testBit 5, b.toNat.testBit 6, b.toNat.testBit 7] := rfl
  calc pack (bits b ++ rest) = byte (bits b) :: pack rest := by rw [h]; rfl
    _ = b :: pack rest := by rw [byte_bits]

@[simp] theorem pack_unpack (bytes : List UInt8) : pack (unpack bytes) = bytes := by
  induction bytes with
  | nil => rfl
  | cons b bytes ih => rw [unpack_cons, pack_bits_append, ih]

/-- Bits that fill whole bytes come back. -/
theorem unpack_pack (bs : List Bool) (h : 8 ∣ bs.length) : unpack (pack bs) = bs := by
  fun_induction pack bs with
  | case1 b₀ b₁ b₂ b₃ b₄ b₅ b₆ b₇ rest ih =>
    have hrest : 8 ∣ rest.length := by simp only [List.length_cons] at h; omega
    rw [unpack_cons, bits_byte, ih hrest]
    rfl
  | case2 bs hshort =>
    obtain ⟨k, hk⟩ := h
    match bs, hshort, hk with
    | [], _, _ => rfl
    | [_], _, hk => simp at hk; omega
    | [_, _], _, hk => simp at hk; omega
    | [_, _, _], _, hk => simp at hk; omega
    | [_, _, _, _], _, hk => simp at hk; omega
    | [_, _, _, _, _], _, hk => simp at hk; omega
    | [_, _, _, _, _, _], _, hk => simp at hk; omega
    | [_, _, _, _, _, _, _], _, hk => simp at hk; omega
    | _ :: _ :: _ :: _ :: _ :: _ :: _ :: _ :: _, hshort, _ => exact absurd rfl (hshort _ _ _ _ _ _ _ _ _)

end Rowstore.Bitmap
