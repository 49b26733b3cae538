import Minidox.Foundation.Words

/-!
# Packed records

Records of unsigned fields of fixed widths, one after the other and least significant byte
first.
-/

set_option autoImplicit false

namespace Minidox.Foundation.Records

/-- The bytes of fields, each given by its width and its value. -/
def encode (fields : List (Nat × Nat)) : List UInt8 :=
  fields.flatMap fun field => Words.toLittleEndian field.1 field.2

/-- The values of fields of these widths. -/
def decode : List Nat → List UInt8 → List Nat
  | [], _ => []
  | width :: rest, bytes =>
    Words.ofLittleEndian (bytes.take width) :: decode rest (bytes.drop width)

@[simp] theorem length_encode (fields : List (Nat × Nat)) :
    (encode fields).length = (fields.map Prod.fst).sum := by
  simp [encode, List.length_flatMap]

theorem decode_encode_append_mod (fields : List (Nat × Nat)) (rest : List UInt8) :
    decode (fields.map Prod.fst) (encode fields ++ rest) =
      fields.map fun field => field.2 % 256 ^ field.1 := by
  induction fields with
  | nil => rfl
  | cons field others ih =>
    have length := Words.length_toLittleEndian field.1 field.2
    have bytes : encode (field :: others) ++ rest =
        Words.toLittleEndian field.1 field.2 ++ (encode others ++ rest) := by
      simp [encode]
    rw [List.map_cons, List.map_cons, bytes, decode, List.take_left' length,
      List.drop_left' length, Words.ofLittleEndian_toLittleEndian_mod, ih]

theorem decode_encode_append {fields : List (Nat × Nat)}
    (fits : ∀ field ∈ fields, field.2 < 256 ^ field.1) (rest : List UInt8) :
    decode (fields.map Prod.fst) (encode fields ++ rest) = fields.map Prod.snd := by
  rw [decode_encode_append_mod]
  exact List.map_congr_left fun field member => Nat.mod_eq_of_lt (fits field member)

theorem decode_take {widths : List Nat} {count : Nat} (enough : widths.sum ≤ count)
    (bytes : List UInt8) : decode widths (bytes.take count) = decode widths bytes := by
  induction widths generalizing count bytes with
  | nil => rfl
  | cons width rest ih =>
    rw [List.sum_cons] at enough
    rw [decode, decode, List.take_take, Nat.min_eq_left (by omega), List.drop_take, ih (by omega)]

end Minidox.Foundation.Records
