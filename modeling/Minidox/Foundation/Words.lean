import Mathlib.Algebra.Ring.Nat
import Mathlib.Data.List.Basic

/-!
# Little-endian words and fixed-size records

Numbers as byte strings of a fixed length, and byte strings cut into records of one
size.
-/

set_option autoImplicit false

namespace Minidox.Foundation.Words

/-- The `width` low bytes of a number, least significant first. -/
def toLittleEndian : (width : Nat) → Nat → List UInt8
  | 0, _ => []
  | width + 1, value => UInt8.ofNat value :: toLittleEndian width (value / 256)

def ofLittleEndian : List UInt8 → Nat
  | [] => 0
  | byte :: rest => byte.toNat + 256 * ofLittleEndian rest

@[simp] theorem length_toLittleEndian (width value : Nat) :
    (toLittleEndian width value).length = width := by
  induction width generalizing value with
  | zero => rfl
  | succ width ih => simp [toLittleEndian, ih]

theorem ofLittleEndian_toLittleEndian_mod (width value : Nat) :
    ofLittleEndian (toLittleEndian width value) = value % 256 ^ width := by
  induction width generalizing value with
  | zero => rw [Nat.pow_zero, Nat.mod_one]; rfl
  | succ width ih =>
    have low : (UInt8.ofNat value).toNat = value % 256 := UInt8.toNat_ofNat'
    rw [toLittleEndian, ofLittleEndian, ih, low, Nat.pow_succ', Nat.mod_mul]

theorem ofLittleEndian_toLittleEndian {width value : Nat} (fits : value < 256 ^ width) :
    ofLittleEndian (toLittleEndian width value) = value := by
  rw [ofLittleEndian_toLittleEndian_mod, Nat.mod_eq_of_lt fits]

theorem ofLittleEndian_lt (bytes : List UInt8) : ofLittleEndian bytes < 256 ^ bytes.length := by
  induction bytes with
  | nil => exact Nat.one_pos
  | cons byte rest ih =>
    have low := byte.toNat_lt
    rw [ofLittleEndian, List.length_cons, Nat.pow_succ']
    omega

/-- The pieces of `chunks_exact`: those that are whole. -/
def chunksExact (size : Nat) (data : List UInt8) : List (List UInt8) :=
  (List.range (data.length / size)).map fun index => (data.drop (index * size)).take size

/-- The pieces of `chunks`: the last one may be shorter. -/
def chunks (size : Nat) (data : List UInt8) : List (List UInt8) :=
  (List.range ((data.length + size - 1) / size)).map fun index =>
    (data.drop (index * size)).take size

theorem chunksExact_nil (size : Nat) : chunksExact size [] = [] := by
  simp [chunksExact]

theorem chunksExact_append {size : Nat} (positive : 0 < size) {first : List UInt8}
    (whole : first.length = size) (rest : List UInt8) :
    chunksExact size (first ++ rest) = first :: chunksExact size rest := by
  have count : (first ++ rest).length / size = rest.length / size + 1 := by
    rw [List.length_append, whole, Nat.add_comm, Nat.add_div_right _ positive]
  unfold chunksExact
  rw [count, List.range_succ_eq_map, List.map_cons, List.map_map]
  congr 1
  · rw [Nat.zero_mul, List.drop_zero, ← whole, List.take_left]
  · apply List.map_congr_left
    intro index _
    have skip : (index + 1) * size = first.length + index * size := by
      rw [whole, Nat.add_mul, Nat.one_mul, Nat.add_comm]
    simp only [Function.comp_apply, Nat.succ_eq_add_one, skip, List.drop_append]
    rw [List.drop_eq_nil_of_le (Nat.le_add_right _ _), List.nil_append, Nat.add_sub_cancel_left]

theorem chunksExact_flatten {size : Nat} (positive : 0 < size) {pieces : List (List UInt8)}
    (whole : ∀ piece ∈ pieces, piece.length = size) :
    chunksExact size pieces.flatten = pieces := by
  induction pieces with
  | nil => exact chunksExact_nil size
  | cons piece rest ih =>
    rw [List.flatten_cons, chunksExact_append positive (whole piece List.mem_cons_self),
      ih fun other member => whole other (List.mem_cons_of_mem _ member)]

theorem chunks_nil {size : Nat} (positive : 0 < size) : chunks size [] = [] := by
  have none : (0 + size - 1) / size = 0 := Nat.div_eq_of_lt (by omega)
  rw [chunks, List.length_nil, none]
  rfl

theorem chunks_cons {size : Nat} (positive : 0 < size) {data : List UInt8} (more : data ≠ []) :
    chunks size data = data.take size :: chunks size (data.drop size) := by
  have nonempty : 0 < data.length := List.length_pos_of_ne_nil more
  have count : (data.length + size - 1) / size =
      ((data.drop size).length + size - 1) / size + 1 := by
    rw [List.length_drop]
    by_cases long : size ≤ data.length
    · rw [show data.length + size - 1 = (data.length - size + size - 1) + size by omega,
        Nat.add_div_right _ positive]
    · rw [show data.length - size = 0 by omega, Nat.div_eq_of_lt (a := 0 + size - 1) (by omega),
        show data.length + size - 1 = (data.length - 1) + size by omega,
        Nat.add_div_right _ positive, Nat.div_eq_of_lt (by omega)]
  unfold chunks
  rw [count, List.range_succ_eq_map, List.map_cons, List.map_map]
  congr 1
  · rw [Nat.zero_mul, List.drop_zero]
  · apply List.map_congr_left
    intro index _
    simp only [Function.comp_apply, Nat.succ_eq_add_one, List.drop_drop, Nat.add_mul, Nat.one_mul,
      Nat.add_comm]

end Minidox.Foundation.Words
