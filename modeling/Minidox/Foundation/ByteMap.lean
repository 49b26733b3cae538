import Mathlib.Data.List.Basic
import Mathlib.Data.List.GetD

/-!
# Byte maps

File and page contents as total maps from offsets to bytes. The length of the
object decides which offsets mean anything, and is kept by whoever owns it.
-/

set_option autoImplicit false

namespace Minidox.Foundation

/-- Contents of a file or a page by offset. -/
abbrev ByteMap := Nat → UInt8

namespace ByteMap

def zero : ByteMap := fun _ => 0

/-- Copy `count` bytes of `source` over the bytes from `offset` on. -/
def blit (base : ByteMap) (offset count : Nat) (source : ByteMap) : ByteMap :=
  fun position =>
    if offset ≤ position ∧ position < offset + count then source (position - offset)
    else base position

/-- The contents of a byte string, zero past its end. -/
def ofList (data : List UInt8) : ByteMap := fun position => data.getD position 0

def write (base : ByteMap) (offset : Nat) (data : List UInt8) : ByteMap :=
  base.blit offset data.length (ofList data)

def read (base : ByteMap) (offset count : Nat) : List UInt8 :=
  (List.range count).map fun index => base (offset + index)

theorem blit_inside {base source : ByteMap} {offset count position : Nat}
    (lower : offset ≤ position) (upper : position < offset + count) :
    base.blit offset count source position = source (position - offset) :=
  if_pos ⟨lower, upper⟩

theorem blit_outside {base source : ByteMap} {offset count position : Nat}
    (outside : ¬ (offset ≤ position ∧ position < offset + count)) :
    base.blit offset count source position = base position :=
  if_neg outside

theorem write_inside {base : ByteMap} {data : List UInt8} {offset position : Nat}
    (lower : offset ≤ position) (upper : position < offset + data.length) :
    base.write offset data position = data.getD (position - offset) 0 :=
  blit_inside lower upper

theorem write_outside {base : ByteMap} {data : List UInt8} {offset position : Nat}
    (outside : ¬ (offset ≤ position ∧ position < offset + data.length)) :
    base.write offset data position = base position :=
  blit_outside outside

@[simp] theorem length_read (base : ByteMap) (offset count : Nat) :
    (base.read offset count).length = count := by
  simp [read]

theorem getD_read (base : ByteMap) {offset count index : Nat} (inside : index < count) :
    (base.read offset count).getD index 0 = base (offset + index) := by
  simp [read, List.getD, inside]

theorem read_congr {left right : ByteMap} {offset count : Nat}
    (same : ∀ index < count, left (offset + index) = right (offset + index)) :
    left.read offset count = right.read offset count := by
  apply List.map_congr_left
  intro index member
  exact same index (List.mem_range.mp member)

theorem read_append (base : ByteMap) (offset first second : Nat) :
    base.read offset first ++ base.read (offset + first) second =
      base.read offset (first + second) := by
  simp only [read, List.range_add, List.map_append, List.map_map]
  congr 1
  apply List.map_congr_left
  intro index _
  simp only [Function.comp_apply, Nat.add_assoc]

theorem write_append (base : ByteMap) (offset : Nat) (first second : List UInt8) :
    (base.write offset first).write (offset + first.length) second =
      base.write offset (first ++ second) := by
  funext position
  by_cases later : offset + first.length ≤ position ∧
      position < offset + first.length + second.length
  · rw [write_inside later.1 later.2, write_inside (by omega) (by rw [List.length_append]; omega),
      List.getD_append_right _ _ _ _ (by omega), Nat.sub_add_eq]
  · rw [write_outside later]
    by_cases earlier : offset ≤ position ∧ position < offset + first.length
    · rw [write_inside earlier.1 earlier.2,
        write_inside earlier.1 (by rw [List.length_append]; omega),
        List.getD_append _ _ _ _ (by omega)]
    · rw [write_outside earlier, write_outside (by rw [List.length_append]; omega)]

@[simp] theorem write_nil (base : ByteMap) (offset : Nat) : base.write offset [] = base := by
  funext position
  exact write_outside (by simp)

theorem write_read (base : ByteMap) (offset count : Nat) :
    base.write offset (base.read offset count) = base := by
  funext position
  by_cases inside : offset ≤ position ∧ position < offset + count
  · rw [write_inside inside.1 (by rw [length_read]; exact inside.2),
      getD_read _ (by omega), Nat.add_sub_cancel' inside.1]
  · rw [write_outside (by rw [length_read]; exact inside)]

theorem write_take_drop (base : ByteMap) (offset count : Nat) (data : List UInt8) :
    (base.write offset (data.take count)).write (offset + count) (data.drop count) =
      base.write offset data := by
  by_cases long : count ≤ data.length
  · have joins := write_append base offset (data.take count) (data.drop count)
    rwa [List.length_take_of_le long, List.take_append_drop] at joins
  · rw [List.take_of_length_le (by omega), List.drop_eq_nil_of_le (by omega), write_nil]

theorem read_write (base : ByteMap) (offset : Nat) (data : List UInt8) :
    (base.write offset data).read offset data.length = data := by
  refine List.ext_getElem (length_read ..) fun index _ inside => ?_
  simp only [read, List.getElem_map, List.getElem_range]
  rw [write_inside (Nat.le_add_right ..) (by omega), Nat.add_sub_cancel_left,
    List.getD_eq_getElem _ _ inside]

theorem read_ofList (data : List UInt8) : (ofList data).read 0 data.length = data := by
  refine List.ext_getElem (length_read ..) fun index _ inside => ?_
  simp [read, ofList, inside]

theorem take_drop_read (base : ByteMap) {length start count : Nat}
    (inside : start + count ≤ length) :
    ((base.read 0 length).drop start).take count = base.read start count := by
  refine List.ext_getElem (by simp; omega) ?_
  intro index left right
  simp [read]

end ByteMap

end Minidox.Foundation
