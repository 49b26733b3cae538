import Minidox.Foundation.ByteMap
import Minidox.Foundation.Words
import Mathlib.Logic.Function.Basic

/-!
# Paged contents

An address space that is kept as pages of one size. Byte `position` of the space is
byte `position % unit` of page `position / unit`. A range that lies in one page is
read and written in that page; a longer one is cut at the page bounds.
-/

set_option autoImplicit false

namespace Minidox.Foundation.Pages

variable {unit : Nat}

/-- The address space that the pages make up. -/
def joined (unit : Nat) (pages : Nat → ByteMap) : ByteMap :=
  fun position => pages (position / unit) (position % unit)

theorem joined_apply (pages : Nat → ByteMap) {number place : Nat} (inside : place < unit) :
    joined unit pages (number * unit + place) = pages number place := by
  have page : (number * unit + place) / unit = number := by
    rw [Nat.add_comm, Nat.add_mul_div_right _ _ (by omega), Nat.div_eq_of_lt inside, Nat.zero_add]
  have rest : (number * unit + place) % unit = place := by
    rw [Nat.add_comm, Nat.add_mul_mod_self_right, Nat.mod_eq_of_lt inside]
  rw [joined, page, rest]

theorem joined_congr (positive : 0 < unit) {left right : Nat → ByteMap}
    (same : ∀ number place, place < unit → left number place = right number place) :
    joined unit left = joined unit right :=
  funext fun position => same _ _ (Nat.mod_lt position positive)

theorem read_page (pages : Nat → ByteMap) (number : Nat) {place count : Nat}
    (inside : place + count ≤ unit) :
    (pages number).read place count = (joined unit pages).read (number * unit + place) count := by
  simp only [ByteMap.read]
  apply List.map_congr_left
  intro index member
  have below := List.mem_range.mp member
  rw [Nat.add_assoc, joined_apply pages (by omega)]

theorem joined_write (pages : Nat → ByteMap) (number : Nat) {place : Nat} {data : List UInt8}
    (inside : place + data.length ≤ unit) :
    joined unit (Function.update pages number ((pages number).write place data)) =
      (joined unit pages).write (number * unit + place) data := by
  funext position
  cases Nat.eq_zero_or_pos unit with
  | inl zero =>
    have empty : data = [] := List.eq_nil_of_length_eq_zero (by omega)
    simp [empty]
  | inr positive =>
    have split := Nat.div_add_mod' position unit
    have below := Nat.mod_lt position positive
    generalize number' : position / unit = page at *
    generalize place' : position % unit = rest at *
    rw [← split, joined_apply _ below]
    by_cases same : page = number
    · subst same
      rw [Function.update_self]
      by_cases covered : place ≤ rest ∧ rest < place + data.length
      · rw [ByteMap.write_inside covered.1 covered.2, ByteMap.write_inside (by omega) (by omega),
          Nat.add_sub_add_left]
      · rw [ByteMap.write_outside covered, ByteMap.write_outside (by omega), joined_apply _ below]
    · rw [Function.update_of_ne same, ByteMap.write_outside, joined_apply _ below]
      rintro ⟨lower, upper⟩
      -- another page lies wholly before or behind the written one
      rcases Nat.lt_or_gt_of_ne same with before | behind
      · have bound : (page + 1) * unit ≤ number * unit := Nat.mul_le_mul_right unit before
        rw [Nat.add_mul, Nat.one_mul] at bound
        omega
      · have bound : (number + 1) * unit ≤ page * unit := Nat.mul_le_mul_right unit behind
        rw [Nat.add_mul, Nat.one_mul] at bound
        omega

theorem read_pieces (base : ByteMap) (offset unit length count : Nat) :
    ((List.range count).flatMap fun index =>
      base.read (offset + index * unit) (min unit (length - index * unit))) =
      base.read offset (min (count * unit) length) := by
  induction count with
  | zero => simp [ByteMap.read]
  | succ count ih =>
    rw [List.range_succ, List.flatMap_append, ih, List.flatMap_singleton]
    by_cases covered : count * unit ≤ length
    · rw [Nat.min_eq_left covered, ByteMap.read_append]
      congr 1
      rw [Nat.add_mul, Nat.one_mul]
      omega
    · rw [Nat.add_mul, Nat.one_mul, show length - count * unit = 0 by omega, Nat.min_zero,
        show min (count * unit) length = length by omega,
        show min (count * unit + unit) length = length by omega]
      simp [ByteMap.read]

/-- The bytes from `cursor` to the end of the range or of the page. -/
def span (unit cursor stop : Nat) : Nat := min (unit - cursor % unit) (stop - cursor)

theorem span_pos {cursor stop : Nat} (positive : 0 < unit) (more : cursor < stop) :
    0 < span unit cursor stop := by
  have below := Nat.mod_lt cursor positive
  unfold span
  omega

theorem span_le (unit cursor stop : Nat) : span unit cursor stop ≤ stop - cursor :=
  Nat.min_le_right _ _

theorem span_inside (positive : 0 < unit) (cursor stop : Nat) :
    cursor % unit + span unit cursor stop ≤ unit := by
  have below := Nat.mod_lt cursor positive
  unfold span
  omega

end Minidox.Foundation.Pages
