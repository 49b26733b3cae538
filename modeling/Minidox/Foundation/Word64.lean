import Mathlib.Algebra.Ring.Nat

/-!
# Checked 64-bit arithmetic

Offsets, lengths and counters are natural numbers; the checks that guard them
in a 64-bit word are explicit.
-/

set_option autoImplicit false

namespace Minidox.Foundation.Word64

def bound : Nat := 2 ^ 64

def checkedAdd (left right : Nat) : Option Nat :=
  if left + right < bound then some (left + right) else none

def checkedMul (left right : Nat) : Option Nat :=
  if left * right < bound then some (left * right) else none

def checkedSub (left right : Nat) : Option Nat :=
  if right ≤ left then some (left - right) else none

/-- The least multiple of `unit` that is not below `value`. -/
def nextMultipleOf (value unit : Nat) : Nat := (value + unit - 1) / unit * unit

def checkedNextMultipleOf (value unit : Nat) : Option Nat :=
  if nextMultipleOf value unit < bound then some (nextMultipleOf value unit) else none

def wrappingAdd (left right : Nat) : Nat := (left + right) % bound

def wrappingSub (left right : Nat) : Nat := (left + bound - right) % bound

def saturatingAdd (left right : Nat) : Nat := min (left + right) (bound - 1)

theorem wrappingSub_wrappingAdd {base value start : Nat} (below : start ≤ value)
    (word : value < bound) (fits : base + (value - start) < bound) :
    wrappingSub (wrappingAdd base value) start = base + (value - start) := by
  unfold wrappingSub wrappingAdd
  unfold bound at *
  omega

theorem wrappingAdd_of_lt {left right : Nat} (fits : left + right < bound) :
    wrappingAdd left right = left + right :=
  Nat.mod_eq_of_lt fits

theorem le_wrappingAdd {left right : Nat} (fits : left + right < bound) :
    left ≤ wrappingAdd left right := by
  rw [wrappingAdd_of_lt fits]
  exact Nat.le_add_right _ _

theorem lt_saturatingAdd_one {value largest : Nat} (below : value ≤ largest)
    (word : value + 1 < bound) : value < saturatingAdd largest 1 := by
  unfold saturatingAdd
  omega

theorem checkedAdd_eq_some {left right sum : Nat}
    (accepted : checkedAdd left right = some sum) : sum = left + right := by
  unfold checkedAdd at accepted
  split at accepted
  · exact (Option.some.inj accepted).symm
  · cases accepted

theorem checkedAdd_lt {left right sum : Nat} (accepted : checkedAdd left right = some sum) :
    sum < bound := by
  unfold checkedAdd at accepted
  split at accepted
  next fits => exact Option.some.inj accepted ▸ fits
  next => cases accepted

theorem checkedNextMultipleOf_eq_some {value unit multiple : Nat}
    (accepted : checkedNextMultipleOf value unit = some multiple) :
    multiple = nextMultipleOf value unit ∧ multiple % unit = 0 := by
  unfold checkedNextMultipleOf at accepted
  split at accepted
  · cases accepted
    exact ⟨rfl, Nat.mul_mod_left _ _⟩
  · cases accepted

theorem checkedSub_eq_some {left right difference : Nat}
    (accepted : checkedSub left right = some difference) : left = difference + right := by
  unfold checkedSub at accepted
  split at accepted
  · cases accepted
    omega
  · cases accepted

end Minidox.Foundation.Word64
