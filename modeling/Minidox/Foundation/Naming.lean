import Mathlib.Logic.Function.Basic

/-!
# Values that name events

Branches keep a value for some keys, and each value stands for the event that chose
it. The values are faithful when two branches have the same value for a key exactly
when the same event chose it for both. Fresh values keep that, and so do copies.
-/

set_option autoImplicit false

namespace Minidox.Foundation

variable {ι κ α β : Type} [DecidableEq ι]

/-- The value that a branch has for a key says which event chose it. -/
structure Faithful (values : ι → κ → Option α) (events : ι → κ → Option β) : Prop where
  none_iff : ∀ branch key, values branch key = none ↔ events branch key = none
  same_iff : ∀ left right key, values left key = values right key ↔
    events left key = events right key

namespace Faithful

variable {values : ι → κ → Option α} {events : ι → κ → Option β}

/-- One event gives fresh values for the touched keys of one branch. -/
theorem stamp (faithful : Faithful values events) (branch : ι) (touched : κ → Prop)
    {row : κ → Option α} {chosen : κ → Option β}
    (fresh : ∀ key, touched key → ∃ value event, row key = some value ∧ chosen key = some event ∧
      (∀ other, values other key ≠ some value) ∧ ∀ other, events other key ≠ some event)
    (kept : ∀ key, ¬ touched key → row key = values branch key ∧ chosen key = events branch key) :
    Faithful (Function.update values branch row) (Function.update events branch chosen) := by
  -- Against another branch, a touched key differs in both, and any other is as before.
  have against : ∀ other key, (row key = values other key ↔ chosen key = events other key) := by
    intro other key
    by_cases here : touched key
    · obtain ⟨value, event, rowKey, chosenKey, newValue, newEvent⟩ := fresh key here
      rw [rowKey, chosenKey]
      exact iff_of_false (fun same => newValue other same.symm) fun same => newEvent other same.symm
    · rw [(kept key here).1, (kept key here).2]
      exact faithful.same_iff branch other key
  constructor
  · intro other key
    by_cases same : other = branch
    · subst same
      rw [Function.update_self, Function.update_self]
      by_cases here : touched key
      · obtain ⟨value, event, rowKey, chosenKey, -⟩ := fresh key here
        simp [rowKey, chosenKey]
      · rw [(kept key here).1, (kept key here).2]
        exact faithful.none_iff other key
    · rw [Function.update_of_ne same, Function.update_of_ne same]
      exact faithful.none_iff other key
  · intro left right key
    by_cases first : left = branch
    · by_cases second : right = branch
      · rw [first, second]
        exact iff_of_true rfl rfl
      · rw [first, Function.update_self, Function.update_self, Function.update_of_ne second,
          Function.update_of_ne second]
        exact against right key
    · by_cases second : right = branch
      · rw [second, Function.update_self, Function.update_self, Function.update_of_ne first,
          Function.update_of_ne first, eq_comm, against left key, eq_comm]
      · rw [Function.update_of_ne first, Function.update_of_ne first, Function.update_of_ne second,
          Function.update_of_ne second]
        exact faithful.same_iff left right key

theorem copy (faithful : Faithful values events) (source child : ι) :
    Faithful (Function.update values child (values source))
      (Function.update events child (events source)) := by
  have lookup : ∀ branch, ∃ old, Function.update values child (values source) branch = values old ∧
      Function.update events child (events source) branch = events old := by
    intro branch
    by_cases same : branch = child
    · exact ⟨source, by rw [same, Function.update_self], by rw [same, Function.update_self]⟩
    · exact ⟨branch, Function.update_of_ne same _ _, Function.update_of_ne same _ _⟩
  constructor
  · intro branch key
    obtain ⟨old, value, event⟩ := lookup branch
    rw [value, event]
    exact faithful.none_iff old key
  · intro left right key
    obtain ⟨first, value, event⟩ := lookup left
    obtain ⟨second, otherValue, otherEvent⟩ := lookup right
    rw [value, event, otherValue, otherEvent]
    exact faithful.same_iff first second key

theorem clear (faithful : Faithful values events) (branch : ι) :
    Faithful (Function.update values branch fun _ => none)
      (Function.update events branch fun _ => none) := by
  have lookup : ∀ other key, (Function.update values branch (fun _ => none) other key = none ∧
      Function.update events branch (fun _ => none) other key = none) ∨
      (Function.update values branch (fun _ => none) other key = values other key ∧
        Function.update events branch (fun _ => none) other key = events other key) := by
    intro other key
    by_cases same : other = branch
    · exact .inl (by simp [same])
    · exact .inr (by simp [same])
  constructor
  · intro other key
    rcases lookup other key with ⟨value, event⟩ | ⟨value, event⟩
    · simp [value, event]
    · rw [value, event]
      exact faithful.none_iff other key
  · intro left right key
    rcases lookup left key with ⟨value, event⟩ | ⟨value, event⟩
    · rcases lookup right key with ⟨otherValue, otherEvent⟩ | ⟨otherValue, otherEvent⟩
      · simp [value, event, otherValue, otherEvent]
      · rw [value, event, otherValue, otherEvent, eq_comm, faithful.none_iff right key, eq_comm]
    · rcases lookup right key with ⟨otherValue, otherEvent⟩ | ⟨otherValue, otherEvent⟩
      · rw [value, event, otherValue, otherEvent]
        exact faithful.none_iff left key
      · rw [value, event, otherValue, otherEvent]
        exact faithful.same_iff left right key

end Faithful

end Minidox.Foundation
