import Minidox.Foundation.Attempt

/-!
# Operations that check what they are given

An operation decides a condition when it succeeds only if the condition holds, and fails only
if it does not, or with an error that its surroundings are to blame for. Conditions add up
along a sequence of operations.
-/

set_option autoImplicit false

namespace Minidox.Foundation.Attempt

variable {State Error α β : Type} {invariant : State → Prop} {excused : Error → Prop}

/-- The invariant stands for what the operation reads: it holds before and after. -/
def Decides (invariant : State → Prop) (excused : Error → Prop) (condition : Prop)
    (claim : α → Prop) (operation : Attempt State Error α) : Prop :=
  ∀ state, invariant state → Ends operation state fun result after => invariant after ∧
    (∀ value, result = .ok value → condition ∧ claim value) ∧
    ∀ error, result = .error error → ¬ condition ∨ excused error

theorem decides_pure {claim : α → Prop} {value : α} (holds : claim value) :
    Decides invariant excused True claim (pure value) := by
  intro state held
  refine ⟨held, fun _ returned => ?_, not_error⟩
  cases returned
  exact ⟨trivial, holds⟩

theorem decides_require {condition : Prop} [Decidable condition] {error : Error} :
    Decides invariant excused condition (fun _ => True) (require condition error) := by
  intro state held
  rw [ends_require]
  exact ⟨fun holds => ⟨held, fun _ _ => ⟨holds, trivial⟩, not_error⟩,
    fun fails => ⟨held, not_ok, fun _ _ => .inl fails⟩⟩

theorem decides_get :
    Decides invariant excused True invariant (get : Attempt State Error State) := by
  intro state held
  refine ⟨held, fun _ returned => ?_, not_error⟩
  cases returned
  exact ⟨trivial, held⟩

theorem decides_bind {first : Attempt State Error α} {next : α → Attempt State Error β}
    {condition rest : Prop} {known : α → Prop} {claim : β → Prop}
    (head : Decides invariant excused condition known first)
    (tail : ∀ value, condition → known value → Decides invariant excused rest claim (next value)) :
    Decides invariant excused (condition ∧ rest) claim (first >>= next) := by
  intro state held
  rw [ends_bind]
  refine (head state held).mono ?_
  intro result middle ended
  obtain ⟨heldMiddle, returned, failed⟩ := ended
  cases result with
  | error error => exact ⟨heldMiddle, not_ok, fun _ same => by
      cases same
      exact (failed error rfl).imp_left fun fails both => fails both.1⟩
  | ok value =>
    obtain ⟨holds, found⟩ := returned value rfl
    refine (tail value holds found middle heldMiddle).mono ?_
    intro last after ended
    obtain ⟨heldAfter, returned, failed⟩ := ended
    exact ⟨heldAfter, fun value same => ⟨⟨holds, (returned value same).1⟩, (returned value same).2⟩,
      fun error same => (failed error same).imp_left fun fails both => fails both.2⟩

theorem Decides.iff {operation : Attempt State Error α} {condition other : Prop} {claim : α → Prop}
    (decides : Decides invariant excused condition claim operation) (same : condition ↔ other) :
    Decides invariant excused other claim operation :=
  propext same ▸ decides

theorem Decides.mono {operation : Attempt State Error α} {condition : Prop}
    {claim weaker : α → Prop} (decides : Decides invariant excused condition claim operation)
    (weaken : ∀ value, claim value → weaker value) :
    Decides invariant excused condition weaker operation :=
  fun state held => (decides state held).mono fun _ _ ended =>
    ⟨ended.1, fun value returned => (ended.2.1 value returned).imp_right (weaken value), ended.2.2⟩

end Minidox.Foundation.Attempt
