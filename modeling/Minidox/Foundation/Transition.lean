import Mathlib.Logic.Relation

/-!
# Runs of a transition function

A deterministic machine takes one action at a time. The scheduler, the guests
and the host faults are in the choice of the actions.
-/

set_option autoImplicit false

namespace Minidox.Foundation

variable {State Action : Type}

/-- The state after a list of actions. -/
def run (step : State → Action → State) (state : State) (actions : List Action) : State :=
  actions.foldl step state

@[simp] theorem run_nil (step : State → Action → State) (state : State) :
    run step state [] = state := rfl

@[simp] theorem run_cons (step : State → Action → State) (state : State) (action : Action)
    (rest : List Action) :
    run step state (action :: rest) = run step (step state action) rest := rfl

theorem run_append (step : State → Action → State) (state : State) (first second : List Action) :
    run step state (first ++ second) = run step (run step state first) second :=
  List.foldl_append

/-- Every action of the run is admitted in the state in which it is taken. -/
def Admitted (step : State → Action → State) (admits : State → Action → Prop) :
    State → List Action → Prop
  | _, [] => True
  | state, action :: rest => admits state action ∧ Admitted step admits (step state action) rest

instance instDecidableAdmitted (step : State → Action → State) (admits : State → Action → Prop)
    [∀ state action, Decidable (admits state action)] :
    (state : State) → (actions : List Action) → Decidable (Admitted step admits state actions)
  | _, [] => inferInstanceAs (Decidable True)
  | state, action :: rest =>
    have := instDecidableAdmitted step admits (step state action) rest
    inferInstanceAs
      (Decidable (admits state action ∧ Admitted step admits (step state action) rest))

theorem admitted_append {step : State → Action → State} {admits : State → Action → Prop}
    {state : State} {first second : List Action} :
    Admitted step admits state (first ++ second) ↔
      Admitted step admits state first ∧ Admitted step admits (run step state first) second := by
  induction first generalizing state with
  | nil => simp [Admitted]
  | cons action rest ih => simp only [List.cons_append, Admitted, run_cons, ih, and_assoc]

theorem run_invariant {step : State → Action → State} {admits : State → Action → Prop}
    (invariant : State → Prop)
    (kept : ∀ state action, invariant state → admits state action →
      invariant (step state action))
    {state : State} {actions : List Action} (start : invariant state)
    (admitted : Admitted step admits state actions) :
    invariant (run step state actions) := by
  induction actions generalizing state with
  | nil => exact start
  | cons action rest ih => exact ih (kept state action start admitted.1) admitted.2

theorem run_invariant_all {step : State → Action → State} (invariant : State → Prop)
    (kept : ∀ state action, invariant state → invariant (step state action))
    {state : State} (start : invariant state) (actions : List Action) :
    invariant (run step state actions) := by
  induction actions generalizing state with
  | nil => exact start
  | cons action rest ih => exact ih (kept state action start)

/-!
## Machines that reply

A step also gives a reply. A specification is a relation on its own states, and
explains a run when every action with its reply is one of its steps.
-/

variable {Reply Spec : Type}

/-- The actions of a run with the replies that they got. -/
def replies (step : State → Action → State × Reply) : State → List Action → List (Action × Reply)
  | _, [] => []
  | state, action :: rest =>
    (action, (step state action).2) :: replies step (step state action).1 rest

theorem mem_replies {step : State → Action → State × Reply} (invariant : State → Prop)
    (kept : ∀ state action, invariant state → invariant (step state action).1) {state : State}
    (start : invariant state) {actions : List Action} {action : Action} {reply : Reply}
    (member : (action, reply) ∈ replies step state actions) :
    ∃ before, invariant before ∧ reply = (step before action).2 := by
  induction actions generalizing state with
  | nil => cases member
  | cons first rest ih =>
    rw [replies, List.mem_cons] at member
    cases member with
    | inl here =>
      cases here
      exact ⟨state, start, rfl⟩
    | inr later => exact ih (kept state first start) later

/-- Two machines reply alike when, along every admitted run of the first, its state
seen through an abstraction function takes the steps of the second. -/
theorem replies_eq {Second : Type} {step : State → Action → State × Reply}
    {second : Second → Action → Second × Reply} {admits : State → Action → Prop}
    (abstraction : State → Second)
    (simulated : ∀ state action, admits state action →
      second (abstraction state) action =
        (abstraction (step state action).1, (step state action).2))
    {state : State} {actions : List Action}
    (admitted : Admitted (fun state action => (step state action).1) admits state actions) :
    replies step state actions = replies second (abstraction state) actions := by
  induction actions generalizing state with
  | nil => rfl
  | cons action rest ih =>
    rw [replies, replies, simulated state action admitted.1, ih admitted.2]

inductive Explains (relation : Spec → Action → Reply → Spec → Prop) :
    Spec → List (Action × Reply) → Spec → Prop
  | nil (state : Spec) : Explains relation state [] state
  | cons {first second third : Spec} {action : Action} {reply : Reply}
      {rest : List (Action × Reply)} (head : relation first action reply second)
      (tail : Explains relation second rest third) :
      Explains relation first ((action, reply) :: rest) third

/-- Where an action and its reply decide the next state, an explained run goes on
from any state that its first step can lead to. -/
theorem Explains.rest {relation : Spec → Action → Reply → Spec → Prop}
    {first second third : Spec} {action : Action} {reply : Reply} {rest : List (Action × Reply)}
    (explained : Explains relation first ((action, reply) :: rest) third)
    (deterministic : ∀ {state left right action reply}, relation state action reply left →
      relation state action reply right → left = right)
    (step : relation first action reply second) : Explains relation second rest third := by
  cases explained with
  | cons head tail =>
    cases deterministic head step
    exact tail

/-- A machine whose every step is one of the specification, seen through an
abstraction function, has only runs that the specification explains. -/
theorem explains_replies {step : State → Action → State × Reply}
    {relation : Spec → Action → Reply → Spec → Prop} (invariant : State → Prop)
    (abstraction : State → Spec)
    (kept : ∀ state action, invariant state → invariant (step state action).1)
    (simulated : ∀ state action, invariant state → relation (abstraction state) action
      (step state action).2 (abstraction (step state action).1))
    {state : State} (start : invariant state) (actions : List Action) :
    Explains relation (abstraction state) (replies step state actions)
      (abstraction (run (fun state action => (step state action).1) state actions)) := by
  induction actions generalizing state with
  | nil => exact .nil _
  | cons action rest ih =>
    exact .cons (simulated state action start) (ih (kept state action start))

end Minidox.Foundation
