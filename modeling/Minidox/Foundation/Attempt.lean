import Mathlib.Order.Defs.Unbundled

/-!
# Stateful attempts

Operations behind a mutable reference that may stop with an error. Changes made
before the error stay in the state. `Ends` is the weakest precondition of an
attempt over both of its exits.
-/

set_option autoImplicit false

namespace Minidox.Foundation

/-- A stateful operation that may stop early with an error. -/
abbrev Attempt (State Error : Type) := ExceptT Error (StateM State)

namespace Attempt

variable {State Inner Error InnerError α β : Type} {state : State}
  {operation first : Attempt State Error α} {next : α → Attempt State Error β}
  {post : Except Error α → State → Prop}

/-- The result and the final state of one attempt. -/
def exec (operation : Attempt State Error α) (state : State) : Except Error α × State :=
  operation.run.run state

/-- The attempt, started in `state`, ends with a result and a state that
satisfy `post`, whether it returned or stopped with an error. -/
def Ends (operation : Attempt State Error α) (state : State)
    (post : Except Error α → State → Prop) : Prop :=
  post (operation.exec state).1 (operation.exec state).2

def error? (operation : Attempt State Error α) (state : State) : Option Error :=
  match (operation.exec state).1 with
  | .ok _ => none
  | .error error => some error

/-- Raise the error of an already computed result. -/
def ofExcept : Except Error α → Attempt State Error α
  | .ok value => pure value
  | .error error => throw error

def orThrow (error : Error) : Option α → Attempt State Error α
  | some value => pure value
  | none => throw error

def require (condition : Prop) [Decidable condition] (error : Error) :
    Attempt State Error Unit :=
  if condition then pure () else throw error

def onlyIf (condition : Prop) [Decidable condition] (operation : Attempt State Error Unit) :
    Attempt State Error Unit :=
  if condition then operation else pure ()

/-- Run an attempt and keep its result as a value, so that later steps run
whether or not it failed. -/
def settle (operation : Attempt State Error α) :
    Attempt State InnerError (Except Error α) :=
  ExceptT.mk fun state => match operation.exec state with
    | (result, after) => (.ok result, after)

/-- Run an attempt on one component of the state. -/
def within (view : State → Inner) (update : Inner → State → State)
    (translate : InnerError → Error) (operation : Attempt Inner InnerError α) :
    Attempt State Error α :=
  ExceptT.mk fun state => match operation.exec (view state) with
    | (.ok value, inner) => (.ok value, update inner state)
    | (.error error, inner) => (.error (translate error), update inner state)

/-- Run an attempt with a component that only it sees. What the component becomes is part
of the result, and is lost when the attempt fails. -/
def withLocal (start : Inner) (operation : Attempt (State × Inner) Error α) :
    Attempt State Error (α × Inner) :=
  ExceptT.mk fun state => match operation.exec (state, start) with
    | (.ok value, state, inner) => (.ok (value, inner), state)
    | (.error error, state, _) => (.error error, state)

theorem not_ok {error : Error} {claim : α → Prop} (value : α)
    (returned : (.error error : Except Error α) = .ok value) : claim value := by
  cases returned

theorem not_error {value : α} {claim : Error → Prop} (error : Error)
    (failed : (.ok value : Except Error α) = .error error) : claim error := by
  cases failed

@[simp] theorem exec_pure (value : α) (state : State) :
    exec (pure value : Attempt State Error α) state = (.ok value, state) := rfl

@[simp] theorem exec_throw (error : Error) (state : State) :
    exec (throw error : Attempt State Error α) state = (.error error, state) := rfl

@[simp] theorem exec_get (state : State) :
    exec (get : Attempt State Error State) state = (.ok state, state) := rfl

@[simp] theorem exec_set (next state : State) :
    exec (set next : Attempt State Error PUnit) state = (.ok ⟨⟩, next) := rfl

@[simp] theorem exec_modify (change : State → State) (state : State) :
    exec (modify change : Attempt State Error PUnit) state = (.ok ⟨⟩, change state) := rfl

theorem exec_bind (first : Attempt State Error α) (next : α → Attempt State Error β)
    (state : State) :
    exec (first >>= next) state = match exec first state with
      | (.ok value, after) => exec (next value) after
      | (.error error, after) => (.error error, after) := by
  change (ExceptT.bind first next).run.run state = _
  simp only [ExceptT.bind, ExceptT.run, ExceptT.mk, StateT.run, bind, StateT.bind, exec]
  cases first state with
  | mk result after =>
    cases result with
    | ok value => rfl
    | error error => rfl

@[simp] theorem exec_ofExcept (result : Except Error α) (state : State) :
    exec (ofExcept result : Attempt State Error α) state = (result, state) := by
  cases result with
  | ok value => rfl
  | error error => rfl

@[simp] theorem exec_settle (operation : Attempt State Error α) (state : State) :
    exec (settle operation : Attempt State InnerError (Except Error α)) state =
      (.ok (operation.exec state).1, (operation.exec state).2) := rfl

@[simp] theorem ends_pure {value : α} :
    Ends (pure value) state post ↔ post (.ok value) state := Iff.rfl

@[simp] theorem ends_throw {error : Error} :
    Ends (throw error) state post ↔ post (.error error) state := Iff.rfl

@[simp] theorem ends_get {post : Except Error State → State → Prop} :
    Ends get state post ↔ post (.ok state) state := Iff.rfl

@[simp] theorem ends_set {next state : State} {post : Except Error PUnit → State → Prop} :
    Ends (set next) state post ↔ post (.ok ⟨⟩) next := Iff.rfl

@[simp] theorem ends_modify {change : State → State} {post : Except Error PUnit → State → Prop} :
    Ends (modify change) state post ↔ post (.ok ⟨⟩) (change state) := Iff.rfl

@[simp] theorem ends_bind {post : Except Error β → State → Prop} :
    Ends (first >>= next) state post ↔ Ends first state fun result after =>
      match result with
      | .ok value => Ends (next value) after post
      | .error error => post (.error error) after := by
  unfold Ends
  rw [exec_bind]
  cases executed : exec first state with
  | mk result after =>
    cases result with
    | ok value => rfl
    | error error => rfl

theorem ends_map {change : α → β} {post : Except Error β → State → Prop} :
    Ends (change <$> operation) state post ↔
      Ends operation state fun result after => post (result.map change) after := by
  rw [map_eq_pure_bind, ends_bind]
  refine iff_of_eq (congrArg (Ends operation state) ?_)
  funext result after
  cases result with
  | ok value => rfl
  | error error => rfl

@[simp] theorem ends_ofExcept {result : Except Error α} :
    Ends (ofExcept result) state post ↔ post result state := by
  simp [Ends]

@[simp] theorem ends_settle {post : Except InnerError (Except Error α) → State → Prop} :
    Ends (settle operation) state post ↔
      Ends operation state fun result after => post (.ok result) after := Iff.rfl

theorem ends_within {view : State → Inner} {update : Inner → State → State}
    {translate : InnerError → Error} {operation : Attempt Inner InnerError α} :
    Ends (within view update translate operation) state post ↔
      Ends operation (view state) fun result inner =>
        post (result.mapError translate) (update inner state) := by
  unfold Ends
  cases executed : exec operation (view state) with
  | mk result inner =>
    have run : exec (within view update translate operation) state =
        (result.mapError translate, update inner state) := by
      simp only [exec, within, ExceptT.run, ExceptT.mk, StateT.run] at executed ⊢
      rw [show operation (view state) = (result, inner) from executed]
      cases result with
      | ok value => rfl
      | error error => rfl
    rw [run]

theorem ends_withLocal {start : Inner} {operation : Attempt (State × Inner) Error α}
    {post : Except Error (α × Inner) → State → Prop} :
    Ends (withLocal start operation) state post ↔
      Ends operation (state, start) fun result after =>
        post (result.map fun value => (value, after.2)) after.1 := by
  unfold Ends
  cases executed : exec operation (state, start) with
  | mk result after =>
    have run : exec (withLocal start operation) state =
        (result.map fun value => (value, after.2), after.1) := by
      simp only [exec, withLocal, ExceptT.run, ExceptT.mk, StateT.run] at executed ⊢
      rw [show operation (state, start) = (result, after) from executed]
      cases result with
      | ok value => rfl
      | error error => rfl
    rw [run]

theorem ends_orThrow {error : Error} {value : Option α}
    (present : ∀ found, value = some found → post (.ok found) state)
    (absent : value = none → post (.error error) state) :
    Ends (orThrow error value) state post := by
  cases value with
  | none => exact absent rfl
  | some found => exact present found rfl

theorem ends_ite {condition : Prop} [Decidable condition] {first second : Attempt State Error α} :
    Ends (if condition then first else second) state post ↔
      (condition → Ends first state post) ∧ (¬ condition → Ends second state post) := by
  by_cases decided : condition <;> simp [decided]

@[simp] theorem ends_require {condition : Prop} [Decidable condition] {error : Error}
    {post : Except Error Unit → State → Prop} :
    Ends (require condition error) state post ↔
      (condition → post (.ok ()) state) ∧ (¬ condition → post (.error error) state) := by
  simp [require, ends_ite]

@[simp] theorem ends_onlyIf {condition : Prop} [Decidable condition]
    {operation : Attempt State Error Unit} {post : Except Error Unit → State → Prop} :
    Ends (onlyIf condition operation) state post ↔
      (condition → Ends operation state post) ∧ (¬ condition → post (.ok ()) state) := by
  simp [onlyIf, ends_ite]

theorem Ends.mono {post weaker : Except Error α → State → Prop} (ends : Ends operation state post)
    (weaken : ∀ result after, post result after → weaker result after) :
    Ends operation state weaker :=
  weaken _ _ ends

theorem ends_exec (operation : Attempt State Error α) (state : State) :
    Ends operation state fun result after =>
      Ends operation state fun same final => result = same ∧ after = final :=
  ⟨rfl, rfl⟩

theorem ends_self (operation : Attempt State Error α) (state : State)
    (post : Except Error α → State → Prop) :
    Ends operation state fun result after => Ends operation state post ↔ post result after :=
  Iff.rfl

theorem ends_of_forall (always : ∀ result after, post result after) :
    Ends operation state post :=
  always _ _

theorem ends_imp {assumption : Prop} :
    Ends operation state (fun result after => assumption → post result after) ↔
      (assumption → Ends operation state post) :=
  Iff.rfl

theorem ends_iff {claim : Prop} :
    Ends operation state (fun result after => post result after ↔ claim) ↔
      (Ends operation state post ↔ claim) :=
  Iff.rfl

theorem Ends.of_exec {state after : State} {result : Except Error α}
    (ends : Ends operation state post) (executed : operation.exec state = (result, after)) :
    post result after := by
  rw [Ends, executed] at ends
  exact ends

theorem Ends.elim {goal : Prop} (ends : Ends operation state fun result after =>
      operation.exec state = (result, after) → goal) : goal :=
  ends rfl

theorem Ends.and {left right : Except Error α → State → Prop} (first : Ends operation state left)
    (second : Ends operation state right) :
    Ends operation state fun result after => left result after ∧ right result after :=
  ⟨first, second⟩

theorem Ends.mp {left : Except Error α → State → Prop}
    (implies : Ends operation state fun result after => left result after → post result after)
    (first : Ends operation state left) : Ends operation state post :=
  implies first

/-- An invariant that every element's step keeps is kept by the whole loop,
also when one of the steps stops the loop with an error. -/
theorem ends_forM {items : List α} {body : α → Attempt State Error PUnit}
    (invariant : State → Prop) (start : invariant state)
    (kept : ∀ item ∈ items, ∀ before, invariant before →
      Ends (body item) before fun _ after => invariant after) :
    Ends (forM items body) state fun _ after => invariant after := by
  induction items generalizing state with
  | nil => exact start
  | cons item rest ih =>
    rw [List.forM_cons, ends_bind]
    refine (kept item List.mem_cons_self state start).mono ?_
    intro result after held
    cases result with
    | error error => exact held
    | ok value =>
      exact ih held fun other member => kept other (List.mem_cons_of_mem _ member)

/-!
## Frame conditions

A frame condition is a preorder on states that every execution respects, on
both exits. It composes along sequencing and loops.
-/

/-- Every execution moves the state along the relation. -/
def Moves (relation : State → State → Prop) (operation : Attempt State Error α) : Prop :=
  ∀ state, Ends operation state fun _ after => relation state after

section Moves

variable {relation : State → State → Prop}

theorem moves_pure [Std.Refl relation] (value : α) :
    Moves relation (pure value : Attempt State Error α) :=
  fun state => Std.Refl.refl state

theorem moves_throw [Std.Refl relation] (error : Error) :
    Moves relation (throw error : Attempt State Error α) :=
  fun state => Std.Refl.refl state

theorem moves_get [Std.Refl relation] :
    Moves relation (get : Attempt State Error State) :=
  fun state => Std.Refl.refl state

theorem moves_modify {change : State → State} (moved : ∀ state, relation state (change state)) :
    Moves relation (modify change : Attempt State Error PUnit) :=
  fun state => moved state

/-- A first part that respects the relation, and makes the second part do so from where it
ends. -/
theorem ends_bind_trans [IsTrans State relation]
    (ends : Ends first state fun result middle => relation state middle ∧
      ∀ value, result = .ok value → Ends (next value) middle fun _ after => relation middle after) :
    Ends (first >>= next) state fun _ after => relation state after := by
  rw [ends_bind]
  refine ends.mono ?_
  intro result middle ends
  cases result with
  | error error => exact ends.1
  | ok value =>
    exact (ends.2 value rfl).mono fun _ _ further => IsTrans.trans _ _ _ ends.1 further

theorem moves_bind [IsTrans State relation]
    (firstMoves : Moves relation first) (nextMoves : ∀ value, Moves relation (next value)) :
    Moves relation (first >>= next) := by
  intro state
  exact ends_bind_trans ((firstMoves state).mono fun _ middle moved =>
    ⟨moved, fun value _ => nextMoves value middle⟩)

theorem moves_ite {condition : Prop} [Decidable condition] {first second : Attempt State Error α}
    (firstMoves : Moves relation first) (secondMoves : Moves relation second) :
    Moves relation (if condition then first else second) := by
  by_cases decided : condition
  · simpa [decided] using firstMoves
  · simpa [decided] using secondMoves

theorem moves_require [Std.Refl relation] {condition : Prop} [Decidable condition] {error : Error} :
    Moves relation (require condition error) :=
  moves_ite (moves_pure ()) (moves_throw error)

theorem moves_onlyIf [Std.Refl relation] {condition : Prop} [Decidable condition]
    {operation : Attempt State Error Unit} (operationMoves : Moves relation operation) :
    Moves relation (onlyIf condition operation) :=
  moves_ite operationMoves (moves_pure ())

theorem moves_settle {operation : Attempt State InnerError α}
    (operationMoves : Moves relation operation) :
    Moves relation (settle operation : Attempt State Error (Except InnerError α)) :=
  operationMoves

theorem moves_ofExcept [Std.Refl relation] (result : Except Error α) :
    Moves relation (ofExcept result : Attempt State Error α) := by
  intro state
  rw [ends_ofExcept]
  exact Std.Refl.refl state

theorem moves_forM [Std.Refl relation] [IsTrans State relation]
    {items : List α} {body : α → Attempt State Error PUnit}
    (bodyMoves : ∀ item ∈ items, Moves relation (body item)) :
    Moves relation (forM items body) := by
  intro state
  refine ends_forM (relation state) (Std.Refl.refl state) ?_
  intro item member before moved
  exact (bodyMoves item member before).mono fun _ _ further => IsTrans.trans _ _ _ moved further

theorem moves_within {view : State → Inner} {update : Inner → State → State}
    {translate : InnerError → Error} {operation : Attempt Inner InnerError α}
    (moved : ∀ state inner, relation state (update inner state)) :
    Moves relation (within view update translate operation) := by
  intro state
  rw [ends_within]
  exact moved state _

end Moves

/-!
## Errors that do not occur, and values that are returned
-/

/-- The attempt never fails with one of these errors. -/
def Avoids (errors : Error → Prop) (operation : Attempt State Error α) : Prop :=
  ∀ state, Ends operation state fun result _ => ∀ error, result = .error error → ¬ errors error

section Avoids

variable {errors : Error → Prop}

theorem avoids_pure (value : α) : Avoids errors (pure value : Attempt State Error α) :=
  fun _ => not_error

theorem avoids_throw {error : Error} (other : ¬ errors error) :
    Avoids errors (throw error : Attempt State Error α) :=
  fun _ _ failed => Except.error.inj failed ▸ other

theorem avoids_get : Avoids errors (get : Attempt State Error State) :=
  fun _ => not_error

theorem avoids_set (next : State) : Avoids errors (set next : Attempt State Error PUnit) :=
  fun _ => not_error

theorem avoids_modify (change : State → State) :
    Avoids errors (modify change : Attempt State Error PUnit) :=
  fun _ => not_error

theorem avoids_bind
    (firstAvoids : Avoids errors first) (nextAvoids : ∀ value, Avoids errors (next value)) :
    Avoids errors (first >>= next) := by
  intro state
  rw [ends_bind]
  refine (firstAvoids state).mono fun result middle avoided => ?_
  cases result with
  | ok value => exact nextAvoids value middle
  | error error => exact fun other failed => Except.error.inj failed ▸ avoided error rfl

theorem avoids_ite {condition : Prop} [Decidable condition] {first second : Attempt State Error α}
    (firstAvoids : Avoids errors first) (secondAvoids : Avoids errors second) :
    Avoids errors (if condition then first else second) := by
  split
  next => exact firstAvoids
  next => exact secondAvoids

theorem avoids_require {condition : Prop} [Decidable condition] {error : Error}
    (other : ¬ errors error) :
    Avoids errors (require condition error : Attempt State Error Unit) :=
  avoids_ite (avoids_pure ()) (avoids_throw other)

theorem avoids_forM {items : List α} {body : α → Attempt State Error PUnit}
    (bodyAvoids : ∀ item ∈ items, Avoids errors (body item)) : Avoids errors (forM items body) := by
  induction items with
  | nil => exact avoids_pure ()
  | cons item rest ih =>
    rw [List.forM_cons]
    exact avoids_bind (bodyAvoids item List.mem_cons_self) fun _ =>
      ih fun other member => bodyAvoids other (List.mem_cons_of_mem item member)

theorem avoids_within {view : State → Inner} {update : Inner → State → State}
    {operation : Attempt Inner Error α} (operationAvoids : Avoids errors operation) :
    Avoids errors (within view update id operation) := by
  intro state
  rw [ends_within]
  refine (operationAvoids (view state)).mono fun result _ avoided => ?_
  cases result with
  | ok value => exact not_error
  | error error => exact avoided

def Returns (claim : α → Prop) (operation : Attempt State Error α) : Prop :=
  ∀ state, Ends operation state fun result _ => ∀ value, result = .ok value → claim value

theorem returns_pure {claim : α → Prop} {value : α} (holds : claim value) :
    Returns claim (pure value : Attempt State Error α) :=
  fun _ _ returned => Except.ok.inj returned ▸ holds

theorem returns_throw {claim : α → Prop} (error : Error) :
    Returns claim (throw error : Attempt State Error α) :=
  fun _ => not_ok

theorem returns_bind {claim : β → Prop} (nextReturns : ∀ value, Returns claim (next value)) :
    Returns claim (first >>= next) := by
  intro state
  rw [ends_bind]
  refine ends_of_forall fun result middle => ?_
  cases result with
  | ok value => exact nextReturns value middle
  | error error => exact not_ok

theorem returns_bind_of {known : α → Prop} {claim : β → Prop} (firstReturns : Returns known first)
    (nextReturns : ∀ value, known value → Returns claim (next value)) :
    Returns claim (first >>= next) := by
  intro state
  rw [ends_bind]
  refine (firstReturns state).mono fun result middle returned => ?_
  cases result with
  | ok value => exact nextReturns value (returned value rfl) middle
  | error error => exact not_ok

theorem returns_require (condition : Prop) [Decidable condition] (error : Error) :
    Returns (fun _ => condition) (require condition error : Attempt State Error Unit) := by
  intro state
  rw [ends_require]
  exact ⟨fun holds _ _ => holds, fun _ => not_ok⟩

theorem bind_congr_of_returns {claim : α → Prop} {next other : α → Attempt State Error β}
    (returns : Returns claim first) (same : ∀ value, claim value → next value = other value) :
    first >>= next = first >>= other := by
  funext state
  change exec (first >>= next) state = exec (first >>= other) state
  have returned := returns state
  rw [Ends] at returned
  rw [exec_bind, exec_bind]
  generalize exec first state = run at returned
  obtain ⟨result, after⟩ := run
  cases result with
  | ok value => exact congrArg (exec · after) (same value (returned value rfl))
  | error error => rfl

end Avoids

/-!
## Two runs side by side
-/

/-- From related states the two attempts give the same result, and end in related states. -/
def Lockstep (relation : State → State → Prop) (left right : Attempt State Error α) : Prop :=
  ∀ first second, relation first second → (left.exec first).1 = (right.exec second).1 ∧
    relation (left.exec first).2 (right.exec second).2

section Lockstep

variable {relation : State → State → Prop}

theorem lockstep_pure (value : α) :
    Lockstep relation (pure value : Attempt State Error α) (pure value) :=
  fun _ _ related => ⟨rfl, related⟩

theorem lockstep_throw (error : Error) :
    Lockstep relation (throw error : Attempt State Error α) (throw error) :=
  fun _ _ related => ⟨rfl, related⟩

theorem lockstep_modify {left right : State → State}
    (kept : ∀ first second, relation first second → relation (left first) (right second)) :
    Lockstep relation (modify left : Attempt State Error PUnit) (modify right) :=
  fun first second related => ⟨rfl, kept first second related⟩

theorem lockstep_bind {left right : Attempt State Error α}
    {leftNext rightNext : α → Attempt State Error β} (starts : Lockstep relation left right)
    (goesOn : ∀ value, Lockstep relation (leftNext value) (rightNext value)) :
    Lockstep relation (left >>= leftNext) (right >>= rightNext) := by
  intro first second related
  obtain ⟨same, kept⟩ := starts first second related
  rw [exec_bind, exec_bind]
  cases leftRun : left.exec first with
  | mk leftResult leftAfter =>
    cases rightRun : right.exec second with
    | mk rightResult rightAfter =>
      rw [leftRun, rightRun] at same kept
      obtain rfl : leftResult = rightResult := same
      cases leftResult with
      | ok value => exact goesOn value leftAfter rightAfter kept
      | error error => exact ⟨rfl, kept⟩

theorem lockstep_get {left right : State → Attempt State Error α}
    (goesOn : ∀ first second, relation first second →
      Lockstep relation (left first) (right second)) :
    Lockstep relation (get >>= left) (get >>= right) :=
  fun first second related => goesOn first second related first second related

theorem lockstep_require {condition : Prop} [Decidable condition] {error : Error} :
    Lockstep relation (require condition error) (require condition error) := by
  unfold require
  split
  next => exact lockstep_pure ()
  next => exact lockstep_throw error

theorem lockstep_onlyIf {condition : Prop} [Decidable condition]
    {left right : Attempt State Error Unit} (both : Lockstep relation left right) :
    Lockstep relation (onlyIf condition left) (onlyIf condition right) := by
  unfold onlyIf
  split
  next => exact both
  next => exact lockstep_pure ()

theorem lockstep_within {view : State → Inner} {update : Inner → State → State}
    {translate : InnerError → Error} {operation : Attempt Inner InnerError α}
    (same : ∀ first second, relation first second → view first = view second)
    (kept : ∀ first second inner, relation first second →
      relation (update inner first) (update inner second)) :
    Lockstep relation (within view update translate operation)
      (within view update translate operation) := by
  intro first second related
  have left : Ends (within view update translate operation) first fun result after =>
      result = (operation.exec (view first)).1.mapError translate ∧
        after = update (operation.exec (view first)).2 first := ends_within.mpr ⟨rfl, rfl⟩
  have right : Ends (within view update translate operation) second fun result after =>
      result = (operation.exec (view second)).1.mapError translate ∧
        after = update (operation.exec (view second)).2 second := ends_within.mpr ⟨rfl, rfl⟩
  unfold Ends at left right
  rw [left.1, left.2, right.1, right.2, same first second related]
  exact ⟨rfl, kept first second _ related⟩

end Lockstep

end Attempt

end Minidox.Foundation
