import Mathlib.Init

/-!
What the model needs of the language: calls that return or raise, and the
mutable array. A call keeps the effects it had before it raised. A nil array
is `none`; a message to it does nothing and raises nothing.
-/

namespace CollectionViewWorkshop.ObjectiveC

universe u
variable {State : Type u} {Object : Type u}

inductive NSException where
  | invalidArgument (reason : String)
  deriving DecidableEq

inductive Completion (State : Type u) where
  | returned (state : State)
  | raised (exception : NSException) (state : State)

def Completion.state : Completion State → State
  | .returned state => state
  | .raised _ state => state

def Completion.andThen : Completion State → (State → Completion State) → Completion State
  | .returned state, next => next state
  | .raised exception state, _ => .raised exception state

@[simp] theorem returned_andThen (state : State) (next : State → Completion State) :
    (Completion.returned state).andThen next = next state := rfl

@[simp] theorem raised_andThen (exception : NSException) (state : State)
    (next : State → Completion State) :
    (Completion.raised exception state).andThen next = .raised exception state := rfl

/-- `[array addObject:object]`. -/
def addObject : Option (List Object) → Option Object → Except NSException (Option (List Object))
  | none, _ => .ok none
  | some _, none => .error (.invalidArgument "object cannot be nil")
  | some objects, some object => .ok (some (objects ++ [object]))

end CollectionViewWorkshop.ObjectiveC
