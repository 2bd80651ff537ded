import CollectionViewWorkshop.Rounding
import Mathlib.Data.Rat.Floor
import Mathlib.Logic.Function.Iterate

/-!
How a command gets its result: what `PFURLSessionJSONDataTaskDelegate` makes of
a reply, and the attempts of `PFURLSessionCommandRunner`. The block of a command
is any function of the state it is run in. Saves and queries are run without a
cancellation token; the delays are exact rationals, and `undefined` is what a
cast to an int makes of a value no int holds, which C leaves open.
-/

namespace CollectionViewWorkshop.CommandRunner

open Rounding

inductive TransportError where
  | cancelled
  | failed
  deriving DecidableEq

/-- What there was to read: JSON, with or without an entry `error`, or no JSON. -/
inductive Body where
  | missing
  | malformed
  | json (hasError : Bool)
  deriving DecidableEq

/-- The status is 0 when no response came. -/
structure Reply where
  error : Option TransportError
  statusCode : ℕ
  body : Body
  deriving DecidableEq

/-- The task of one attempt; `temporary` is in the user info of an error. -/
inductive Finished where
  | result
  | error (temporary : Bool)
  | cancelled
  deriving DecidableEq

def temporaryStatus (statusCode : ℕ) : Bool :=
  decide (500 ≤ statusCode ∨ statusCode < 400)

def taskDidFinish (failed : Bool) (statusCode : ℕ) (body : Body) : Finished :=
  if body = .malformed ∧ failed = false then .error false
  else if failed then .error (temporaryStatus statusCode)
  else if 200 ≤ statusCode ∧ statusCode < 400 then .result
  else if 200 ≤ statusCode ∧ body = .json true then .error (temporaryStatus statusCode)
  else .error false

def didComplete (reply : Reply) : Finished :=
  match reply.error with
  | some .cancelled => .cancelled
  | some .failed => taskDidFinish true reply.statusCode reply.body
  | none => taskDidFinish false reply.statusCode reply.body

variable {State : Type}

def Finished.retried (task : Finished) (attempts : ℕ) : Bool :=
  decide (task = .error true) && decide (1 < attempts)

/-- `delays` are the milliseconds slept between the attempts. -/
structure Performed (State : Type) where
  task : Finished
  state : State
  delays : List ℤ

def toInt (undefined : ℚ → ℤ) (value : ℚ) : ℤ :=
  if -2 ^ 31 ≤ truncate value ∧ truncate value < 2 ^ 31 then truncate value
  else undefined value

variable (undefined : ℚ → ℤ) (block : State → Finished × State)

def performCommandRunningBlock (delay : ℚ) : ℕ → State → Performed State
  | 0, state => ⟨(block state).1, (block state).2, []⟩
  | attempts + 1, state =>
      let (task, after) := block state
      if task.retried (attempts + 1) then
        let rest := performCommandRunningBlock (delay * 2) attempts after
        { rest with delays := toInt undefined (delay * 1000) :: rest.delays }
      else ⟨task, after, []⟩

/-- The delay before a second attempt; `random` is what `arc4random` gives. -/
def initialDelay (initialRetryDelay : ℚ) (random : UInt32) : ℚ :=
  initialRetryDelay + initialRetryDelay * ((random &&& 0xFFFF).toNat / 0xFFFF)

/-- `PFCommandRunningOptionRetryIfFailed`, with the attempts of the configuration. -/
def runCommand (retryAttempts : ℕ) (random : UInt32) (state : State) : Performed State :=
  performCommandRunningBlock undefined block (initialDelay 1 random) retryAttempts state

def stateBefore (state : State) (attempt : ℕ) : State :=
  (fun state => (block state).2)^[attempt] state

def answer (state : State) (attempt : ℕ) : Finished :=
  (block (stateBefore block state attempt)).1

/-- The last attempt made is the first that is not retried, and its result is that of the
command. The delays double. -/
theorem attempts_made (delay : ℚ) (attempts : ℕ) (state : State) :
    ∃ last < max 1 attempts,
      (∀ attempt < last, answer block state attempt = .error true) ∧
      (answer block state last ≠ .error true ∨ last + 1 = max 1 attempts) ∧
      performCommandRunningBlock undefined block delay attempts state =
        ⟨answer block state last, stateBefore block state (last + 1),
          (List.range last).map fun attempt =>
            toInt undefined (delay * 2 ^ attempt * 1000)⟩ := by
  induction attempts generalizing delay state with
  | zero => exact ⟨0, by simp, by simp, Or.inr rfl, rfl⟩
  | succ attempts ih =>
      by_cases again : (block state).1.retried (attempts + 1) = true
      · have more : (block state).1 = .error true ∧ 1 < attempts + 1 := by
          simpa [Finished.retried] using again
        obtain ⟨last, inside, earlier, stopped, same⟩ := ih (delay * 2) (block state).2
        refine ⟨last + 1, by omega, ?_, ?_, ?_⟩
        · intro attempt before
          cases attempt with
          | zero => exact more.1
          | succ attempt => exact earlier attempt (by omega)
        · rcases stopped with other | full
          · exact Or.inl other
          · exact Or.inr (by omega)
        · have delays : ∀ attempt : ℕ, delay * 2 * 2 ^ attempt = delay * 2 ^ (attempt + 1) := by
            intro attempt
            rw [pow_succ']
            exact mul_assoc _ _ _
          rw [performCommandRunningBlock]
          simp only [again, if_true, same, delays, List.range_succ_eq_map, List.map_cons,
            List.map_map, pow_zero, mul_one]
          rfl
      · refine ⟨0, by omega, by simp, ?_, ?_⟩
        · by_cases other : (block state).1 = .error true
          · have alone : attempts = 0 := by simpa [Finished.retried, other] using again
            exact Or.inr (by omega)
          · exact Or.inl other
        · rw [performCommandRunningBlock]
          simp only [again, Bool.false_eq_true, if_false]
          rfl

theorem initialDelay_bounds (random : UInt32) :
    1 ≤ initialDelay 1 random ∧ initialDelay 1 random ≤ 2 := by
  have small : (random &&& 0xFFFF).toNat ≤ 0xFFFF := by
    rw [UInt32.toNat_and]
    exact Nat.and_le_right
  have part : (((random &&& 0xFFFF).toNat : ℕ) : ℚ) ≤ 0xFFFF := by exact_mod_cast small
  have some : (0 : ℚ) ≤ ((random &&& 0xFFFF).toNat : ℕ) := Nat.cast_nonneg _
  rw [initialDelay]
  constructor
  · linarith [div_nonneg some (by norm_num : (0 : ℚ) ≤ 0xFFFF)]
  · linarith [div_le_one_of_le₀ part (by norm_num)]

theorem toInt_bounds (low high : ℕ) (value : ℚ) (atLeast : low ≤ value) (atMost : value ≤ high)
    (fits : high < 2 ^ 31) : (low : ℤ) ≤ toInt undefined value ∧ toInt undefined value ≤ high := by
  have positive : 0 ≤ value := (Nat.cast_nonneg low).trans atLeast
  have inside : (low : ℤ) ≤ ⌊value⌋ ∧ ⌊value⌋ ≤ high := by
    constructor
    · exact Int.le_floor.mpr (by exact_mod_cast atLeast)
    · exact_mod_cast (Int.floor_le value).trans atMost
  rw [toInt, truncate, if_pos positive, if_pos (by omega)]
  exact inside

end CollectionViewWorkshop.CommandRunner
