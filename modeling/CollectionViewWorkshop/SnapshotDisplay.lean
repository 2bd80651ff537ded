import CollectionViewWorkshop.PartialRuns
import Mathlib.Data.Finset.Basic
import Mathlib.Data.List.Nodup

/-!
What a list on a screen is for that is filled from a shared log and added to
locally. Entries are known by their keys. A key is used once, whether its entry
is added to the list or only to the log; a snapshot lists used keys, each once,
and replaces whatever is shown when its request is answered.
-/

namespace CollectionViewWorkshop.SnapshotDisplay

open PartialRuns

universe u
variable {Key : Type u} [DecidableEq Key]

structure Display (Key : Type u) where
  used : Finset Key
  answers : List (Option (List Key))
  shown : List Key

inductive Event (Key : Type u) where
  | use (key : Key)
  | add (key : Key)
  | ask
  | answer (request : ℕ) (keys : List Key)
  | replace (request : ℕ) (keys : List Key)
  | clear (request : ℕ)

/-- What a snapshot lists: used keys, each once. -/
def Listed (used : Finset Key) (keys : List Key) : Prop :=
  keys.Nodup ∧ ∀ key ∈ keys, key ∈ used

instance (used : Finset Key) (keys : List Key) : Decidable (Listed used keys) :=
  inferInstanceAs (Decidable (_ ∧ _))

def step (display : Display Key) : Event Key → Option (Display Key)
  | .use key =>
      if key ∈ display.used then none
      else some { display with used := insert key display.used }
  | .add key =>
      if key ∈ display.used then none
      else some { display with
        used := insert key display.used
        shown := display.shown ++ [key] }
  | .ask => some { display with answers := display.answers ++ [none] }
  | .answer request keys =>
      if Listed display.used keys then
        some { display with answers := display.answers.set request (some keys) }
      else none
  | .replace request keys =>
      if display.answers[request]? = some (some keys) then some { display with shown := keys }
      else none
  | .clear request =>
      some { display with answers := display.answers.set request none, shown := [] }

def machine : Machine (Display Key) (Event Key) where
  initial := ⟨∅, [], []⟩
  step := step

structure Sound (display : Display Key) : Prop where
  shown : Listed display.used display.shown
  answers : ∀ keys, some keys ∈ display.answers → Listed display.used keys

theorem listed_insert (used : Finset Key) (keys : List Key) (key : Key)
    (listed : Listed used keys) : Listed (insert key used) keys :=
  ⟨listed.1, fun other member => Finset.mem_insert_of_mem (listed.2 other member)⟩

theorem listed_add (used : Finset Key) (keys : List Key) (key : Key)
    (listed : Listed used keys) (fresh : key ∉ used) :
    Listed (insert key used) (keys ++ [key]) := by
  constructor
  · have absent : key ∉ keys := fun member => fresh (listed.2 key member)
    simpa using List.Nodup.concat absent listed.1
  · intro other member
    rcases List.mem_append.mp member with old | new
    · exact Finset.mem_insert_of_mem (listed.2 other old)
    · rw [List.mem_singleton.mp new]
      exact Finset.mem_insert_self key used

-- A snapshot may be old when it replaces the list, but it never lists a key twice,
-- and a key that is added was in no snapshot taken before.
theorem sound_step (event : Event Key) (before after : Display Key) (sound : Sound before)
    (taken : step before event = some after) : Sound after := by
  cases event with
  | use key =>
      simp only [step, Option.ite_none_left_eq_some, Option.some.injEq] at taken
      obtain ⟨-, rfl⟩ := taken
      exact ⟨listed_insert before.used before.shown key sound.shown,
        fun keys member => listed_insert before.used keys key (sound.answers keys member)⟩
  | add key =>
      simp only [step, Option.ite_none_left_eq_some, Option.some.injEq] at taken
      obtain ⟨fresh, rfl⟩ := taken
      exact ⟨listed_add before.used before.shown key sound.shown fresh,
        fun keys member => listed_insert before.used keys key (sound.answers keys member)⟩
  | ask =>
      cases taken
      refine ⟨sound.shown, fun keys member => sound.answers keys ?_⟩
      simpa using member
  | answer request keys =>
      simp only [step, Option.ite_none_right_eq_some, Option.some.injEq] at taken
      obtain ⟨listed, rfl⟩ := taken
      refine ⟨sound.shown, fun other member => ?_⟩
      rcases List.mem_or_eq_of_mem_set member with old | same
      · exact sound.answers other old
      · cases same
        exact listed
  | replace request keys =>
      simp only [step, Option.ite_none_right_eq_some, Option.some.injEq] at taken
      obtain ⟨answered, rfl⟩ := taken
      exact ⟨sound.answers keys (List.mem_of_getElem? answered), sound.answers⟩
  | clear request =>
      cases taken
      refine ⟨⟨List.nodup_nil, by simp⟩, fun other member => ?_⟩
      rcases List.mem_or_eq_of_mem_set member with old | same
      · exact sound.answers other old
      · cases same

theorem never_shown_twice (display : Display Key) (reached : machine.Reachable display) :
    display.shown.Nodup := by
  have sound := reachable_invariant machine Sound
    ⟨⟨List.nodup_nil, by simp [machine]⟩, by simp [machine]⟩ sound_step display reached
  exact sound.shown.1

end CollectionViewWorkshop.SnapshotDisplay
