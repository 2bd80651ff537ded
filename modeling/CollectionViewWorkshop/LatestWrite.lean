import Mathlib.Data.List.Induction

/-!
One slot shared by everything that happens. An event writes the slot or leaves
it alone, and what is read from the slot is what was written last.
-/

namespace CollectionViewWorkshop.LatestWrite

universe u v
variable {Event : Type u} {Value : Type v}

def latest (writes : Event → Option Value) (initial : Value) (events : List Event) : Value :=
  events.foldl (fun current event => (writes event).getD current) initial

def Untouched (writes : Event → Option Value) (events : List Event) : Prop :=
  ∀ event ∈ events, writes event = none

theorem latest_snoc (writes : Event → Option Value) (initial : Value) (events : List Event)
    (event : Event) :
    latest writes initial (events ++ [event]) =
      (writes event).getD (latest writes initial events) := by
  simp [latest]

theorem untouched_snoc_iff (writes : Event → Option Value) (events : List Event)
    (event : Event) :
    Untouched writes (events ++ [event]) ↔ Untouched writes events ∧ writes event = none := by
  simp only [Untouched, List.mem_append, List.mem_singleton]
  constructor
  · intro all
    exact ⟨fun old member => all old (Or.inl member), all event (Or.inr rfl)⟩
  · rintro ⟨earlier, last⟩ old (member | rfl)
    · exact earlier old member
    · exact last

theorem latest_of_untouched (writes : Event → Option Value) (initial : Value)
    (events : List Event) (quiet : Untouched writes events) :
    latest writes initial events = initial := by
  induction events using List.reverseRecOn with
  | nil => rfl
  | append_singleton events event ih =>
      obtain ⟨earlier, last⟩ := (untouched_snoc_iff writes events event).mp quiet
      rw [latest_snoc, last, Option.getD_none, ih earlier]

theorem latest_append (writes : Event → Option Value) (initial : Value)
    (first second : List Event) :
    latest writes initial (first ++ second) =
      latest writes (latest writes initial first) second := by
  simp [latest]

/-- Every slot content other than the initial one was put there by an event
that no later event wrote over. -/
theorem latest_cases (writes : Event → Option Value) (initial : Value) (events : List Event) :
    (Untouched writes events ∧ latest writes initial events = initial) ∨
      ∃ earlier event later value, events = earlier ++ event :: later ∧
        writes event = some value ∧ Untouched writes later ∧
          latest writes initial events = value := by
  induction events using List.reverseRecOn with
  | nil => exact Or.inl ⟨by simp [Untouched], rfl⟩
  | append_singleton events event ih =>
      cases written : writes event with
      | some value =>
          refine Or.inr ⟨events, event, [], value, rfl, written, by simp [Untouched], ?_⟩
          rw [latest_snoc, written, Option.getD_some]
      | none =>
          -- the last event leaves the slot alone, so the earlier writer stands
          have kept : latest writes initial (events ++ [event]) =
              latest writes initial events := by
            rw [latest_snoc, written, Option.getD_none]
          rcases ih with ⟨quiet, same⟩ | ⟨earlier, writer, later, value, split, wrote, quiet, same⟩
          · exact Or.inl ⟨(untouched_snoc_iff writes events event).mpr ⟨quiet, written⟩,
              kept.trans same⟩
          · refine Or.inr ⟨earlier, writer, later ++ [event], value, by simp [split], wrote,
              (untouched_snoc_iff writes later event).mpr ⟨quiet, written⟩, kept.trans same⟩

theorem latest_of_split (writes : Event → Option Value) (initial : Value)
    (earlier later : List Event) (event : Event) (value : Value)
    (written : writes event = some value) (quiet : Untouched writes later) :
    latest writes initial (earlier ++ event :: later) = value := by
  rw [List.append_cons, latest_append, latest_of_untouched writes _ later quiet, latest_snoc,
    written, Option.getD_some]

end CollectionViewWorkshop.LatestWrite
