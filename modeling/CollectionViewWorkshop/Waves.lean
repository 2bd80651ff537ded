import Mathlib.Data.List.Perm.Basic
import Mathlib.Logic.Relation
import Mathlib.Order.WellFoundedSet

/-!
Emptying a list in waves: each takes all nodes that are ready once the waves
before it are finished, and an empty wave is the end. A node is ready once all
it needs is finished, if there is anything that will do. The waves get stuck
exactly on a node for which nothing will do, that needs something which is not
in the list, or that comes to need itself.
-/

namespace CollectionViewWorkshop.Waves

open Relation

universe u
variable {Node : Type u}

/-- Of finitely many nodes one leads to no other of them, unless one is on a cycle. -/
theorem exists_last (edge : Node → Node → Prop) (nodes : List Node)
    (acyclic : ∀ node ∈ nodes, ¬ TransGen edge node node) (some_ : nodes ≠ []) :
    ∃ node ∈ nodes, ∀ other ∈ nodes, ¬ edge node other := by
  let within : Node → Node → Prop := fun first second => edge first second ∧ first ∈ nodes
  let below : Node → Node → Prop := fun first second => TransGen within second first
  have : IsStrictOrder Node below :=
    { irrefl := fun node cycle => by
        obtain ⟨_, ⟨_, member⟩, _⟩ := TransGen.head'_iff.mp cycle
        have fewer : within ≤ edge := fun _ _ both => both.1
        exact acyclic node member (TransGen.mono fewer node node cycle)
      trans := fun first second third one two => two.trans one }
  have founded := Set.wellFoundedOn_iff.mp
    ((List.finite_toSet nodes).wellFoundedOn (r := below))
  obtain ⟨first, member⟩ := List.exists_mem_of_ne_nil nodes some_
  obtain ⟨node, inside, least⟩ := founded.has_min { node | node ∈ nodes } ⟨first, member⟩
  exact ⟨node, inside, fun other present leads =>
    least other present ⟨TransGen.single ⟨leads, inside⟩, present, inside⟩⟩

variable (ready : List Node → Node → Bool)

def readyNow (finished remaining : List Node) : List Node :=
  remaining.filter (ready finished)

def notYet (finished remaining : List Node) : List Node :=
  remaining.filter fun node => !ready finished node

theorem notYet_shorter (finished remaining : List Node)
    (some_ : readyNow ready finished remaining ≠ []) :
    (notYet ready finished remaining).length < remaining.length := by
  have split := List.length_eq_length_filter_add (l := remaining) (ready finished)
  have taken := List.length_pos_iff.mpr some_
  rw [readyNow] at taken
  rw [notYet]
  omega

def waves (remaining finished : List Node) : Option (List (List Node)) :=
  if remaining.isEmpty then some []
  else if _stuck : (readyNow ready finished remaining).isEmpty then none
  else
    (waves (notYet ready finished remaining)
      (finished ++ readyNow ready finished remaining)).map
        (readyNow ready finished remaining :: ·)
termination_by remaining.length
decreasing_by exact notYet_shorter ready finished remaining (by simpa using _stuck)

def InWaves : List Node → List (List Node) → Prop
  | _, [] => True
  | finished, wave :: rest =>
      wave ≠ [] ∧ (∀ node ∈ wave, ready finished node = true) ∧
        (∀ node ∈ rest.flatten, ready finished node = false) ∧ InWaves (finished ++ wave) rest

variable {ready}

theorem waves_spec (remaining finished : List Node) (taken : List (List Node))
    (done : waves ready remaining finished = some taken) :
    taken.flatten.Perm remaining ∧ InWaves ready finished taken := by
  induction remaining, finished using waves.induct ready generalizing taken with
  | case1 remaining finished empty =>
      rw [waves, if_pos empty] at done
      cases done
      rw [List.isEmpty_iff.mp empty]
      exact ⟨List.Perm.refl [], trivial⟩
  | case2 remaining finished more stuck =>
      rw [waves, if_neg more, dif_pos stuck] at done
      cases done
  | case3 remaining finished more going ih =>
      rw [waves, if_neg more, dif_neg going] at done
      obtain ⟨rest, later, rfl⟩ := Option.map_eq_some_iff.mp done
      obtain ⟨all, inWaves⟩ := ih rest later
      refine ⟨?_, by simpa using going, ?_, ?_, inWaves⟩
      · rw [List.flatten_cons]
        exact (all.append_left _).trans (List.filter_append_perm (ready finished) remaining)
      · intro node member
        exact (List.mem_filter.mp member).2
      · intro node member
        have late := (List.mem_filter.mp (all.subset member)).2
        simpa using late

variable (ready) in
/-- Nodes of the list that no finished nodes make ready but these themselves. -/
def Stuck (remaining finished : List Node) (stuck : Node → Prop) : Prop :=
  (∃ node ∈ remaining, stuck node) ∧ ∀ node ∈ remaining, stuck node → ∀ more : List Node,
    (∀ other ∈ more, other ∈ finished ∨ (other ∈ remaining ∧ ¬ stuck other)) →
      ready more node = false

/-- What is stuck before a wave is still stuck after it. -/
theorem stuck_after (remaining finished : List Node) (stuck : Node → Prop)
    (held : Stuck ready remaining finished stuck) :
    Stuck ready (notYet ready finished remaining) (finished ++ readyNow ready finished remaining)
      stuck := by
  obtain ⟨⟨node, member, isStuck⟩, never⟩ := held
  have waits : ∀ node ∈ remaining, stuck node → node ∈ notYet ready finished remaining := by
    intro node inside heldToo
    have early := never node inside heldToo finished fun other old => Or.inl old
    exact List.mem_filter.mpr ⟨inside, by simp [early]⟩
  refine ⟨⟨node, waits node member isStuck, isStuck⟩, ?_⟩
  intro node inside heldToo others made
  apply never node (List.mem_filter.mp inside).1 heldToo others
  intro other inOthers
  rcases made other inOthers with old | ⟨waiting, free⟩
  · rcases List.mem_append.mp old with before | taken
    · exact Or.inl before
    · obtain ⟨present, now⟩ := List.mem_filter.mp taken
      refine Or.inr ⟨present, fun heldOther => ?_⟩
      have late := (List.mem_filter.mp (waits other present heldOther)).2
      simp [now] at late
  · exact Or.inr ⟨(List.mem_filter.mp waiting).1, free⟩

/-- What is stuck after a wave, and not in it, was stuck before. -/
theorem stuck_before (remaining finished : List Node) (stuck : Node → Prop)
    (held : Stuck ready (notYet ready finished remaining)
      (finished ++ readyNow ready finished remaining) stuck) :
    Stuck ready remaining finished fun node =>
      node ∈ notYet ready finished remaining ∧ stuck node := by
  obtain ⟨⟨node, member, isStuck⟩, never⟩ := held
  refine ⟨⟨node, (List.mem_filter.mp member).1, member, isStuck⟩, ?_⟩
  rintro node - ⟨inside, heldToo⟩ others made
  apply never node inside heldToo others
  intro other inOthers
  rcases made other inOthers with old | ⟨present, free⟩
  · exact Or.inl (List.mem_append_left _ old)
  · cases now : ready finished other with
    | true => exact Or.inl (List.mem_append_right _ (List.mem_filter.mpr ⟨present, now⟩))
    | false =>
        have waits : other ∈ notYet ready finished remaining :=
          List.mem_filter.mpr ⟨present, by simp [now]⟩
        exact Or.inr ⟨waits, fun held => free ⟨waits, held⟩⟩

/-- The waves stop before the end exactly if some nodes are stuck. -/
theorem waves_stuck_iff
    (monotone : ∀ fewer more node, fewer ⊆ more → ready fewer node = true →
      ready more node = true)
    (remaining finished : List Node) :
    waves ready remaining finished = none ↔
      ∃ stuck, Stuck ready remaining finished stuck := by
  induction remaining, finished using waves.induct ready with
  | case1 remaining finished empty =>
      rw [waves, if_pos empty]
      simp [Stuck, List.isEmpty_iff.mp empty]
  | case2 remaining finished more blocked =>
      rw [waves, if_neg more, dif_pos blocked]
      simp only [true_iff]
      have none_ : ∀ node ∈ remaining, ready finished node = false := by
        simpa [readyNow, List.filter_eq_nil_iff] using blocked
      obtain ⟨node, member⟩ := List.exists_mem_of_ne_nil remaining (by simpa using more)
      refine ⟨fun node => node ∈ remaining, ⟨node, member, member⟩, ?_⟩
      intro node inside _ others made
      cases early : ready others node with
      | false => rfl
      | true =>
          have subset : others ⊆ finished := by
            intro other member
            rcases made other member with old | ⟨inside, outside⟩
            · exact old
            · exact absurd inside outside
          rw [← none_ node inside, monotone others finished node subset early]
  | case3 remaining finished more going ih =>
      rw [waves, if_neg more, dif_neg going, Option.map_eq_none_iff, ih]
      constructor
      · rintro ⟨stuck, held⟩
        exact ⟨_, stuck_before remaining finished stuck held⟩
      · rintro ⟨stuck, held⟩
        exact ⟨stuck, stuck_after remaining finished stuck held⟩

variable [DecidableEq Node] (needs : Node → Option (List Node))

/-- Nothing will do for a node without a list of needs. -/
def readyAfter (finished : List Node) (node : Node) : Bool :=
  (needs node).any fun all => all.all fun needed => needed ∈ finished

def Needs (first second : Node) : Prop := ∃ all ∈ needs first, second ∈ all

variable {needs}

theorem ready_iff (finished : List Node) (node : Node) :
    readyAfter needs finished node = true ↔
      needs node ≠ none ∧ ∀ needed, Needs needs node needed → needed ∈ finished := by
  cases found : needs node <;> simp [readyAfter, Needs, found]

theorem readyAfter_monotone (fewer more : List Node) (node : Node) (subset : fewer ⊆ more)
    (ready : readyAfter needs fewer node = true) : readyAfter needs more node = true := by
  rw [ready_iff] at ready ⊢
  exact ⟨ready.1, fun needed wanted => subset (ready.2 needed wanted)⟩

theorem notReady_iff (finished : List Node) (node : Node) :
    readyAfter needs finished node = false ↔
      needs node = none ∨ ∃ needed, Needs needs node needed ∧ needed ∉ finished := by
  rw [← Bool.not_eq_true, ready_iff]
  simp only [not_and_or, not_not, not_forall, exists_prop]

variable (needs) in
def Blocked (remaining : List Node) (node : Node) : Prop :=
  needs node = none ∨ (∃ needed, Needs needs node needed ∧ needed ∉ remaining) ∨
    TransGen (Needs needs) node node

theorem blocked_of_stuck (remaining : List Node) (stuck : Node → Prop)
    (held : Stuck (readyAfter needs) remaining [] stuck) :
    ∃ node ∈ remaining, Blocked needs remaining node := by
  -- among the stuck nodes one needs no other of them, unless they are on a cycle
  classical
  obtain ⟨⟨first, member, isStuck⟩, never⟩ := held
  by_cases acyclic : ∀ node ∈ remaining, ¬ TransGen (Needs needs) node node
  · obtain ⟨node, inside, last⟩ := exists_last (Needs needs) (remaining.filter fun node => stuck node)
      (fun node inside => acyclic node (List.mem_filter.mp inside).1)
      (List.ne_nil_of_mem (List.mem_filter.mpr ⟨member, by simpa using isStuck⟩))
    obtain ⟨present, heldToo⟩ := List.mem_filter.mp inside
    have late := never node present (by simpa using heldToo)
      (remaining.filter fun node => ¬ stuck node) fun other free =>
        Or.inr ⟨(List.mem_filter.mp free).1, by simpa using (List.mem_filter.mp free).2⟩
    refine ⟨node, present, ?_⟩
    rcases (notReady_iff _ node).mp late with nothing | ⟨needed, wanted, missing⟩
    · exact Or.inl nothing
    · refine Or.inr (Or.inl ⟨needed, wanted, fun there => ?_⟩)
      by_cases stuckNeeded : stuck needed
      · exact last needed (List.mem_filter.mpr ⟨there, by simpa using stuckNeeded⟩) wanted
      · exact missing (List.mem_filter.mpr ⟨there, by simpa using stuckNeeded⟩)
  · obtain ⟨node, cycles⟩ := not_forall.mp acyclic
    obtain ⟨present, cycle⟩ := Classical.not_imp.mp cycles
    exact ⟨node, present, Or.inr (Or.inr (not_not.mp cycle))⟩

/-- A blocked node is stuck, and so are all nodes of its cycle if it is on one. -/
theorem stuck_of_blocked (remaining : List Node) (node : Node) (member : node ∈ remaining)
    (blocked : Blocked needs remaining node) :
    ∃ stuck, Stuck (readyAfter needs) remaining [] stuck := by
  rcases blocked with nothing | ⟨needed, wanted, missing⟩ | cycle
  · refine ⟨fun other => other = node, ⟨node, member, rfl⟩, ?_⟩
    rintro _ - rfl others -
    exact (notReady_iff others _).mpr (Or.inl nothing)
  · refine ⟨fun other => other = node, ⟨node, member, rfl⟩, ?_⟩
    rintro _ - rfl others made
    refine (notReady_iff others _).mpr (Or.inr ⟨needed, wanted, fun there => ?_⟩)
    rcases made needed there with old | ⟨present, -⟩
    · cases old
    · exact missing present
  · refine ⟨fun other => TransGen (Needs needs) other other, ⟨node, member, cycle⟩, ?_⟩
    intro other _ round others made
    obtain ⟨next, step, back⟩ := TransGen.head'_iff.mp round
    refine (notReady_iff others other).mpr (Or.inr ⟨next, step, fun there => ?_⟩)
    rcases made next there with old | ⟨-, free⟩
    · cases old
    · exact free (TransGen.tail' back step)

/-- The waves stop before the end exactly if a node of the list is blocked. -/
theorem waves_blocked_iff (remaining : List Node) :
    waves (readyAfter needs) remaining [] = none ↔
      ∃ node ∈ remaining, Blocked needs remaining node := by
  rw [waves_stuck_iff readyAfter_monotone]
  constructor
  · rintro ⟨stuck, held⟩
    exact blocked_of_stuck remaining stuck held
  · rintro ⟨node, member, blocked⟩
    exact stuck_of_blocked remaining node member blocked

end CollectionViewWorkshop.Waves
