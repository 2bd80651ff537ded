import Mathlib.Data.Finset.Card
import Mathlib.Logic.Relation

/-!
Walks through a graph that remember the nodes of the way they came by and turn
back at one of these. Such a walk still gets everywhere. A walk that also keeps
the chain of fresh nodes it is on, which a node that is not fresh breaks, meets
its chain again exactly if a cycle of fresh nodes can be reached. A search that marks nodes for
good and stops at the first wanted one misses none.
-/

namespace CollectionViewWorkshop.GraphWalks

open Relation

universe u
variable {Node : Type u} [DecidableEq Node] (edge : Node → Node → Prop)

/-- A route of some length that stays off the `avoided` nodes before its end. -/
inductive Route (avoided : Finset Node) : ℕ → Node → Node → Prop where
  | nil (node : Node) : Route avoided 0 node node
  | cons (length : ℕ) (first next last : Node) (off : first ∉ avoided)
      (step : edge first next) (rest : Route avoided length next last) :
      Route avoided (length + 1) first last

/-- The walk from `first` that has come by `seen` gets to a node. -/
inductive Visits : Finset Node → Node → Node → Prop where
  | here (seen : Finset Node) (node : Node) (off : node ∉ seen) : Visits seen node node
  | onward (seen : Finset Node) (first next last : Node) (off : first ∉ seen)
      (step : edge first next) (rest : Visits (insert first seen) next last) :
      Visits seen first last

variable {edge}

omit [DecidableEq Node] in
theorem route_of_reflTransGen (first last : Node) (reach : ReflTransGen edge first last) :
    ∃ length, Route edge ∅ length first last := by
  induction reach using ReflTransGen.head_induction_on with
  | refl => exact ⟨0, Route.nil last⟩
  | head step _ ih =>
      obtain ⟨length, rest⟩ := ih
      exact ⟨length + 1, Route.cons length _ _ last (by simp) step rest⟩

/-- A route leaves each node it comes by for a last time. -/
theorem route_after_last (avoided : Finset Node) (length : ℕ) (first last : Node)
    (route : Route edge avoided length first last) (node : Node) (other : node ≠ last) :
    (∃ shorter ≤ length, Route edge (insert node avoided) shorter first last) ∨
      ∃ next, edge node next ∧
        ∃ shorter ≤ length, Route edge (insert node avoided) shorter next last := by
  induction route with
  | nil last => exact Or.inl ⟨0, le_refl 0, Route.nil last⟩
  | cons length first next last off step rest ih =>
      rcases ih other with ⟨shorter, fewer, after⟩ | ⟨later, leaves, shorter, fewer, after⟩
      · by_cases same : first = node
        · subst same
          exact Or.inr ⟨next, step, shorter, by omega, after⟩
        · exact Or.inl ⟨shorter + 1, by omega,
            Route.cons shorter first next last (by simp [same, off]) step after⟩
      · exact Or.inr ⟨later, leaves, shorter, by omega, after⟩

/-- The first step of a route and what is left without coming by its first node again. -/
theorem route_leaves (avoided : Finset Node) (length : ℕ) (first last : Node)
    (route : Route edge avoided length first last) (other : first ≠ last) :
    first ∉ avoided ∧ ∃ next, edge first next ∧
      ∃ shorter < length, Route edge (insert first avoided) shorter next last := by
  cases route with
  | nil => exact absurd rfl other
  | cons length _ next _ off step rest =>
      refine ⟨off, ?_⟩
      rcases route_after_last avoided length next last rest first other with
        ⟨shorter, fewer, after⟩ | ⟨later, leaves, shorter, fewer, after⟩
      · exact ⟨next, step, shorter, by omega, after⟩
      · exact ⟨later, leaves, shorter, by omega, after⟩

theorem visits_first_iff (seen : Finset Node) (first last : Node) :
    Visits edge seen first last ↔
      first ∉ seen ∧ (last = first ∨
        ∃ next, edge first next ∧ Visits edge (insert first seen) next last) := by
  constructor
  · intro visits
    cases visits with
    | here _ _ off => exact ⟨off, Or.inl rfl⟩
    | onward _ _ next _ off step rest => exact ⟨off, Or.inr ⟨next, step, rest⟩⟩
  · rintro ⟨off, rfl | ⟨next, step, rest⟩⟩
    · exact Visits.here seen _ off
    · exact Visits.onward seen first next last off step rest

theorem visits_of_route (avoided : Finset Node) (length : ℕ) (first last : Node)
    (route : Route edge avoided length first last) (off : last ∉ avoided) :
    Visits edge avoided first last := by
  induction length using Nat.strong_induction_on generalizing avoided first with
  | _ length ih =>
      by_cases same : first = last
      · subst same
        exact Visits.here avoided first off
      · obtain ⟨offFirst, next, step, shorter, fewer, rest⟩ :=
          route_leaves avoided length first last route same
        have offLast : last ∉ insert first avoided := by
          simp [off, Ne.symm same]
        exact Visits.onward avoided first next last offFirst step
          (ih shorter fewer (insert first avoided) next rest offLast)

theorem visits_reach (seen : Finset Node) (first last : Node)
    (visits : Visits edge seen first last) : ReflTransGen edge first last := by
  induction visits with
  | here seen node off => exact ReflTransGen.refl
  | onward seen first next last off step rest ih => exact ReflTransGen.head step ih

/-- A walk gets to all that can be reached. -/
theorem visits_iff (first last : Node) :
    Visits edge ∅ first last ↔ ReflTransGen edge first last := by
  constructor
  · exact visits_reach ∅ first last
  · intro reach
    obtain ⟨length, route⟩ := route_of_reflTransGen first last reach
    exact visits_of_route ∅ length first last route (by simp)

variable (edge)

variable (fresh : Node → Prop) [DecidablePred fresh]

def chainAfter (chain : Finset Node) (node : Node) : Finset Node :=
  if fresh node then insert node chain else ∅

/-- The walk meets a node of its chain. -/
inductive Loops : Finset Node → Finset Node → Node → Prop where
  | here (seen chain : Finset Node) (node : Node) (new : fresh node) (again : node ∈ chain) :
      Loops seen chain node
  | onward (seen chain : Finset Node) (node next : Node) (off : node ∉ seen)
      (step : edge node next) (rest : Loops (insert node seen) (chainAfter fresh chain node) next) :
      Loops seen chain node

def FreshEdge (first second : Node) : Prop :=
  fresh first ∧ fresh second ∧ edge first second

def OnCycle (node : Node) : Prop :=
  TransGen (FreshEdge edge fresh) node node

variable {edge fresh}

theorem loops_first_iff (seen chain : Finset Node) (node : Node) :
    Loops edge fresh seen chain node ↔
      (fresh node ∧ node ∈ chain) ∨
        (node ∉ seen ∧ ∃ next, edge node next ∧
          Loops edge fresh (insert node seen) (chainAfter fresh chain node) next) := by
  constructor
  · intro loops
    cases loops with
    | here _ _ _ new again => exact Or.inl ⟨new, again⟩
    | onward _ _ _ next off step rest => exact Or.inr ⟨off, next, step, rest⟩
  · rintro (⟨new, again⟩ | ⟨off, next, step, rest⟩)
    · exact Loops.here seen chain node new again
    · exact Loops.onward seen chain node next off step rest

theorem cycle_of_loops (seen chain : Finset Node) (node : Node)
    (loops : Loops edge fresh seen chain node)
    (chained : fresh node → ∀ earlier ∈ chain, TransGen (FreshEdge edge fresh) earlier node) :
    ∃ other, ReflTransGen edge node other ∧ OnCycle edge fresh other := by
  induction loops with
  | here seen chain node new again =>
      exact ⟨node, ReflTransGen.refl, chained new node again⟩
  | onward seen chain node next off step rest ih =>
      obtain ⟨other, reach, cycle⟩ := ih fun newNext earlier member => by
        by_cases new : fresh node
        · rw [chainAfter, if_pos new] at member
          have last : FreshEdge edge fresh node next := ⟨new, newNext, step⟩
          rcases Finset.mem_insert.mp member with rfl | before
          · exact TransGen.single last
          · exact (chained new earlier before).tail last
        · simp [chainAfter, new] at member
      exact ⟨other, ReflTransGen.head step reach, cycle⟩

/-- A chain closes along a route of fresh nodes that were not seen. -/
theorem loops_of_route (seen chain : Finset Node) (length : ℕ) (node last : Node)
    (new : fresh node) (route : Route (FreshEdge edge fresh) seen length node last)
    (member : last ∈ chain) : Loops edge fresh seen chain node := by
  induction length using Nat.strong_induction_on generalizing seen chain node with
  | _ length ih =>
      by_cases same : node = last
      · subst same
        exact Loops.here seen chain node new member
      · obtain ⟨off, next, ⟨_, newNext, step⟩, shorter, fewer, rest⟩ :=
          route_leaves seen length node last route same
        apply Loops.onward seen chain node next off step
        apply ih shorter fewer (insert node seen) _ next newNext rest
        rw [chainAfter, if_pos new]
        exact Finset.mem_insert_of_mem member

omit [DecidablePred fresh] in
/-- Way round a cycle back to its node, off what is seen besides. -/
theorem route_round (seen : Finset Node) (node next : Node)
    (offCycles : ∀ other ∈ seen, ¬ OnCycle edge fresh other)
    (first : FreshEdge edge fresh node next)
    (round : ReflTransGen (FreshEdge edge fresh) next node) :
    ∃ length, Route (FreshEdge edge fresh) (insert node seen) length next node := by
  have along : ∀ middle, ReflTransGen (FreshEdge edge fresh) node middle →
      ReflTransGen (FreshEdge edge fresh) middle node →
        ∃ length, Route (FreshEdge edge fresh) (insert node seen) length middle node := by
    intro middle came goes
    induction goes using ReflTransGen.head_induction_on with
    | refl => exact ⟨0, Route.nil node⟩
    | @head middle later step rest ih =>
        by_cases same : middle = node
        · subst same
          exact ⟨0, Route.nil middle⟩
        · obtain ⟨length, route⟩ := ih (came.tail step)
          have cycle : OnCycle edge fresh middle :=
            (TransGen.head' step rest).trans_left came
          have off : middle ∉ insert node seen := by
            intro member
            rcases Finset.mem_insert.mp member with equal | inside
            · exact same equal
            · exact offCycles middle inside cycle
          exact ⟨length + 1, Route.cons length middle later node off step route⟩
  exact along next (ReflTransGen.single first) round

theorem loops_of_cycle (seen chain : Finset Node) (length : ℕ) (node last : Node)
    (offCycles : ∀ other ∈ seen, ¬ OnCycle edge fresh other)
    (route : Route edge seen length node last) (cycle : OnCycle edge fresh last) :
    Loops edge fresh seen chain node := by
  induction length using Nat.strong_induction_on generalizing seen chain node with
  | _ length ih =>
      by_cases here : OnCycle edge fresh node
      · obtain ⟨next, first, round⟩ := TransGen.head'_iff.mp here
        obtain ⟨around, back⟩ := route_round seen node next offCycles first round
        apply Loops.onward seen chain node next (fun member => offCycles node member here) first.2.2
        apply loops_of_route (insert node seen) _ around next node first.2.1 back
        rw [chainAfter, if_pos first.1]
        exact Finset.mem_insert_self node chain
      · have other : node ≠ last := by
          rintro rfl
          exact here cycle
        obtain ⟨off, next, step, shorter, fewer, rest⟩ :=
          route_leaves seen length node last route other
        apply Loops.onward seen chain node next off step
        apply ih shorter fewer (insert node seen) _ next _ rest
        intro inside member
        rcases Finset.mem_insert.mp member with rfl | old
        · exact here
        · exact offCycles inside old

/-- A walk meets its chain again exactly if it can reach a cycle of fresh nodes. -/
theorem loops_iff (node : Node) :
    Loops edge fresh ∅ ∅ node ↔
      ∃ other, ReflTransGen edge node other ∧ OnCycle edge fresh other := by
  constructor
  · intro loops
    exact cycle_of_loops ∅ ∅ node loops fun _ earlier member => absurd member (by simp)
  · rintro ⟨other, reach, cycle⟩
    obtain ⟨length, route⟩ := route_of_reflTransGen node other reach
    exact loops_of_cycle ∅ ∅ length node other (by simp) route cycle

variable (children : Node → List Node) (wanted : Node → Bool)

def searchAll (visit : Node → Finset Node → Bool × Finset Node) :
    List Node → Finset Node → Bool × Finset Node
  | [], seen => (false, seen)
  | node :: rest, seen =>
      match visit node seen with
      | (true, seen) => (true, seen)
      | (false, seen) => searchAll visit rest seen

/-- The depth bounds how many nodes there are left to mark. -/
def search : ℕ → Node → Finset Node → Bool × Finset Node
  | 0, _, seen => (false, seen)
  | depth + 1, node, seen =>
      if node ∈ seen then (false, seen)
      else if wanted node then (true, insert node seen)
      else searchAll (search depth) (children node) (insert node seen)

def Child (first second : Node) : Prop := second ∈ children first

def Cleared (seen after : Finset Node) : Prop :=
  ∀ other ∈ after, other ∉ seen →
    wanted other = false ∧ ∀ child ∈ children other, child ∈ after

structure Searched (nodes : List Node) (seen : Finset Node)
    (result : Bool × Finset Node) : Prop where
  found : result.1 = true → ∃ node ∈ nodes, ∃ other,
    ReflTransGen (Child children) node other ∧ wanted other = true
  missed : result.1 = false → seen ⊆ result.2 ∧ (∀ node ∈ nodes, node ∈ result.2) ∧
    Cleared children wanted seen result.2

variable {children wanted}

theorem cleared_trans (seen middle after : Finset Node) (grows : middle ⊆ after)
    (first : Cleared children wanted seen middle) (second : Cleared children wanted middle after) :
    Cleared children wanted seen after := by
  intro other member new
  by_cases before : other ∈ middle
  · obtain ⟨clean, below⟩ := first other before new
    exact ⟨clean, fun child inside => grows (below child inside)⟩
  · exact second other member before

variable (children wanted)

theorem searchAll_spec (visit : Node → Finset Node → Bool × Finset Node) (base : Finset Node)
    (nodes : List Node) (seen : Finset Node) (grown : base ⊆ seen)
    (visits : ∀ node ∈ nodes, ∀ seen, base ⊆ seen →
      Searched children wanted [node] seen (visit node seen)) :
    Searched children wanted nodes seen (searchAll visit nodes seen) := by
  induction nodes generalizing seen with
  | nil =>
      exact ⟨fun never => absurd never (by simp [searchAll]),
        fun _ => ⟨fun _ member => member, by simp, fun _ member new => absurd member new⟩⟩
  | cons node rest ih =>
      have one := visits node (by simp) seen grown
      rw [searchAll]
      cases result : visit node seen with
      | mk stopped after =>
          rw [result] at one
          cases stopped with
          | true =>
              refine ⟨fun _ => ?_, fun never => absurd never (by simp)⟩
              obtain ⟨same, member, other, reach, hit⟩ := one.found rfl
              exact ⟨same, by simp_all, other, reach, hit⟩
          | false =>
              obtain ⟨grows, marked, cleared⟩ := one.missed rfl
              have later := ih after (grown.trans grows)
                fun other member => visits other (List.mem_cons_of_mem node member)
              constructor
              · intro found
                obtain ⟨other, member, target, reach, hit⟩ := later.found found
                exact ⟨other, List.mem_cons_of_mem node member, target, reach, hit⟩
              · intro missed
                obtain ⟨growsOn, markedRest, clearedRest⟩ := later.missed missed
                refine ⟨grows.trans growsOn, ?_, cleared_trans seen after _ growsOn cleared
                  clearedRest⟩
                intro other member
                rcases List.mem_cons.mp member with rfl | inside
                · exact growsOn (marked other (by simp))
                · exact markedRest other inside

theorem search_spec (known : Finset Node)
    (closed : ∀ node ∈ known, ∀ child ∈ children node, child ∈ known) (depth : ℕ) (node : Node)
    (seen : Finset Node) (inside : node ∈ known) (enough : (known \ seen).card < depth) :
    Searched children wanted [node] seen
      (search children wanted depth node seen) := by
  induction depth generalizing node seen with
  | zero => omega
  | succ depth ih =>
      rw [search]
      by_cases marked : node ∈ seen
      · rw [if_pos marked]
        exact ⟨fun never => absurd never (by simp),
          fun _ => ⟨fun _ member => member, by simpa using marked,
            fun _ member new => absurd member new⟩⟩
      · rw [if_neg marked]
        by_cases hit : wanted node
        · rw [if_pos hit]
          exact ⟨fun _ => ⟨node, by simp, node, ReflTransGen.refl, hit⟩,
            fun never => absurd never (by simp)⟩
        · rw [if_neg hit]
          have fewer : ∀ later, insert node seen ⊆ later → (known \ later).card < depth := by
            intro later grows
            have subset : known \ later ⊂ known \ seen := by
              refine Finset.ssubset_iff_of_subset ?_ |>.mpr ⟨node, by simp [inside, marked], ?_⟩
              · exact Finset.sdiff_subset_sdiff (Finset.Subset.refl known)
                  ((Finset.subset_insert node seen).trans grows)
              · simp [grows (Finset.mem_insert_self node seen)]
            have := Finset.card_lt_card subset
            omega
          have below := searchAll_spec children wanted (search children wanted depth)
            (insert node seen) (children node) (insert node seen) (Finset.Subset.refl _) fun child member later grows =>
              ih child later (closed node inside child member) (fewer later grows)
          constructor
          · intro found
            obtain ⟨child, member, other, reach, target⟩ := below.found found
            exact ⟨node, by simp, other, ReflTransGen.head member reach, target⟩
          · intro missed
            obtain ⟨grows, markedAll, cleared⟩ := below.missed missed
            refine ⟨(Finset.subset_insert node seen).trans grows, ?_, ?_⟩
            · simpa using grows (Finset.mem_insert_self node seen)
            · intro other member new
              by_cases same : other = node
              · subst same
                exact ⟨by simpa using hit, markedAll⟩
              · exact cleared other member (by simp [same, new])

/-- A search finds a wanted node exactly if one can be reached. -/
theorem search_iff (known : Finset Node)
    (closed : ∀ node ∈ known, ∀ child ∈ children node, child ∈ known) (node : Node)
    (inside : node ∈ known) :
    (search children wanted (known.card + 1) node ∅).1 = true ↔
      ∃ other, ReflTransGen (Child children) node other ∧ wanted other = true := by
  have spec := search_spec children wanted known closed (known.card + 1) node ∅ inside (by simp)
  constructor
  · intro found
    obtain ⟨same, member, other, reach, hit⟩ := spec.found found
    rw [List.mem_singleton.mp member] at reach
    exact ⟨other, reach, hit⟩
  · rintro ⟨other, reach, hit⟩
    by_contra missing
    obtain ⟨-, marked, cleared⟩ := spec.missed (by simpa using missing)
    have all : other ∈ (search children wanted (known.card + 1) node ∅).2 := by
      clear hit
      induction reach with
      | refl => exact marked node (by simp)
      | tail _ step ih => exact (cleared _ ih (by simp)).2 _ step
    have clean := (cleared other all (by simp)).1
    rw [hit] at clean
    cases clean

end CollectionViewWorkshop.GraphWalks
