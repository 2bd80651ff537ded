import Mathlib.Data.List.Nodup

/-!
A table of requests. A request is entered at the end and settled in place, so
its index names it for good. What settling one request does to a property of
all requests, of some request, and of the keys they carry.
-/

namespace CollectionViewWorkshop.RequestTable

universe u v
variable {Request : Type u} {Key : Type v}

theorem settled_mem (table : List Request) (index : ℕ) (old new : Request)
    (found : table[index]? = some old) : new ∈ table.set index new := by
  have inside := (List.getElem?_eq_some_iff.mp found).1
  exact List.mem_of_getElem? (i := index) (by simp [inside])

theorem map_settled (key : Request → Key) (table : List Request) (index : ℕ)
    (old new : Request) (found : table[index]? = some old) (same : key new = key old) :
    (table.set index new).map key = table.map key := by
  obtain ⟨inside, isOld⟩ := List.getElem?_eq_some_iff.mp found
  apply List.ext_getElem?
  intro other
  simp only [List.getElem?_map, List.getElem?_set]
  by_cases here : index = other
  · subst here
    simp [inside, isOld, same]
  · simp [here]

theorem all_settled (holds : Request → Prop) (table : List Request) (index : ℕ)
    (new : Request) (all : ∀ request ∈ table, holds request) (settled : holds new) :
    ∀ request ∈ table.set index new, holds request := by
  intro request member
  rcases List.mem_or_eq_of_mem_set member with old | same
  · exact all request old
  · exact same ▸ settled

theorem all_entered (holds : Request → Prop) (table : List Request) (new : Request)
    (all : ∀ request ∈ table, holds request) (entered : holds new) :
    ∀ request ∈ table ++ [new], holds request := by
  intro request member
  rcases List.mem_append.mp member with old | same
  · exact all request old
  · rw [List.mem_singleton.mp same]
    exact entered

theorem some_settled (holds : Request → Prop) (table : List Request) (index : ℕ)
    (old new : Request) (found : table[index]? = some old)
    (present : ∃ request ∈ table, holds request) (keep : holds old → holds new) :
    ∃ request ∈ table.set index new, holds request := by
  obtain ⟨request, member, held⟩ := present
  obtain ⟨other, inside⟩ := List.getElem?_of_mem member
  by_cases here : index = other
  · subst here
    cases found.symm.trans inside
    exact ⟨new, settled_mem table index old new found, keep held⟩
  · exact ⟨request, List.mem_of_getElem? (i := other) (by simp [here, inside]), held⟩

/-- What settling a request leaves of a property it no longer has itself. -/
theorem some_other_settled_iff (holds : Request → Prop) (table : List Request) (index : ℕ)
    (new : Request) (settled : ¬ holds new) :
    (∃ request ∈ table.set index new, holds request) ↔
      ∃ other request, other ≠ index ∧ table[other]? = some request ∧ holds request := by
  constructor
  · rintro ⟨request, member, held⟩
    obtain ⟨other, found⟩ := List.getElem?_of_mem member
    by_cases here : other = index
    · subst here
      have inside : other < table.length := by
        simpa using (List.getElem?_eq_some_iff.mp found).1
      rw [List.getElem?_set_self inside] at found
      cases found
      exact absurd held settled
    · rw [List.getElem?_set_ne (Ne.symm here)] at found
      exact ⟨other, request, here, found, held⟩
  · rintro ⟨other, request, different, found, held⟩
    have kept : (table.set index new)[other]? = some request := by
      rwa [List.getElem?_set_ne different.symm]
    exact ⟨request, List.mem_of_getElem? kept, held⟩

/-- Where keys are distinct, the others in a table a request was settled in have other keys. -/
theorem settled_cases (key : Request → Key) (table : List Request) (index : ℕ)
    (old new request : Request) (found : table[index]? = some old)
    (distinct : (table.map key).Nodup) (member : request ∈ table.set index new) :
    request = new ∨ (request ∈ table ∧ key request ≠ key old) := by
  obtain ⟨place, here⟩ := List.getElem?_of_mem member
  by_cases same : index = place
  · subst same
    rw [List.getElem?_set_self (List.getElem?_eq_some_iff.mp found).1] at here
    exact Or.inl (Option.some.inj here).symm
  · rw [List.getElem?_set_ne same] at here
    refine Or.inr ⟨List.mem_of_getElem? here, fun sameKey => same ?_⟩
    have inside : index < (table.map key).length := by
      simpa using (List.getElem?_eq_some_iff.mp found).1
    apply (List.getElem?_inj inside distinct).mp
    rw [List.getElem?_map, List.getElem?_map, found, here, Option.map_some, Option.map_some,
      sameKey]

theorem entered_cases (table : List Request) (new request : Request) (index : ℕ)
    (found : (table ++ [new])[index]? = some request) :
    (index = table.length ∧ request = new) ∨ table[index]? = some request := by
  by_cases inside : index < table.length
  · right
    rwa [List.getElem?_append_left inside] at found
  · left
    have last : index < (table ++ [new]).length := (List.getElem?_eq_some_iff.mp found).1
    have here : index = table.length := by
      rw [List.length_append, List.length_singleton] at last
      omega
    subst here
    rw [List.getElem?_concat_length] at found
    exact ⟨rfl, (Option.some.inj found).symm⟩

theorem keys_entered (key : Request → Key) (table : List Request) (new : Request)
    (distinct : (table.map key).Nodup) (fresh : ∀ old ∈ table, key old ≠ key new) :
    ((table ++ [new]).map key).Nodup := by
  have absent : key new ∉ table.map key := by
    intro member
    obtain ⟨old, inside, same⟩ := List.mem_map.mp member
    exact fresh old inside same
  simpa using List.Nodup.concat absent distinct

end CollectionViewWorkshop.RequestTable
