import CollectionViewWorkshop.RequestTable
import Mathlib.Data.List.Perm.Basic

/-!
Lists that hold at most one element of a key once they did. An element whose key
is there already takes the place of the old one, where keys of its kind are
renewed, or else does not enter; one with a new key enters at the end. Without
repeated keys only the elements count, and entering them is a union.
-/

namespace CollectionViewWorkshop.KeyedLists

universe u v
variable {Element : Type u} {Key : Type v}

def DistinctKeys (key : Element → Key) (list : List Element) : Prop :=
  (list.map key).Nodup

theorem DistinctKeys.nodup {key : Element → Key} {list : List Element}
    (distinct : DistinctKeys key list) : list.Nodup :=
  distinct.of_map

theorem DistinctKeys.same {key : Element → Key} {list : List Element}
    (distinct : DistinctKeys key list) (first second : Element) (inside : first ∈ list)
    (also : second ∈ list) (same : key first = key second) : first = second :=
  List.inj_on_of_nodup_map distinct inside also same

theorem DistinctKeys.perm {key : Element → Key} {list reordered : List Element}
    (distinct : DistinctKeys key list) (perm : reordered.Perm list) :
    DistinctKeys key reordered := by
  rw [DistinctKeys, (perm.map key).nodup_iff]
  exact distinct

variable [DecidableEq Key] (key : Element → Key) (renews : Key → Bool)

def enter (list : List Element) (element : Element) : List Element :=
  match list.findIdx? fun other => key other = key element with
  | none => list ++ [element]
  | some index => if renews (key element) then list.set index element else list

def enterAll (elements list : List Element) : List Element :=
  elements.foldl (enter key renews) list

variable {key renews}

variable (renews) in
theorem enter_new (list : List Element) (element : Element) (new : key element ∉ list.map key) :
    enter key renews list element = list ++ [element] := by
  have absent : (list.findIdx? fun other => key other = key element) = none := by
    rw [List.findIdx?_eq_none_iff]
    intro other member
    rw [decide_eq_false_iff_not]
    exact fun same => new (List.mem_map.mpr ⟨other, member, same⟩)
  simp only [enter, absent]

variable (renews) in
theorem enter_old (list : List Element) (element : Element) (old : key element ∈ list.map key) :
    ∃ index other, list[index]? = some other ∧ key other = key element ∧
      enter key renews list element =
        if renews (key element) then list.set index element else list := by
  cases found : list.findIdx? fun other => key other = key element with
  | none =>
      obtain ⟨other, member, same⟩ := List.mem_map.mp old
      exact absurd same (by simpa using List.findIdx?_eq_none_iff.mp found other member)
  | some index =>
      obtain ⟨inside, here, -⟩ := List.findIdx?_eq_some_iff_getElem.mp found
      exact ⟨index, list[index], List.getElem?_eq_getElem inside, by simpa using here, by
        simp only [enter, found]⟩

theorem map_key_enter (list : List Element) (element : Element) :
    (enter key renews list element).map key =
      if key element ∈ list.map key then list.map key else list.map key ++ [key element] := by
  by_cases old : key element ∈ list.map key
  · obtain ⟨index, other, here, same, entered⟩ := enter_old renews list element old
    rw [if_pos old, entered]
    split
    · exact RequestTable.map_settled key list index other element here same.symm
    · rfl
  · rw [if_neg old, enter_new renews list element old, List.map_append, List.map_singleton]

theorem distinct_enter (list : List Element) (distinct : DistinctKeys key list)
    (element : Element) : DistinctKeys key (enter key renews list element) := by
  rw [DistinctKeys, map_key_enter]
  split
  · exact distinct
  · rename_i new
    simpa using List.Nodup.concat new distinct

theorem mem_enter_iff (list : List Element) (distinct : DistinctKeys key list)
    (element other : Element) :
    other ∈ enter key renews list element ↔
      (other = element ∧ (renews (key other) = true ∨ key other ∉ list.map key)) ∨
        (other ∈ list ∧ (key other ≠ key element ∨ renews (key other) = false)) := by
  by_cases old : key element ∈ list.map key
  · obtain ⟨index, held, here, same, entered⟩ := enter_old renews list element old
    rw [entered]
    obtain ⟨inside, rfl⟩ := List.getElem?_eq_some_iff.mp here
    cases renewed : renews (key element) with
    | false =>
        constructor
        · intro member
          by_cases sameKey : key other = key element
          · exact Or.inr ⟨member, Or.inr (sameKey ▸ renewed)⟩
          · exact Or.inr ⟨member, Or.inl sameKey⟩
        · rintro (⟨rfl, again | new⟩ | ⟨member, -⟩)
          · simp [renewed] at again
          · exact absurd old new
          · exact member
    | true =>
        rw [if_pos rfl]
        have keys := RequestTable.map_settled key list index list[index] element here same.symm
        have distinctNew : DistinctKeys key (list.set index element) := by
          rw [DistinctKeys, keys]
          exact distinct
        constructor
        · intro member
          rcases List.mem_or_eq_of_mem_set member with kept | rfl
          · by_cases sameKey : key other = key element
            · -- only the new element has this key in the new list
              have isNew := distinctNew.same other element member (List.mem_set inside element)
                sameKey
              exact Or.inl ⟨isNew, Or.inl (sameKey ▸ renewed)⟩
            · exact Or.inr ⟨kept, Or.inl sameKey⟩
          · exact Or.inl ⟨rfl, Or.inl renewed⟩
        · rintro (⟨rfl, -⟩ | ⟨kept, apart⟩)
          · exact List.mem_set inside other
          · obtain ⟨position, bound, at_⟩ := List.mem_iff_getElem.mp kept
            have elsewhere : index ≠ position := by
              rintro rfl
              rw [at_] at same
              rcases apart with otherKey | again
              · exact otherKey same
              · rw [same, renewed] at again
                cases again
            exact List.mem_iff_getElem.mpr ⟨position, by simpa using bound, by
              rw [List.getElem_set_ne elsewhere, at_]⟩
  · rw [enter_new renews list element old, List.mem_append, List.mem_singleton]
    constructor
    · rintro (kept | rfl)
      · refine Or.inr ⟨kept, Or.inl fun same => old ?_⟩
        exact List.mem_map.mpr ⟨other, kept, same⟩
      · exact Or.inl ⟨rfl, Or.inr old⟩
    · rintro (⟨rfl, -⟩ | ⟨kept, -⟩)
      · exact Or.inr rfl
      · exact Or.inl kept

variable (renews) in
theorem distinct_enterAll (elements list : List Element) (distinct : DistinctKeys key list) :
    DistinctKeys key (enterAll key renews elements list) := by
  induction elements generalizing list with
  | nil => exact distinct
  | cons element rest ih => exact ih _ (distinct_enter list distinct element)

variable (renews) in
theorem mem_keys_enterAll (elements list : List Element) (wanted : Key) :
    wanted ∈ (enterAll key renews elements list).map key ↔
      wanted ∈ elements.map key ∨ wanted ∈ list.map key := by
  induction elements generalizing list with
  | nil => simp [enterAll]
  | cons element rest ih =>
      have entered := ih (enter key renews list element)
      rw [enterAll, List.foldl_cons]
      refine entered.trans ?_
      rw [map_key_enter, List.map_cons, List.mem_cons]
      split
      · rename_i old
        constructor
        · rintro (later | kept)
          · exact Or.inl (Or.inr later)
          · exact Or.inr kept
        · rintro ((rfl | later) | kept)
          · exact Or.inr old
          · exact Or.inl later
          · exact Or.inr kept
      · rw [List.mem_append, List.mem_singleton]
        tauto

theorem mem_enterAll_iff (elements list : List Element) (distinct : DistinctKeys key elements)
    (distinctList : DistinctKeys key list) (other : Element) :
    other ∈ enterAll key renews elements list ↔
      (other ∈ elements ∧ (renews (key other) = true ∨ key other ∉ list.map key)) ∨
        (other ∈ list ∧ (key other ∉ elements.map key ∨ renews (key other) = false)) := by
  induction elements generalizing list with
  | nil => simp [enterAll]
  | cons element rest ih =>
      obtain ⟨first, distinctRest⟩ := List.nodup_cons.mp distinct
      have entered := ih (enter key renews list element) distinctRest
        (distinct_enter list distinctList element)
      have keys : key other ∈ (enter key renews list element).map key ↔
          key other = key element ∨ key other ∈ list.map key := by
        simpa [enterAll] using mem_keys_enterAll renews [element] list (key other)
      -- the first element is entered before all others, which have other keys
      have apart : other ∈ rest → key other ≠ key element := fun later same =>
        first (same ▸ List.mem_map.mpr ⟨other, later, rfl⟩)
      have last : other = element → key other ∉ rest.map key := fun same => same ▸ first
      rw [enterAll, List.foldl_cons]
      refine entered.trans ?_
      rw [mem_enter_iff list distinctList, keys, List.mem_cons, List.map_cons, List.mem_cons]
      clear entered keys ih
      generalize (other ∈ rest) = later at *
      generalize (key other ∈ rest.map key) = laterKey at *
      generalize (key other ∈ list.map key) = oldKey
      generalize (other ∈ list) = old
      cases renews (key other) with
      | true =>
          simp only [true_or, and_true, Bool.true_eq_false, or_false]
          tauto
      | false =>
          simp only [Bool.false_eq_true, false_or, or_true, and_true]
          tauto

variable (renews) in
theorem enterAll_perm (elements first second : List Element)
    (distinct : DistinctKeys key elements) (distinctFirst : DistinctKeys key first)
    (reordered : second.Perm first) :
    (enterAll key renews elements second).Perm (enterAll key renews elements first) := by
  have distinctSecond := distinctFirst.perm reordered
  apply (List.perm_ext_iff_of_nodup (distinct_enterAll renews elements second distinctSecond).nodup
    (distinct_enterAll renews elements first distinctFirst).nodup).mpr
  intro other
  rw [mem_enterAll_iff elements second distinct distinctSecond,
    mem_enterAll_iff elements first distinct distinctFirst, reordered.mem_iff,
    (reordered.map key).mem_iff]

/-- Entering the union of two lists is entering one after the other, in any order of the union. -/
theorem enterAll_union_perm (later earlier union list : List Element)
    (distinctLater : DistinctKeys key later) (distinctEarlier : DistinctKeys key earlier)
    (distinctList : DistinctKeys key list)
    (reordered : union.Perm (enterAll key renews later earlier)) :
    (enterAll key renews union list).Perm
      (enterAll key renews later (enterAll key renews earlier list)) := by
  have distinctUnion : DistinctKeys key union :=
    (distinct_enterAll renews later earlier distinctEarlier).perm reordered
  have distinctFirst := distinct_enterAll renews earlier list distinctList
  apply (List.perm_ext_iff_of_nodup (distinct_enterAll renews union list distinctList).nodup
    (distinct_enterAll renews later _ distinctFirst).nodup).mpr
  intro other
  rw [mem_enterAll_iff union list distinctUnion distinctList,
    mem_enterAll_iff later _ distinctLater distinctFirst,
    mem_enterAll_iff earlier list distinctEarlier distinctList, reordered.mem_iff,
    mem_enterAll_iff later earlier distinctLater distinctEarlier, (reordered.map key).mem_iff,
    mem_keys_enterAll, mem_keys_enterAll]
  cases renews (key other) <;> simp <;> tauto

theorem enterAll_subset (elements list : List Element) :
    enterAll key renews elements list ⊆ list ++ elements := by
  induction elements generalizing list with
  | nil => simp [enterAll]
  | cons element rest ih =>
      intro other member
      have entered : enter key renews list element ⊆ list ++ [element] := by
        unfold enter
        split
        · exact List.Subset.refl _
        · split
          · exact fun other member => List.mem_append.mpr
              ((List.mem_or_eq_of_mem_set member).imp_right List.mem_singleton.mpr)
          · exact List.subset_append_left _ _
      rcases List.mem_append.mp (ih _ member) with early | later
      · rcases List.mem_append.mp (entered early) with old | new
        · exact List.mem_append_left _ old
        · rw [List.mem_singleton.mp new]
          simp
      · simp [later]

/-- A list of distinct keys enters nothing as it is. -/
theorem enterAll_nil (elements : List Element) (distinct : DistinctKeys key elements) :
    enterAll key renews elements [] = elements := by
  have general : ∀ (rest list : List Element), DistinctKeys key (list ++ rest) →
      enterAll key renews rest list = list ++ rest := by
    intro rest
    induction rest with
    | nil => simp [enterAll]
    | cons element rest ih =>
        intro list distinctBoth
        have new : key element ∉ list.map key := by
          rw [DistinctKeys, List.map_append, List.map_cons, List.nodup_middle] at distinctBoth
          exact fun old => (List.nodup_cons.mp distinctBoth).1 (List.mem_append_left _ old)
        rw [enterAll, List.foldl_cons, enter_new renews list element new]
        rw [List.append_cons] at distinctBoth
        rw [List.append_cons list element rest]
        exact ih _ distinctBoth
  exact general elements [] distinct

end CollectionViewWorkshop.KeyedLists
