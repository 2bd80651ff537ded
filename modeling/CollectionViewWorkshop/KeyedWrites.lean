import Mathlib.Data.List.AList

/-!
Going through a table of edits and writing a dictionary at the key of each.
What is written may depend on what the dictionary holds there, may be nothing,
in which case the key goes, and may fail, in which case the writes already made
stay. A result read at a key depends on that key alone, so neither table's
order shows in it.
-/

namespace CollectionViewWorkshop.KeyedWrites

universe u v w x
variable {Key : Type u} {Value : Type v} {Edit : Type w} {Failure : Type x} [DecidableEq Key]

abbrev Dictionary (Key : Type u) (Value : Type v) := AList fun _ : Key => Value

def put (key : Key) (value : Option Value) (dictionary : Dictionary Key Value) :
    Dictionary Key Value :=
  match value with
  | some value => dictionary.insert key value
  | none => dictionary.erase key

def writeEach (write : Edit → Option Value → Except Failure (Option Value)) :
    List (Σ _ : Key, Edit) → Dictionary Key Value → Dictionary Key Value × Option Failure
  | [], dictionary => (dictionary, none)
  | ⟨key, edit⟩ :: rest, dictionary =>
      match write edit (dictionary.lookup key) with
      | .error failure => (dictionary, some failure)
      | .ok value => writeEach write rest (put key value dictionary)

def writeAll (write : Edit → Option Value → Except Failure (Option Value))
    (edits : Dictionary Key Edit) (dictionary : Dictionary Key Value) :
    Dictionary Key Value × Option Failure :=
  writeEach write edits.entries dictionary

def writeAt (write : Edit → Option Value → Except Failure (Option Value))
    (edit : Option Edit) (value : Option Value) : Except Failure (Option Value) :=
  match edit with
  | some edit => write edit value
  | none => .ok value

@[simp] theorem writeAt_none (write : Edit → Option Value → Except Failure (Option Value))
    (value : Option Value) : writeAt write none value = .ok value := rfl

@[simp] theorem writeAt_some (write : Edit → Option Value → Except Failure (Option Value))
    (edit : Edit) (value : Option Value) : writeAt write (some edit) value = write edit value :=
  rfl

@[simp] theorem lookup_put_self (key : Key) (value : Option Value)
    (dictionary : Dictionary Key Value) : (put key value dictionary).lookup key = value := by
  cases value <;> simp [put]

@[simp] theorem lookup_put_of_ne (key other : Key) (value : Option Value)
    (dictionary : Dictionary Key Value) (different : other ≠ key) :
    (put key value dictionary).lookup other = dictionary.lookup other := by
  cases value <;> simp [put, AList.lookup_erase_ne, AList.lookup_insert_ne, different]

theorem lookup_union (first second : Dictionary Key Value) (key : Key) :
    (first ∪ second).lookup key = (first.lookup key).or (second.lookup key) := by
  cases found : first.lookup key with
  | some value => exact AList.mem_lookup_union.mpr (Or.inl found)
  | none =>
      rw [AList.lookup_union_right (AList.lookup_eq_none.mp found)]
      rfl

theorem lookup_erased (keys : List Key) (dictionary : Dictionary Key Value) (key : Key) :
    (keys.foldl (fun data key => data.erase key) dictionary).lookup key =
      if key ∈ keys then none else dictionary.lookup key := by
  induction keys generalizing dictionary with
  | nil => simp
  | cons first rest ih =>
      rw [List.foldl_cons, ih]
      by_cases same : key = first
      · subst same
        simp
      · simp [same]

variable (write : Edit → Option Value → Except Failure (Option Value))

theorem writeEach_spec (entries : List (Σ _ : Key, Edit)) (distinct : entries.NodupKeys)
    (dictionary : Dictionary Key Value) (done : (writeEach write entries dictionary).2 = none)
    (key : Key) :
    writeAt write (entries.dlookup key) (dictionary.lookup key) =
      .ok ((writeEach write entries dictionary).1.lookup key) := by
  induction entries generalizing dictionary with
  | nil => simp [writeEach]
  | cons entry rest ih =>
      obtain ⟨name, edit⟩ := entry
      obtain ⟨absent, distinctRest⟩ := List.nodupKeys_cons.mp distinct
      cases written : write edit (dictionary.lookup name) with
      | error failure => simp [writeEach, written] at done
      | ok value =>
          simp only [writeEach, written] at done ⊢
          have rest := ih distinctRest (put name value dictionary) done
          by_cases same : key = name
          · -- the rest of the table has no edit of this key left
            subst same
            rw [List.dlookup_eq_none.mpr absent, lookup_put_self] at rest
            rw [List.dlookup_cons_eq, writeAt_some, written]
            exact rest
          · rw [lookup_put_of_ne name key value dictionary same] at rest
            rw [List.dlookup_cons_ne _ _ same]
            exact rest

theorem writeEach_done_iff (entries : List (Σ _ : Key, Edit)) (distinct : entries.NodupKeys)
    (dictionary : Dictionary Key Value) :
    (writeEach write entries dictionary).2 = none ↔
      ∀ key, ∃ value, writeAt write (entries.dlookup key) (dictionary.lookup key) = .ok value := by
  constructor
  · intro done key
    exact ⟨_, writeEach_spec write entries distinct dictionary done key⟩
  · intro all
    induction entries generalizing dictionary with
    | nil => rfl
    | cons entry rest ih =>
        obtain ⟨name, edit⟩ := entry
        obtain ⟨absent, distinctRest⟩ := List.nodupKeys_cons.mp distinct
        obtain ⟨value, written⟩ := all name
        rw [List.dlookup_cons_eq, writeAt_some] at written
        simp only [writeEach, written]
        apply ih distinctRest
        intro key
        by_cases same : key = name
        · subst same
          exact ⟨value, by rw [List.dlookup_eq_none.mpr absent, lookup_put_self]; rfl⟩
        · obtain ⟨later, found⟩ := all key
          rw [List.dlookup_cons_ne _ _ same] at found
          exact ⟨later, by rw [lookup_put_of_ne name key value dictionary same]; exact found⟩

/-- A table gone through to its end has written at every key what its edit makes there. -/
theorem writeAll_spec (edits : Dictionary Key Edit) (dictionary : Dictionary Key Value)
    (done : (writeAll write edits dictionary).2 = none) (key : Key) :
    writeAt write (edits.lookup key) (dictionary.lookup key) =
      .ok ((writeAll write edits dictionary).1.lookup key) :=
  writeEach_spec write edits.entries edits.nodupKeys dictionary done key

theorem writeAll_done_iff (edits : Dictionary Key Edit) (dictionary : Dictionary Key Value) :
    (writeAll write edits dictionary).2 = none ↔
      ∀ key, ∃ value, writeAt write (edits.lookup key) (dictionary.lookup key) = .ok value :=
  writeEach_done_iff write edits.entries edits.nodupKeys dictionary

end CollectionViewWorkshop.KeyedWrites
