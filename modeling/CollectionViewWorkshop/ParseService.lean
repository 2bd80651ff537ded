import CollectionViewWorkshop.StreamItemTransformer
import Mathlib.Data.List.Perm.Subperm

/-!
The part of Parse the stream relies on: an append-only store that numbers its
objects, and the answers a query may get. `savedFrom` names the created item
an object was encoded from and is none for the objects of other clients; the
service knows nothing of it. An answer lists stored objects of the query's
class, each once and in any order, up to the limit that `PFQuery.h` documents.
-/

namespace CollectionViewWorkshop.ParseService

open StreamItemTransformer

structure StoredObject where
  objectId : ℕ
  savedFrom : Option ℕ
  object : PFObject
  deriving DecidableEq

structure Store where
  objects : List StoredObject
  numbered : objects.map StoredObject.objectId = List.range objects.length

def Store.empty : Store := ⟨[], rfl⟩

-- Nothing the stream does changes or removes a stored object.
def Store.save (store : Store) (savedFrom : Option ℕ) (object : PFObject) : Store where
  objects := store.objects ++ [⟨store.objects.length, savedFrom, object⟩]
  numbered := by simp [store.numbered, List.range_succ]

theorem Store.mem_save_iff (store : Store) (savedFrom : Option ℕ) (object : PFObject)
    (stored : StoredObject) :
    stored ∈ (store.save savedFrom object).objects ↔
      stored ∈ store.objects ∨ stored = ⟨store.objects.length, savedFrom, object⟩ := by
  simp [Store.save]

theorem Store.subset_save (store : Store) (savedFrom : Option ℕ) (object : PFObject) :
    store.objects ⊆ (store.save savedFrom object).objects :=
  fun stored member => (store.mem_save_iff savedFrom object stored).mpr (Or.inl member)

theorem Store.ids_nodup (store : Store) : (store.objects.map StoredObject.objectId).Nodup := by
  rw [store.numbered]
  exact List.nodup_range

theorem Store.nodup (store : Store) : store.objects.Nodup :=
  store.ids_nodup.of_map

structure PFQuery where
  className : NSString
  limit : ℤ
  skip : ℕ
  deriving DecidableEq

-- No limit is set and nothing is skipped.
def PFQuery.queryWithClassName (className : NSString) : PFQuery := ⟨className, -1, 0⟩

/-- A negative limit is one that was not set. -/
def PFQuery.bound (query : PFQuery) : ℕ :=
  if query.limit < 0 then 100 else min query.limit.toNat 1000

def Store.matching (store : Store) (query : PFQuery) : List StoredObject :=
  store.objects.filter fun stored => stored.object.className = query.className

def Answers (store : Store) (query : PFQuery) (objects : List StoredObject) : Prop :=
  objects.Nodup ∧ objects ⊆ store.matching query ∧
    objects.length = min query.bound ((store.matching query).length - query.skip)

instance (store : Store) (query : PFQuery) (objects : List StoredObject) :
    Decidable (Answers store query objects) :=
  inferInstanceAs (Decidable (_ ∧ (_ ∧ _)))

theorem Store.matching_nodup (store : Store) (query : PFQuery) :
    (store.matching query).Nodup :=
  store.nodup.filter _

theorem answers_subset (store : Store) (query : PFQuery) (objects : List StoredObject)
    (answered : Answers store query objects) : objects ⊆ store.objects := by
  intro stored member
  exact (List.mem_filter.mp (answered.2.1 member)).1

theorem answer_complete_iff (store : Store) (query : PFQuery) (objects : List StoredObject)
    (answered : Answers store query objects) :
    objects.Perm (store.matching query) ↔
      (store.matching query).length ≤ query.bound ∧
        (query.skip = 0 ∨ (store.matching query).length = 0) := by
  obtain ⟨once, inside, length⟩ := answered
  have exactly : objects.Perm (store.matching query) ↔
      (store.matching query).length ≤ objects.length :=
    ⟨fun same => same.length_eq.ge, fun long => (once.subperm inside).perm_of_length_le long⟩
  rw [exactly, length]
  omega

theorem answer_exists (store : Store) (query : PFQuery) :
    ∃ objects, Answers store query objects := by
  have window := ((List.take_sublist query.bound _).trans
    (List.drop_sublist query.skip (store.matching query)))
  refine ⟨((store.matching query).drop query.skip).take query.bound,
    (store.matching_nodup query).sublist window, window.subset, ?_⟩
  simp

end CollectionViewWorkshop.ParseService
