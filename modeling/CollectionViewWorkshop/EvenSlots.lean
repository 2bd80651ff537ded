import CollectionViewWorkshop.Rounding
import Mathlib.Order.Interval.Set.Basic

/-!
A line cut into half-open slots of one pitch, numbered by the integers from an
origin. The slots an open interval meets are those from the floor of its lower
end, counted in pitches, up to the ceiling of its upper end.
-/

namespace CollectionViewWorkshop.EvenSlots

open Rounding

universe u
variable {K : Type u}

/-- Neither interval is empty, so they meet unless one ends before the other. -/
theorem Ico_meets_Ioo_iff [LinearOrder K] [DenselyOrdered K] (start stop low high : K)
    (wide : start < stop) (between : low < high) :
    (Set.Ico start stop ∩ Set.Ioo low high).Nonempty ↔ start < high ∧ low < stop := by
  constructor
  · rintro ⟨point, ⟨started, notStopped⟩, above, below⟩
    exact ⟨started.trans_lt below, above.trans notStopped⟩
  · rintro ⟨startsBefore, stopsAfter⟩
    obtain ⟨point, above, below⟩ := exists_between
      (max_lt (lt_min wide startsBefore) (lt_min stopsAfter between))
    rw [max_lt_iff] at above
    rw [lt_min_iff] at below
    exact ⟨point, ⟨above.1.le, below.1⟩, above.2, below.2⟩

variable [Field K] [LinearOrder K] [IsStrictOrderedRing K]

def slot (origin pitch : K) (index : ℤ) : Set K :=
  Set.Ico (origin + index * pitch) (origin + (index + 1) * pitch)

theorem slot_meets_iff [FloorRing K] (origin pitch low high : K) (index : ℤ)
    (positive : 0 < pitch) (between : low < high) :
    (slot origin pitch index ∩ Set.Ioo low high).Nonempty ↔
      ⌊(low - origin) / pitch⌋ ≤ index ∧ index < ⌈(high - origin) / pitch⌉ := by
  have wide : origin + index * pitch < origin + (index + 1) * pitch := by linarith
  rw [slot, Ico_meets_Ioo_iff _ _ low high wide between, and_comm,
    floor_pitches_le_iff origin pitch low index positive,
    lt_ceil_pitches_iff origin pitch high index positive]

end CollectionViewWorkshop.EvenSlots
