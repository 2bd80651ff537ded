import CollectionViewWorkshop.CoreGraphics
import CollectionViewWorkshop.Rounding

/-!
`CalendarCollectionViewLayout` (Calendar/Layout) with its delegate
`CalendarViewController`, and what they use of MTDates. An instant is the exact
number of seconds since some reference date. The calendar says when the day of
an instant starts and which instant is a day later, so a day may have any
length. The attributes, which the source does not compute yet, and the
assertions on the delegate, which implements every method, are left out.
-/

namespace CollectionViewWorkshop.CalendarLayout

open CoreGraphics Rounding

universe u
variable {K : Type u}

/-- `dateFromComponents:` of a day at its first minute, and
`dateByAddingComponents:toDate:options:` of one day. -/
structure NSCalendar (K : Type u) where
  startOfDay : K → K
  dateByAddingDay : K → K

structure CalendarEventsProvider (K : Type u) where
  displayedDay : K

structure CalendarCollectionViewLayout (K : Type u) where
  startOfDisplayedDay : K
  endOfDisplayedDay : K
  beadViewDate : K

def startOfCurrentDay (calendar : NSCalendar K) (date : K) : K :=
  calendar.startOfDay date

def initWithDisplayedDay (calendar : NSCalendar K) (displayedDay : K) :
    CalendarEventsProvider K :=
  ⟨startOfCurrentDay calendar displayedDay⟩

variable [Field K]

/-- One day and minus one second after the start; the calendar adds the day first. -/
def endOfCurrentDay (calendar : NSCalendar K) (date : K) : K :=
  calendar.dateByAddingDay (startOfCurrentDay calendar date) - 1

def startOfDisplayedDate (calendar : NSCalendar K) (provider : CalendarEventsProvider K) : K :=
  startOfCurrentDay calendar provider.displayedDay

def endOfDisplayedDate (calendar : NSCalendar K) (provider : CalendarEventsProvider K) : K :=
  endOfCurrentDay calendar provider.displayedDay

def prepareLayout (calendar : NSCalendar K) (provider : CalendarEventsProvider K) (now : K) :
    CalendarCollectionViewLayout K where
  startOfDisplayedDay := startOfDisplayedDate calendar provider
  endOfDisplayedDay := endOfDisplayedDate calendar provider
  beadViewDate := now

variable [LinearOrder K] [FloorRing K]

def hoursUntilDate (date later : K) : ℤ :=
  truncate ((later - date) / 3600)

def minutesUntilDate (date later : K) : ℤ :=
  truncate ((later - date) / 60)

/-- In `calculateSeparatorsLayoutAttributes`, which makes no attributes of it yet. -/
def numberOfFullHours (layout : CalendarCollectionViewLayout K) : ℤ :=
  hoursUntilDate layout.startOfDisplayedDay layout.endOfDisplayedDay + 1

/-- The layout it inherits from answers the zero size. -/
def collectionViewContentSize (layout : CalendarCollectionViewLayout K) : CGSize K :=
  { CGSize.zero with
    height := minutesUntilDate layout.startOfDisplayedDay layout.endOfDisplayedDay }

structure WithinDay (layout : CalendarCollectionViewLayout K) (hours : ℕ)
    (startDate endDate : K) : Prop where
  starts : layout.startOfDisplayedDay ≤ startDate
  ordered : startDate ≤ endDate
  ends : endDate ≤ layout.startOfDisplayedDay + hours * 3600

/-- At one point per minute the event ends inside the content. -/
def EndsInside (layout : CalendarCollectionViewLayout K) (endDate : K) : Prop :=
  (endDate - layout.startOfDisplayedDay) / 60 ≤ (collectionViewContentSize layout).height

structure CoversDay (layout : CalendarCollectionViewLayout K) (hours : ℕ) : Prop where
  fullHours : (collectionViewContentSize layout).height = 60 * numberOfFullHours layout
  events : ∀ startDate endDate, WithinDay layout hours startDate endDate →
    EndsInside layout endDate

variable [IsStrictOrderedRing K]

/-- Truncation drops the hour and the minute the last second is missing from,
and only the hour is added again. -/
theorem content_of_day (calendar : NSCalendar K) (provider : CalendarEventsProvider K) (now : K)
    (hours : ℕ) (someHours : 1 ≤ hours)
    (nextDay : calendar.dateByAddingDay (startOfDisplayedDate calendar provider) =
      startOfDisplayedDate calendar provider + hours * 3600) :
    numberOfFullHours (prepareLayout calendar provider now) = hours ∧
      (collectionViewContentSize (prepareLayout calendar provider now)).height =
        60 * hours - 1 := by
  have length : endOfDisplayedDate calendar provider - startOfDisplayedDate calendar provider =
      hours * 3600 - 1 := by
    simp only [startOfDisplayedDate] at nextDay
    rw [endOfDisplayedDate, endOfCurrentDay, nextDay, startOfDisplayedDate]
    ring
  constructor
  · have counted := truncate_just_below (3600 : K) 1 hours someHours one_pos (by norm_num)
    simp only [numberOfFullHours, hoursUntilDate, prepareLayout, length, counted]
    ring
  · have inMinutes : (hours : K) * 3600 - 1 = ((60 * hours : ℕ) : K) * 60 - 1 := by
      push_cast
      ring
    have counted := truncate_just_below (60 : K) 1 (60 * hours) (by omega) one_pos (by norm_num)
    simp only [collectionViewContentSize, minutesUntilDate, prepareLayout, length, inMinutes,
      counted]
    push_cast
    ring

/-- The content is a minute short of every day: it never covers its full hours,
and an event ends inside exactly if it ends a minute before the day does. -/
theorem day_never_covered (calendar : NSCalendar K) (provider : CalendarEventsProvider K)
    (now : K) (hours : ℕ) (someHours : 1 ≤ hours)
    (nextDay : calendar.dateByAddingDay (startOfDisplayedDate calendar provider) =
      startOfDisplayedDate calendar provider + hours * 3600) :
    let layout := prepareLayout calendar provider now
    ¬ CoversDay layout hours ∧
      (collectionViewContentSize layout).height + 1 = 60 * numberOfFullHours layout ∧
      ∀ startDate endDate, WithinDay layout hours startDate endDate →
        (EndsInside layout endDate ↔
          endDate ≤ layout.startOfDisplayedDay + hours * 3600 - 60) := by
  intro layout
  obtain ⟨full, height⟩ := content_of_day calendar provider now hours someHours nextDay
  have short : (collectionViewContentSize layout).height + 1 = 60 * numberOfFullHours layout := by
    rw [height, full, Int.cast_natCast]
    ring
  refine ⟨?_, short, ?_⟩
  · intro covers
    have same := covers.fullHours
    linarith
  · intro startDate endDate _
    rw [EndsInside, height, div_le_iff₀ (by norm_num)]
    constructor
    · intro inside
      linarith
    · intro before
      linarith

def daysOf24Hours : NSCalendar ℚ := ⟨fun date => ⌊date / 86400⌋ * 86400, fun date => date + 86400⟩

theorem day_never_covered_24_hours :
    ¬ CoversDay (prepareLayout daysOf24Hours (initWithDisplayedDay daysOf24Hours 1000) 1000) 24 :=
  (day_never_covered daysOf24Hours (initWithDisplayedDay daysOf24Hours 1000) 1000 24 (by decide)
    (by simp only [daysOf24Hours]; norm_num)).1

/-- The last minute of the day is outside, and an event up to midnight ends there. -/
theorem day_of_24_hours_short :
    let layout := prepareLayout daysOf24Hours (initWithDisplayedDay daysOf24Hours 0) 0
    (collectionViewContentSize layout).height = 1439 ∧ numberOfFullHours layout = 24 ∧
      WithinDay layout 24 82800 86400 ∧ ¬ EndsInside layout 86400 ∧ ¬ CoversDay layout 24 := by
  intro layout
  have height : (collectionViewContentSize layout).height = 1439 := by decide +kernel
  have full : numberOfFullHours layout = 24 := by decide +kernel
  have starts : layout.startOfDisplayedDay = 0 := by decide +kernel
  have within : WithinDay layout 24 82800 86400 := by
    constructor
    · rw [starts]
      norm_num
    · norm_num
    · rw [starts]
      norm_num
  have outside : ¬ EndsInside layout 86400 := by
    rw [EndsInside, height, starts]
    norm_num
  exact ⟨height, full, within, outside, fun covers => outside (covers.events _ _ within)⟩

end CollectionViewWorkshop.CalendarLayout
