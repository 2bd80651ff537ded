import CollectionViewWorkshop.PhotoStreamInvariants
import Mathlib.Data.List.Forall2

/-!
What the end of a download does to the list. A delivered result replaces it by
the items decoded from one snapshot, whatever was delivered before; a failed
one replaces it by nothing; and a snapshot holds no more objects than the query
returns.
-/

namespace CollectionViewWorkshop.Refreshes

open ObjectiveC ParseService PartialRuns PhotoStream PhotoStreamInvariants RequestTable
open Rounding StreamItemTransformer

/-! No delivered snapshot is newer than the one the list is based on. -/

/-- The items created since the list was last replaced, in turn. -/
def createdSince (world : World) : List ItemRef :=
  (world.created.zipIdx.drop world.createdBefore).map fun made => ⟨.created made.2, made.1⟩

/-- The list is the items of the snapshot, followed by those created since. -/
def BasedOn (world : World) (base : Snapshot) : Prop :=
  world.createdBefore ≤ world.created.length ∧
    world.controller.streamItems = some (base.objects.map decodedItem ++ createdSince world)

/-- After a failed download the list may be based on no snapshot at all. -/
structure NewestShown (world : World) : Prop where
  based : ∀ base, world.basis = some base → BasedOn world base
  newest : ∀ download ∈ world.downloads, ∀ snapshot, download.phase = .delivered snapshot →
    (∃ base, world.basis = some base ∧ snapshot.time ≤ base.time) ∨
      (world.basis = none ∧ ∃ failed ∈ world.downloads, failed.phase = .failed)

/-- A result is delivered only if no result delivered before it is newer. -/
def DeliversNewest (_ : List Event) (world : World) : Event → Prop
  | .deliver request =>
      ∀ download snapshot, world.downloads[request]? = some download →
        download.phase = .answered snapshot →
          ∀ earlier ∈ world.downloads, ∀ old, earlier.phase = .delivered old →
            old.time ≤ snapshot.time
  | _ => True

theorem createdSince_appended (item : StreamItem) (world : World)
    (counted : world.createdBefore ≤ world.created.length) :
    createdSince (appended item world) =
      createdSince world ++ [⟨.created world.created.length, item⟩] := by
  have inside : world.createdBefore ≤ world.created.zipIdx.length := by
    rwa [List.length_zipIdx]
  simp only [createdSince, appended, List.zipIdx_append, Nat.zero_add]
  rw [List.drop_append_of_le_length inside]
  simp

theorem basedOn_appended (item : StreamItem) (world : World) (base : Snapshot)
    (based : BasedOn world base) : BasedOn (appended item world) base := by
  obtain ⟨counted, isList⟩ := based
  constructor
  · simp only [appended, List.length_append]
    omega
  · rw [createdSince_appended item world counted]
    simp [appended, isList]

theorem basedOn_delivered (request : ℕ) (download : Download) (snapshot : Snapshot)
    (world : World) : BasedOn (deliver request download snapshot world) snapshot := by
  constructor
  · exact Nat.le_refl world.created.length
  · rw [deliver_streamItems]
    simp [createdSince, deliver, setDownload, List.drop_eq_nil_of_le]

theorem newestShown_appended (item : StreamItem) (world : World) (law : NewestShown world) :
    NewestShown (appended item world) where
  based base isBase := basedOn_appended item world base (law.based base isBase)
  newest := law.newest

theorem newestShown_asked (trigger : Trigger) (world : World) (law : NewestShown world) :
    NewestShown (downloadStreamItems trigger world) where
  based := law.based
  newest := by
    apply all_entered
    · intro download member snapshot delivered
      rcases law.newest download member snapshot delivered with
        base | ⟨lost, failed, inside, phase⟩
      · exact Or.inl base
      · exact Or.inr ⟨lost, failed, List.mem_append_left _ inside, phase⟩
    · rintro snapshot ⟨⟩

theorem newestShown_answered (request : ℕ) (download : Download) (snapshot : Snapshot)
    (world : World) (found : world.downloads[request]? = some download)
    (waiting : download.phase = .waiting) (law : NewestShown world) :
    NewestShown (setDownload request download (.answered snapshot) world) where
  based := law.based
  newest := by
    apply all_settled
    · intro other member old delivered
      rcases law.newest other member old delivered with base | ⟨lost, failed⟩
      · exact Or.inl base
      · refine Or.inr ⟨lost, some_settled _ world.downloads request download _ found failed ?_⟩
        intro phase
        rw [waiting] at phase
        cases phase
    · rintro old ⟨⟩

theorem newestShown_failed (request : ℕ) (download : Download) (error : NSError)
    (world : World) (found : world.downloads[request]? = some download) :
    NewestShown (deliverError request download error world) where
  based := by
    rintro base ⟨⟩
  newest _ _ _ _ := Or.inr ⟨rfl, _, settled_mem world.downloads request download _ found, rfl⟩

theorem newestShown_delivered_iff (request : ℕ) (download : Download) (snapshot : Snapshot)
    (world : World) (found : world.downloads[request]? = some download)
    (answered : download.phase = .answered snapshot) :
    NewestShown (deliver request download snapshot world) ↔
      ∀ earlier ∈ world.downloads, ∀ old, earlier.phase = .delivered old →
        old.time ≤ snapshot.time := by
  constructor
  · intro law earlier member old delivered
    -- the request being delivered was not delivered before, so `earlier` is another
    obtain ⟨other, stillThere, phase⟩ := some_settled (fun other => other.phase = .delivered old)
      world.downloads request download { download with phase := .delivered snapshot } found
      ⟨earlier, member, delivered⟩ (by rw [answered]; rintro ⟨⟩)
    rcases law.newest other stillThere old phase with ⟨base, isBase, newer⟩ | ⟨lost, -⟩
    · cases isBase
      exact newer
    · cases lost
  · intro newest
    constructor
    · rintro base ⟨⟩
      exact basedOn_delivered request download snapshot world
    · apply all_settled
      · intro earlier member old delivered
        exact Or.inl ⟨snapshot, rfl, newest earlier member old delivered⟩
      · rintro old ⟨⟩
        exact Or.inl ⟨snapshot, rfl, Nat.le_refl _⟩

theorem newestShown_step (events : List Event) (event : Event) (before after : World)
    (_ : machine.Reaches events before) (law : NewestShown before)
    (taken : machine.step before event = some after) :
    NewestShown after ↔ DeliversNewest events before event := by
  cases step_taken before after event taken with
  | viewDidLoad => exact iff_of_true (newestShown_asked .viewDidLoad before law) trivial
  | didPullToRefresh =>
      exact iff_of_true (newestShown_asked .didPullToRefresh
        { before with controller := { before.controller with refreshing := true } }
        ⟨law.based, law.newest⟩) trivial
  | answer request objects download found waiting =>
      exact iff_of_true (newestShown_answered request download _ before found waiting law) trivial
  | deliver request download snapshot found answered =>
      rw [newestShown_delivered_iff request download snapshot before found answered]
      constructor
      · intro newest other otherSnapshot otherFound otherAnswered
        cases found.symm.trans otherFound
        cases answered.symm.trans otherAnswered
        exact newest
      · intro newest
        exact newest download snapshot found answered
  | deliverError request error download found =>
      exact iff_of_true (newestShown_failed request download error before found) trivial
  | appended made => exact iff_of_true (newestShown_appended made before law) trivial
  | started made object =>
      have kept := newestShown_appended made before law
      exact iff_of_true ⟨kept.based, kept.newest⟩ trivial
  | refused => exact iff_of_true law trivial
  | commit => exact iff_of_true ⟨law.based, law.newest⟩ trivial
  | reportSuccess => exact iff_of_true ⟨law.based, law.newest⟩ trivial
  | reportFailure => exact iff_of_true ⟨law.based, law.newest⟩ trivial
  | otherClientSaves => exact iff_of_true ⟨law.based, law.newest⟩ trivial
  | tick => exact iff_of_true ⟨law.based, law.newest⟩ trivial

/-- The list never goes back to an older snapshot in any state of a run exactly
when no delivery of the run does. -/
theorem never_older_iff (events : List Event) :
    machine.Throughout NewestShown events ↔ machine.EachStep DeliversNewest events := by
  apply throughout_iff_eachStep machine NewestShown DeliversNewest _ newestShown_step
  constructor
  · rintro base ⟨⟩
  · simp [machine]

/-- Two downloads overlap and the first one is delivered last. -/
def overtaken : List Event :=
  [.viewDidLoad, .didPullToRefresh, .answer 0 [], .tick, .answer 1 [], .deliver 1, .deliver 0]

theorem overtaken_download_goes_back :
    ∃ world, machine.Reaches overtaken world ∧ world.basis = some ⟨0, []⟩ ∧
      (∃ download ∈ world.downloads, download.phase = .delivered ⟨1, []⟩) ∧
        ¬ NewestShown world := by
  refine ⟨_, rfl, rfl, ⟨_, List.mem_of_getElem? (i := 1) rfl, rfl⟩, ?_⟩
  intro law
  rcases law.newest _ (List.mem_of_getElem? (i := 1) rfl) ⟨1, []⟩ rfl with
    ⟨base, isBase, newer⟩ | ⟨lost, -⟩
  · cases isBase
    exact absurd newer (by decide)
  · cases lost

/-! What is left of the list after a failed download. -/

/-- A failed download leaves the list as it was exactly when it was empty, and
its elements as they were exactly when there were none. -/
theorem failed_download_keeps_iff (request : ℕ) (error : NSError) (before after : World)
    (taken : machine.step before (.deliverError request error) = some after) :
    (after.controller.streamItems = before.controller.streamItems ↔
        before.controller.streamItems = some []) ∧
      (after.controller.streamItems.getD [] = before.controller.streamItems.getD [] ↔
        before.controller.streamItems.getD [] = []) := by
  cases step_taken before after (.deliverError request error) taken with
  | deliverError request error download =>
      rw [deliverError_streamItems, Option.getD_some]
      exact ⟨eq_comm, eq_comm⟩

theorem failed_download_keeps_emptyStream :
    (deliverError 1 ⟨.didPullToRefresh, PFQuery.queryWithClassName StreamItem.className, .waiting⟩
        ⟨100⟩ (didPullToRefresh emptyStream)).controller.streamItems = some [] :=
  (failed_download_keeps_iff 1 ⟨100⟩ (didPullToRefresh emptyStream) _ rfl).1.mpr rfl

theorem failed_download_empties_stream :
    ∃ before after,
      machine.Reaches (firstDownload ++ [.didCreateItem (some smallItem), .didPullToRefresh])
        before ∧
      machine.step before (.deliverError 1 ⟨100⟩) = some after ∧
      before.controller.streamItems = some [⟨.created 0, smallItem⟩] ∧
      after.controller.streamItems = some [] :=
  ⟨_, _, rfl, rfl, rfl, rfl⟩

/-! Which of the stored objects a refresh shows. -/

structure ShowsObject (stored : StoredObject) (ref : ItemRef) : Prop where
  origin : ref.origin = .decoded stored
  title : stored.object.objectForKey streamItemTitleKey = ref.item.title.map .string
  data : stored.object.objectForKey streamItemDataKey = ref.item.data.map .data
  width : stored.object.objectForKey streamItemWidthKey = some (.number ref.item.size.width)
  height : stored.object.objectForKey streamItemHeightKey = some (.number ref.item.size.height)

def ShowsWholeStream (controller : Controller) (store : Store) : Prop :=
  ∃ items order, controller.streamItems = some items ∧ order.Perm store.objects ∧
    List.Forall₂ ShowsObject order items

def WrittenByEncoder (store : Store) : Prop :=
  ∀ stored ∈ store.objects, ∃ item, parseObjectFromStreamItem (some item) = .ok stored.object

def SizeFitsFloat (stored : StoredObject) : Prop :=
  ∀ key ∈ [streamItemWidthKey, streamItemHeightKey], ∀ value,
    stored.object.objectForKey key = some (.number value) → FloatHolds value

theorem showsObject_iff (stored : StoredObject) (item : StreamItem)
    (written : parseObjectFromStreamItem (some item) = .ok stored.object) (shown : StoredObject) :
    ShowsObject stored (decodedItem shown) ↔ shown = stored ∧ SizeFitsFloat stored := by
  obtain ⟨data, title, size, -, isEncoded⟩ :=
    (parseObject_ok_iff (some item) stored.object).mp written
  have fits : SizeFitsFloat stored ↔ FloatHolds size.width ∧ FloatHolds size.height := by
    simp [SizeFitsFloat, isEncoded, objectForKey_encoded]
  rw [fits, ← toFloat_eq_iff, ← toFloat_eq_iff]
  constructor
  · rintro ⟨origin, -, -, width, height⟩
    cases origin
    simp only [decodedItem, isEncoded, decode_encoded, objectForKey_encoded, Option.some.injEq,
      PFValue.number.injEq] at width height
    exact ⟨rfl, width.symm, height.symm⟩
  · rintro ⟨rfl, width, height⟩
    constructor <;> simp [decodedItem, decode_encoded, objectForKey_encoded, *]

theorem shows_objects_iff (store : Store) (written : WrittenByEncoder store)
    (order shown : List StoredObject) (inside : order ⊆ store.objects) :
    List.Forall₂ ShowsObject order (shown.map decodedItem) ↔
      order = shown ∧ ∀ stored ∈ order, SizeFitsFloat stored := by
  rw [List.forall₂_map_right_iff]
  induction order generalizing shown with
  | nil => cases shown <;> simp
  | cons stored rest ih =>
      cases shown with
      | nil => simp
      | cons first others =>
          obtain ⟨item, parsed⟩ := written stored (inside (List.mem_cons_self ..))
          rw [List.forall₂_cons, showsObject_iff stored item parsed first,
            ih others fun other member => inside (List.mem_cons_of_mem _ member)]
          simp only [List.cons.injEq, List.forall_mem_cons]
          constructor
          · rintro ⟨⟨rfl, fits⟩, rfl, restFit⟩
            exact ⟨⟨rfl, rfl⟩, fits, restFit⟩
          · rintro ⟨⟨rfl, rfl⟩, fits, restFit⟩
            exact ⟨⟨rfl, fits⟩, rfl, restFit⟩

theorem matching_written (store : Store) (written : WrittenByEncoder store) :
    store.matching (PFQuery.queryWithClassName StreamItem.className) = store.objects := by
  apply List.filter_eq_self.mpr
  intro stored member
  obtain ⟨item, parsed⟩ := written stored member
  obtain ⟨data, title, size, -, isEncoded⟩ :=
    (parseObject_ok_iff (some item) stored.object).mp parsed
  simp [isEncoded, encoded, PFQuery.queryWithClassName]

def startOf : Trigger → Event
  | .viewDidLoad => .viewDidLoad
  | .didPullToRefresh => .didPullToRefresh

def refresh (trigger : Trigger) (request : ℕ) (objects : List StoredObject) : List Event :=
  [startOf trigger, .answer request objects, .deliver request]

theorem refresh_starts (trigger : Trigger) (before : World) :
    ∃ asked, step before (startOf trigger) = some asked ∧
      asked.downloads[before.downloads.length]? =
        some ⟨trigger, PFQuery.queryWithClassName StreamItem.className, .waiting⟩ ∧
      asked.store = before.store := by
  cases trigger <;> exact ⟨_, rfl, by simp [viewDidLoad, didPullToRefresh, downloadStreamItems],
    rfl⟩

/-- A refresh shows what the query answers, and any answer can come. -/
theorem refresh_iff (trigger : Trigger) (objects : List StoredObject) (before : World)
    (shown : Option (List ItemRef)) :
    (∃ after, machine.runFrom before (refresh trigger before.downloads.length objects) =
        some after ∧ after.controller.streamItems = shown) ↔
      Answers before.store (PFQuery.queryWithClassName StreamItem.className) objects ∧
        shown = some (objects.map decodedItem) := by
  obtain ⟨asked, starts, found, store⟩ := refresh_starts trigger before
  have inside := (List.getElem?_eq_some_iff.mp found).1
  rw [← store]
  constructor
  · rintro ⟨after, run, rfl⟩
    simp only [refresh, Machine.runFrom, machine, starts, Option.bind_some,
      Option.bind_eq_some_iff] at run
    obtain ⟨answeredWorld, answer, delivered, deliver, isAfter⟩ := run
    cases isAfter
    cases step_taken asked answeredWorld _ answer with
    | answer request objects download isDownload waiting answered =>
        cases found.symm.trans isDownload
        cases step_taken _ after _ deliver with
        | deliver request other snapshot isOther phase =>
            simp only [setDownload, List.getElem?_set_self inside] at isOther
            cases isOther
            cases phase
            exact ⟨answered, deliver_streamItems ..⟩
  · rintro ⟨answered, rfl⟩
    let snapshot : Snapshot := ⟨asked.clock, objects⟩
    let download : Download :=
      ⟨trigger, PFQuery.queryWithClassName StreamItem.className, .waiting⟩
    have answer := answer_step asked before.downloads.length objects download found rfl answered
    have deliver := deliver_step
      (setDownload before.downloads.length download (.answered snapshot) asked)
      before.downloads.length { download with phase := .answered snapshot } snapshot
      (List.getElem?_set_self inside) rfl
    refine ⟨_, Eq.trans ?_ (congrArg (Option.bind · some) deliver), deliver_streamItems ..⟩
    simp only [refresh, Machine.runFrom, machine, starts, Option.bind_some]
    rw [answer, Option.bind_some]

/-- A refresh shows the whole stream exactly when one answer can hold it and a
float holds every width and height of it. -/
theorem refresh_shows_whole_iff (trigger : Trigger) (objects : List StoredObject)
    (before after : World) (written : WrittenByEncoder before.store)
    (run : machine.runFrom before (refresh trigger before.downloads.length objects) =
      some after) :
    ShowsWholeStream after.controller before.store ↔
      before.store.objects.length ≤ 100 ∧
        ∀ stored ∈ before.store.objects, SizeFitsFloat stored := by
  obtain ⟨answered, isList⟩ := (refresh_iff trigger objects before _).mp ⟨after, run, rfl⟩
  -- the encoder names the class the query asks for, so the limit alone decides
  have complete := answer_complete_iff before.store _ objects answered
  rw [matching_written before.store written] at complete
  have limit : objects.Perm before.store.objects ↔ before.store.objects.length ≤ 100 := by
    rw [complete]
    simp [PFQuery.queryWithClassName, PFQuery.bound]
  rw [← limit]
  constructor
  · rintro ⟨items, order, shown, whole, same⟩
    rw [isList] at shown
    cases shown
    obtain ⟨rfl, fits⟩ := (shows_objects_iff before.store written order objects whole.subset).mp
      same
    exact ⟨whole, fun stored member => fits stored (whole.mem_iff.mpr member)⟩
  · rintro ⟨whole, fits⟩
    refine ⟨_, objects, isList, whole,
      (shows_objects_iff before.store written objects objects whole.subset).mpr ⟨rfl, ?_⟩⟩
    intro stored member
    exact fits stored (whole.subset member)

theorem shown_length (controller : Controller) (store : Store) (items : List ItemRef)
    (isList : controller.streamItems = some items) (whole : ShowsWholeStream controller store) :
    items.length = store.objects.length := by
  obtain ⟨shown, order, isShown, perm, same⟩ := whole
  cases isList.symm.trans isShown
  rw [← same.length_eq, perm.length_eq]

def filled : ℕ → Store
  | 0 => .empty
  | count + 1 => (filled count).save none (encoded [255] "a" ⟨4, 3⟩)

def filledWorld (count : ℕ) : World :=
  { machine.initial with store := filled count, clock := count }

theorem filled_length (count : ℕ) : (filled count).objects.length = count := by
  induction count with
  | zero => rfl
  | succ count ih => simp [filled, Store.save, ih]

theorem filled_objects (count : ℕ) :
    ∀ stored ∈ (filled count).objects, stored.object = encoded [255] "a" ⟨4, 3⟩ := by
  induction count with
  | zero =>
      intro stored member
      cases member
  | succ count ih =>
      intro stored member
      rcases ((filled count).mem_save_iff _ _ stored).mp member with old | new
      · exact ih stored old
      · rw [new]

theorem filled_written (count : ℕ) : WrittenByEncoder (filled count) := by
  intro stored member
  exact ⟨⟨some [255], some "a", ⟨4, 3⟩⟩, by
    rw [parseObject_complete, filled_objects count stored member]⟩

theorem filled_reachable (count : ℕ) : machine.Reachable (filledWorld count) := by
  induction count with
  | zero => exact reachable_initial machine
  | succ count ih =>
      exact reachable_step machine (.otherClientSaves (encoded [255] "a" ⟨4, 3⟩)) _ _ ih rfl

theorem refresh_shows_whole_two :
    ∃ objects after, machine.runFrom (filledWorld 2) (refresh .didPullToRefresh 0 objects) =
      some after ∧ ShowsWholeStream after.controller (filled 2) := by
  obtain ⟨objects, answered⟩ := answer_exists (filled 2)
    (PFQuery.queryWithClassName StreamItem.className)
  obtain ⟨after, run, -⟩ := (refresh_iff .didPullToRefresh objects (filledWorld 2) _).mpr
    ⟨answered, rfl⟩
  refine ⟨objects, after, run, (refresh_shows_whole_iff .didPullToRefresh objects (filledWorld 2)
    after (filled_written 2) run).mpr ⟨?_, ?_⟩⟩
  · exact (filled_length 2).trans_le (by decide)
  · intro stored member key isKey value isValue
    rw [filled_objects 2 stored member] at isValue
    have four := floatHolds_natCast 4 (by norm_num)
    have three := floatHolds_natCast 3 (by norm_num)
    fin_cases isKey
    · simp only [objectForKey_encoded, Option.some.injEq, PFValue.number.injEq] at isValue
      exact isValue ▸ four
    · simp only [objectForKey_encoded, Option.some.injEq, PFValue.number.injEq] at isValue
      exact isValue ▸ three

/-- Of 101 stored photos a refresh leaves one out. -/
theorem refresh_of_101_incomplete :
    machine.Reachable (filledWorld 101) ∧ WrittenByEncoder (filled 101) ∧
      ∃ objects after, machine.runFrom (filledWorld 101) (refresh .viewDidLoad 0 objects) =
        some after ∧ ¬ ShowsWholeStream after.controller (filled 101) := by
  refine ⟨filled_reachable 101, filled_written 101, ?_⟩
  obtain ⟨objects, answered⟩ := answer_exists (filled 101)
    (PFQuery.queryWithClassName StreamItem.className)
  obtain ⟨after, run, isList⟩ := (refresh_iff .viewDidLoad objects (filledWorld 101) _).mpr
    ⟨answered, rfl⟩
  refine ⟨objects, after, run, fun whole => ?_⟩
  have length := shown_length after.controller (filled 101) _ isList whole
  rw [List.length_map, filled_length, answered.2.2] at length
  have limit : (PFQuery.queryWithClassName StreamItem.className).bound = 100 := rfl
  omega

end CollectionViewWorkshop.Refreshes
