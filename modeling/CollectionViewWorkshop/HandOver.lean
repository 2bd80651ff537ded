import CollectionViewWorkshop.PhotoStreamInvariants
import CollectionViewWorkshop.StreamItemCreator

/-!
One call of `streamItemCreator:didCreateItem:` with what the creator delivers.
The item is appended before it is encoded, so a raise of the encoder comes too
late to leave the list as it was.
-/

namespace CollectionViewWorkshop.HandOver

open ImageResizer ObjectiveC ParseService PartialRuns PhotoStream PhotoStreamInvariants
open RequestTable StreamItemTransformer
open StreamItemCreator (obliging pickedItem)

/-! Once a download has completed there is a list. -/

def Completed (download : Download) : Prop :=
  download.phase.outstanding = false

def ListPresent (downloads : List Download) (controller : Controller) : Prop :=
  ∀ download ∈ downloads, Completed download → controller.streamItems.isSome

theorem listPresent_asked (downloads : List Download) (controller after : Controller)
    (trigger : Trigger) (query : PFQuery) (held : ListPresent downloads controller)
    (same : after.streamItems = controller.streamItems) :
    ListPresent (downloads ++ [⟨trigger, query, .waiting⟩]) after := by
  rw [ListPresent, same]
  apply all_entered _ downloads _ held
  rintro ⟨⟩

theorem listPresent_step (event : Event) (before after : World)
    (held : ListPresent before.downloads before.controller)
    (taken : step before event = some after) :
    ListPresent after.downloads after.controller := by
  cases step_taken before after event taken with
  | viewDidLoad => exact listPresent_asked before.downloads before.controller _ _ _ held rfl
  | didPullToRefresh => exact listPresent_asked before.downloads before.controller _ _ _ held rfl
  | answer request objects download =>
      apply all_settled _ before.downloads request _ held
      rintro ⟨⟩
  | deliver request download snapshot =>
      intro other member completed
      rw [deliver_streamItems]
      rfl
  | deliverError request error download =>
      intro other member completed
      rw [deliverError_streamItems]
      rfl
  | appended made =>
      intro download member completed
      simpa [appended] using held download member completed
  | started made object =>
      intro download member completed
      simpa [started, appended] using held download member completed
  | refused => exact held
  | commit => exact held
  | reportSuccess => exact held
  | reportFailure => exact held
  | otherClientSaves => exact held
  | tick => exact held

theorem list_present (world : World) (reached : machine.Reachable world) :
    ListPresent world.downloads world.controller :=
  reachable_invariant machine (fun world => ListPresent world.downloads world.controller)
    (by simp [machine, ListPresent]) listPresent_step world reached

def TakenOver (item : Option StreamItem) (before after : World) : Prop :=
  ∃ made items object, item = some made ∧ before.controller.streamItems = some items ∧
    parseObjectFromStreamItem (some made) = .ok object ∧
    after.controller.streamItems =
      some (items ++ [⟨.created before.created.length, made⟩]) ∧
    after.uploads = before.uploads ++
      [⟨⟨.created before.created.length, made⟩, object, false, none⟩]

/-- The call does everything, or raises and leaves the list as it was. -/
def AllOrNothing (item : Option StreamItem) (world : World) : Prop :=
  match handOver item world with
  | .returned after => TakenOver item world after
  | .raised _ after => after.controller.streamItems = world.controller.streamItems

theorem allOrNothing_nil (world : World) : AllOrNothing none world := by
  obtain ⟨exception, raised⟩ := handOver_nil world
  simp [AllOrNothing, raised]

theorem allOrNothing_complete (made : StreamItem) (world : World) (items : List ItemRef)
    (isList : world.controller.streamItems = some items) (complete : made.Complete) :
    AllOrNothing (some made) world := by
  obtain ⟨object, parsed, returned⟩ := uploadStreamItem_complete
    ⟨.created world.created.length, made⟩ (appended made world) complete
  rw [AllOrNothing, handOver_some, returned]
  exact ⟨made, items, object, rfl, isList, parsed, by simp [appended, isList], rfl⟩

theorem not_allOrNothing_incomplete (made : StreamItem) (world : World) (items : List ItemRef)
    (isList : world.controller.streamItems = some items) (incomplete : ¬ made.Complete) :
    ¬ AllOrNothing (some made) world := by
  obtain ⟨exception, raised⟩ := uploadStreamItem_incomplete
    ⟨.created world.created.length, made⟩ (appended made world) incomplete
  rw [AllOrNothing, handOver_some, raised]
  simp [appended, isList]

/-- After a completed download the call is all-or-nothing exactly for nil and for
an item with data and a title. -/
theorem all_or_nothing_iff (world : World) (item : Option StreamItem)
    (reached : machine.Reachable world)
    (completed : ∃ download ∈ world.downloads, Completed download) :
    AllOrNothing item world ↔ ∀ made, item = some made → made.Complete := by
  obtain ⟨download, member, done⟩ := completed
  obtain ⟨items, isList⟩ := Option.isSome_iff_exists.mp
    (list_present world reached download member done)
  cases item with
  | none =>
      refine iff_of_true (allOrNothing_nil world) ?_
      rintro made ⟨⟩
  | some made =>
      constructor
      · rintro whole other ⟨⟩
        -- the raise leaves the list one item longer
        by_contra incomplete
        exact not_allOrNothing_incomplete made world items isList incomplete whole
      · intro complete
        exact allOrNothing_complete made world items isList (complete made rfl)

theorem all_or_nothing_smallItem : AllOrNothing (some smallItem) emptyStream := by
  apply (all_or_nothing_iff emptyStream (some smallItem) ⟨firstDownload, emptyStream_reached⟩
    ⟨_, List.mem_singleton_self _, rfl⟩).mpr
  rintro made ⟨⟩
  exact ⟨rfl, rfl⟩

/-- A picked photo of 1000 by 1 pixels, under the title typed in its alert. -/
def narrowItem : StreamItem :=
  { pickedItem obliging (some ⟨.photo 0 1000 1 ⟨8, 0, 0⟩, ⟨1000, 1⟩, .up⟩) with
    title := some "a" }

theorem narrow_photo_shown_and_not_saved :
    machine.Reaches firstDownload emptyStream ∧
      (∃ exception after, handOver (some narrowItem) emptyStream = .raised exception after ∧
        after.controller.streamItems = some [⟨.created 0, narrowItem⟩] ∧ after.uploads = []) ∧
      ¬ AllOrNothing (some narrowItem) emptyStream := by
  have noData : narrowItem.data = none := by decide +kernel
  have incomplete : ¬ narrowItem.Complete := by
    rintro ⟨hasData, -⟩
    rw [noData] at hasData
    cases hasData
  refine ⟨rfl, ?_, not_allOrNothing_incomplete narrowItem emptyStream [] rfl incomplete⟩
  obtain ⟨exception, raised⟩ := uploadStreamItem_incomplete
    ⟨.created emptyStream.created.length, narrowItem⟩ (appended narrowItem emptyStream) incomplete
  exact ⟨exception, _, (handOver_some narrowItem emptyStream).trans raised, rfl, rfl⟩

end CollectionViewWorkshop.HandOver
