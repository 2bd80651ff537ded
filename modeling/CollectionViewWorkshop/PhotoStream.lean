import CollectionViewWorkshop.ParseService
import CollectionViewWorkshop.PartialRuns

/-!
`PhotoStreamViewController` with its `StreamItemDownloader` and
`StreamItemUploader`, the requests in flight and the store behind them. An
event is one step of the main thread or of the service, and a run is any
interleaving of them. Each request reads or commits once between its start and
its callback; a save may also fail after it committed. An exception ends the
method it was raised in and not the run, so the states after it count too.

`created`, `basis` and `createdBefore` are recorded for the laws only: the items
handed to `streamItemCreator:didCreateItem:`, each an object of its own, the
snapshot the shown list was last replaced by, and how many items had been
created by then. Every change of the store takes server time. Views and the weak
references to the controller, which outlives every request, are left out.
-/

namespace CollectionViewWorkshop.PhotoStream

open ObjectiveC ParseService PartialRuns StreamItemTransformer

inductive Origin where
  | created (item : ℕ)
  | decoded (stored : StoredObject)
  deriving DecidableEq

/-- A `StreamItem` object as the array holds it. `origin` is its identity. -/
structure ItemRef where
  origin : Origin
  item : StreamItem
  deriving DecidableEq

structure NSError where
  code : ℤ
  deriving DecidableEq

structure Controller where
  streamItems : Option (List ItemRef)
  refreshing : Bool

structure Snapshot where
  time : ℕ
  objects : List StoredObject
  deriving DecidableEq

inductive DownloadPhase where
  | waiting
  | answered (snapshot : Snapshot)
  | delivered (snapshot : Snapshot)
  | failed
  deriving DecidableEq

inductive Trigger where
  | viewDidLoad | didPullToRefresh
  deriving DecidableEq

structure Download where
  trigger : Trigger
  query : PFQuery
  phase : DownloadPhase

structure Upload where
  item : ItemRef
  object : PFObject
  committed : Bool
  reported : Option Bool

structure World where
  controller : Controller
  downloads : List Download
  uploads : List Upload
  store : Store
  clock : ℕ
  created : List StreamItem
  basis : Option Snapshot
  createdBefore : ℕ

def decodedItem (stored : StoredObject) : ItemRef :=
  ⟨.decoded stored, streamItemFromParseObject stored.object⟩

/-- A decoded item has the title, the data and the size read from its object. -/
def ReadFromObject (ref : ItemRef) : Prop :=
  ∀ stored, ref.origin = .decoded stored → ref.item = streamItemFromParseObject stored.object

@[simp] theorem readFromObject_decodedItem (stored : StoredObject) :
    ReadFromObject (decodedItem stored) := by
  rintro read ⟨⟩
  rfl

/-- The loop of the query block; there is nothing to loop over in nil. -/
def streamItemsFromObjects (objects : Option (List StoredObject)) : List ItemRef :=
  (objects.getD []).foldl (fun streamItems object => streamItems ++ [decodedItem object]) []

def didDownloadItems (items : List ItemRef) (_ : Controller) : Controller where
  streamItems := some items
  refreshing := false

-- The delegate protocol has no failure case: after an error the block hands over
-- the empty array it collected from nil.
/-- The block of `findObjectsInBackgroundWithBlock:`, which reads no error. -/
def findObjectsBlock (objects : Option (List StoredObject)) (_ : Option NSError)
    (controller : Controller) : Controller :=
  didDownloadItems (streamItemsFromObjects objects) controller

def downloadStreamItems (trigger : Trigger) (world : World) : World :=
  let query := PFQuery.queryWithClassName StreamItem.className
  { world with downloads := world.downloads ++ [⟨trigger, query, .waiting⟩] }

/-- The two methods of `StreamItemUploaderDelegate` are optional. -/
structure StreamItemUploaderDelegate (State : Type) where
  didUploadItem : Option (State → ItemRef → State)
  didFailToUploadWithError : Option (State → Option NSError → State)

def informDelegateAboutSuccessfulUpload {State : Type}
    (delegate : StreamItemUploaderDelegate State) (item : ItemRef) (state : State) : State :=
  match delegate.didUploadItem with
  | some didUploadItem => didUploadItem state item
  | none => state

def informDelegateAboutUploadFailure {State : Type}
    (delegate : StreamItemUploaderDelegate State) (error : Option NSError) (state : State) :
    State :=
  match delegate.didFailToUploadWithError with
  | some didFailToUploadWithError => didFailToUploadWithError state error
  | none => state

def saveBlock {State : Type} (delegate : StreamItemUploaderDelegate State) (item : ItemRef)
    (succeeded : Bool) (error : Option NSError) (state : State) : State :=
  if succeeded then informDelegateAboutSuccessfulUpload delegate item state
  else informDelegateAboutUploadFailure delegate error state

/-- `PhotoStreamViewController` implements neither method. -/
def uploaderDelegate : StreamItemUploaderDelegate Controller := ⟨none, none⟩

def uploadStreamItem (streamItem : Option ItemRef) (world : World) : Completion World :=
  match parseObjectFromStreamItem (streamItem.map ItemRef.item) with
  | .error exception => .raised exception world
  | .ok parseObject =>
      let saving := streamItem.map fun item => Upload.mk item parseObject false none
      .returned { world with uploads := world.uploads ++ saving.toList }

def addToStreamItems (streamItem : Option ItemRef) (world : World) : Completion World :=
  match addObject world.controller.streamItems streamItem with
  | .ok streamItems =>
      .returned { world with controller := { world.controller with streamItems := streamItems } }
  | .error exception => .raised exception world

-- The list has changed by the time the encoder may raise.
def didCreateItem (streamItem : Option ItemRef) (world : World) : Completion World :=
  (addToStreamItems streamItem world).andThen (uploadStreamItem streamItem)

/-- The creator hands over nil or an object that was not handed over before. -/
def handOver (item : Option StreamItem) (world : World) : Completion World :=
  match item with
  | none => didCreateItem none world
  | some item =>
      didCreateItem (some ⟨.created world.created.length, item⟩)
        { world with created := world.created ++ [item] }

def viewDidLoad (world : World) : World :=
  downloadStreamItems .viewDidLoad world

def didPullToRefresh (world : World) : World :=
  downloadStreamItems .didPullToRefresh
    { world with controller := { world.controller with refreshing := true } }

def DownloadPhase.outstanding : DownloadPhase → Bool
  | .waiting => true
  | .answered _ => true
  | _ => false

def DownloadPhase.reply : DownloadPhase → Option Snapshot
  | .answered snapshot => some snapshot
  | _ => none

def setDownload (index : ℕ) (download : Download) (phase : DownloadPhase) (world : World) :
    World :=
  { world with downloads := world.downloads.set index { download with phase := phase } }

def deliver (index : ℕ) (download : Download) (snapshot : Snapshot) (world : World) : World :=
  { setDownload index download (.delivered snapshot) world with
    controller := findObjectsBlock (some snapshot.objects) none world.controller
    basis := some snapshot
    createdBefore := world.created.length }

def deliverError (index : ℕ) (download : Download) (error : NSError) (world : World) : World :=
  { setDownload index download .failed world with
    controller := findObjectsBlock none (some error) world.controller
    basis := none
    createdBefore := world.created.length }

def savedFrom (upload : Upload) : Option ℕ :=
  match upload.item.origin with
  | .created item => some item
  | .decoded _ => none

def commit (index : ℕ) (upload : Upload) (world : World) : World :=
  { world with
    store := world.store.save (savedFrom upload) upload.object
    clock := world.clock + 1
    uploads := world.uploads.set index { upload with committed := true } }

def otherClientSaves (object : PFObject) (world : World) : World :=
  { world with
    store := world.store.save none object
    clock := world.clock + 1 }

def report (index : ℕ) (upload : Upload) (succeeded : Bool) (error : Option NSError)
    (world : World) : World :=
  { world with
    controller := saveBlock uploaderDelegate upload.item succeeded error world.controller
    uploads := world.uploads.set index { upload with reported := some succeeded } }

inductive Event where
  | viewDidLoad
  | didPullToRefresh
  | answer (download : ℕ) (objects : List StoredObject)
  | deliver (download : ℕ)
  | deliverError (download : ℕ) (error : NSError)
  | didCreateItem (item : Option StreamItem)
  | commit (upload : ℕ)
  | reportSuccess (upload : ℕ)
  | reportFailure (upload : ℕ) (error : NSError)
  | otherClientSaves (object : PFObject)
  | tick

def step (world : World) : Event → Option World
  | .viewDidLoad => some (viewDidLoad world)
  | .didPullToRefresh => some (didPullToRefresh world)
  | .answer index objects =>
      world.downloads[index]?.bind fun download =>
        if download.phase = .waiting ∧ Answers world.store download.query objects then
          some (setDownload index download (.answered ⟨world.clock, objects⟩) world)
        else none
  | .deliver index =>
      world.downloads[index]?.bind fun download =>
        download.phase.reply.bind fun snapshot => some (deliver index download snapshot world)
  -- a query may fail on its way there or on its way back
  | .deliverError index error =>
      world.downloads[index]?.bind fun download =>
        if download.phase.outstanding then some (deliverError index download error world)
        else none
  | .didCreateItem item => some (handOver item world).state
  | .commit index =>
      world.uploads[index]?.bind fun upload =>
        if upload.committed = false ∧ upload.reported = none then
          some (commit index upload world)
        else none
  | .reportSuccess index =>
      world.uploads[index]?.bind fun upload =>
        if upload.committed = true ∧ upload.reported = none then
          some (report index upload true none world)
        else none
  -- so may a save, after it was committed or before
  | .reportFailure index error =>
      world.uploads[index]?.bind fun upload =>
        if upload.reported = none then some (report index upload false (some error) world)
        else none
  | .otherClientSaves object => some (otherClientSaves object world)
  | .tick => some { world with clock := world.clock + 1 }

def machine : Machine World Event where
  initial := ⟨⟨none, false⟩, [], [], .empty, 0, [], none, 0⟩
  step := step

/-! What each callback does to the controller. -/

theorem streamItemsFromObjects_eq (objects : Option (List StoredObject)) :
    streamItemsFromObjects objects = (objects.getD []).map decodedItem := by
  have loop : ∀ (objects : List StoredObject) (streamItems : List ItemRef),
      objects.foldl (fun streamItems object => streamItems ++ [decodedItem object]) streamItems =
        streamItems ++ objects.map decodedItem := by
    intro objects
    induction objects with
    | nil => simp
    | cons object rest ih =>
        intro streamItems
        simp [ih]
  exact (loop (objects.getD []) []).trans (List.nil_append _)

theorem deliver_streamItems (index : ℕ) (download : Download) (snapshot : Snapshot)
    (world : World) :
    (deliver index download snapshot world).controller.streamItems =
      some (snapshot.objects.map decodedItem) := by
  simp [deliver, findObjectsBlock, didDownloadItems, streamItemsFromObjects_eq]

theorem deliverError_streamItems (index : ℕ) (download : Download) (error : NSError)
    (world : World) :
    (deliverError index download error world).controller.streamItems = some [] := by
  simp [deliverError, findObjectsBlock, didDownloadItems, streamItemsFromObjects_eq]

/-- Handing over nil raises, from the array or, while there is none, from the encoder. -/
theorem handOver_nil (world : World) :
    ∃ exception, handOver none world = .raised exception world := by
  cases items : world.controller.streamItems with
  | none =>
      refine ⟨.invalidArgument "Class name can't be 'nil'.", ?_⟩
      have same : { world with controller := { world.controller with streamItems := none } } =
          world := by rw [← items]
      simp [handOver, didCreateItem, addToStreamItems, items, addObject, same,
        uploadStreamItem, parseObjectFromStreamItem, PFObject.objectWithClassName, bind,
        Except.bind]
  | some shown =>
      exact ⟨.invalidArgument "object cannot be nil", by
        simp [handOver, didCreateItem, addToStreamItems, items, addObject]⟩

def appended (item : StreamItem) (world : World) : World :=
  { world with
    created := world.created ++ [item]
    controller := { world.controller with
      streamItems := world.controller.streamItems.map
        (· ++ [⟨.created world.created.length, item⟩]) } }

theorem handOver_some (item : StreamItem) (world : World) :
    handOver (some item) world =
      uploadStreamItem (some ⟨.created world.created.length, item⟩) (appended item world) := by
  cases items : world.controller.streamItems <;>
    simp [handOver, didCreateItem, addToStreamItems, items, addObject, appended]

theorem uploadStreamItem_complete (item : ItemRef) (world : World)
    (complete : item.item.Complete) :
    ∃ object, parseObjectFromStreamItem (some item.item) = .ok object ∧
      uploadStreamItem (some item) world =
        .returned { world with uploads := world.uploads ++ [⟨item, object, false, none⟩] } := by
  obtain ⟨object, parsed⟩ := (parseObject_isOk_iff_complete item.item).mpr complete
  exact ⟨object, parsed, by simp [uploadStreamItem, parsed]⟩

theorem uploadStreamItem_incomplete (item : ItemRef) (world : World)
    (incomplete : ¬ item.item.Complete) :
    ∃ exception, uploadStreamItem (some item) world = .raised exception world := by
  cases parsed : parseObjectFromStreamItem (some item.item) with
  | ok object =>
      exact absurd ((parseObject_isOk_iff_complete item.item).mp ⟨object, parsed⟩) incomplete
  | error exception => exact ⟨exception, by simp [uploadStreamItem, parsed]⟩

def started (item : StreamItem) (object : PFObject) (world : World) : World :=
  { appended item world with
    uploads := world.uploads ++ [⟨⟨.created world.created.length, item⟩, object, false, none⟩] }

/-- A created item is refused as nil, appended and not encoded, or appended and saved. -/
theorem handOver_cases (item : Option StreamItem) (world : World) :
    (item = none ∧ (handOver item world).state = world) ∨
      (∃ made, item = some made ∧ ¬ made.Complete ∧
        (handOver item world).state = appended made world) ∨
      ∃ made object, item = some made ∧ parseObjectFromStreamItem (some made) = .ok object ∧
        (handOver item world).state = started made object world := by
  cases item with
  | none =>
      obtain ⟨exception, raised⟩ := handOver_nil world
      exact Or.inl ⟨rfl, by rw [raised]; rfl⟩
  | some made =>
      right
      rw [handOver_some]
      by_cases complete : made.Complete
      · obtain ⟨object, parsed, returned⟩ := uploadStreamItem_complete
          ⟨.created world.created.length, made⟩ (appended made world) complete
        exact Or.inr ⟨made, object, rfl, parsed, by rw [returned]; rfl⟩
      · obtain ⟨exception, raised⟩ := uploadStreamItem_incomplete
          ⟨.created world.created.length, made⟩ (appended made world) complete
        exact Or.inl ⟨made, rfl, complete, by rw [raised]; rfl⟩

/-! What each event can do, so that no later proof unfolds `step`. -/

inductive Taken (before : World) : Event → World → Prop where
  | viewDidLoad : Taken before .viewDidLoad (viewDidLoad before)
  | didPullToRefresh : Taken before .didPullToRefresh (didPullToRefresh before)
  | answer (request : ℕ) (objects : List StoredObject) (download : Download)
      (found : before.downloads[request]? = some download) (waiting : download.phase = .waiting)
      (answers : Answers before.store download.query objects) :
      Taken before (.answer request objects)
        (setDownload request download (.answered ⟨before.clock, objects⟩) before)
  | deliver (request : ℕ) (download : Download) (snapshot : Snapshot)
      (found : before.downloads[request]? = some download)
      (answered : download.phase = .answered snapshot) :
      Taken before (.deliver request) (deliver request download snapshot before)
  | deliverError (request : ℕ) (error : NSError) (download : Download)
      (found : before.downloads[request]? = some download)
      (outstanding : download.phase.outstanding = true) :
      Taken before (.deliverError request error) (deliverError request download error before)
  | refused : Taken before (.didCreateItem none) before
  | appended (item : StreamItem) (incomplete : ¬ item.Complete) :
      Taken before (.didCreateItem (some item)) (appended item before)
  | started (item : StreamItem) (object : PFObject)
      (parsed : parseObjectFromStreamItem (some item) = .ok object) :
      Taken before (.didCreateItem (some item)) (started item object before)
  | commit (request : ℕ) (upload : Upload) (found : before.uploads[request]? = some upload)
      (uncommitted : upload.committed = false) (unreported : upload.reported = none) :
      Taken before (.commit request) (commit request upload before)
  | reportSuccess (request : ℕ) (upload : Upload)
      (found : before.uploads[request]? = some upload) (committed : upload.committed = true)
      (unreported : upload.reported = none) :
      Taken before (.reportSuccess request) (report request upload true none before)
  | reportFailure (request : ℕ) (error : NSError) (upload : Upload)
      (found : before.uploads[request]? = some upload) (unreported : upload.reported = none) :
      Taken before (.reportFailure request error)
        (report request upload false (some error) before)
  | otherClientSaves (object : PFObject) :
      Taken before (.otherClientSaves object) (otherClientSaves object before)
  | tick : Taken before .tick { before with clock := before.clock + 1 }

theorem reply_iff (phase : DownloadPhase) (snapshot : Snapshot) :
    phase.reply = some snapshot ↔ phase = .answered snapshot := by
  cases phase <;> simp [DownloadPhase.reply]

theorem step_taken (before after : World) (event : Event)
    (taken : step before event = some after) : Taken before event after := by
  cases event with
  | viewDidLoad =>
      cases taken
      exact .viewDidLoad
  | didPullToRefresh =>
      cases taken
      exact .didPullToRefresh
  | answer request objects =>
      simp only [step, Option.bind_eq_some_iff, Option.ite_none_right_eq_some,
        Option.some.injEq] at taken
      obtain ⟨download, found, ⟨waiting, answers⟩, rfl⟩ := taken
      exact .answer request objects download found waiting answers
  | deliver request =>
      simp only [step, Option.bind_eq_some_iff, reply_iff, Option.some.injEq] at taken
      obtain ⟨download, found, snapshot, answered, rfl⟩ := taken
      exact .deliver request download snapshot found answered
  | deliverError request error =>
      simp only [step, Option.bind_eq_some_iff, Option.ite_none_right_eq_some,
        Option.some.injEq] at taken
      obtain ⟨download, found, outstanding, rfl⟩ := taken
      exact .deliverError request error download found outstanding
  | didCreateItem item =>
      cases taken
      rcases handOver_cases item before with
        ⟨rfl, same⟩ | ⟨made, rfl, incomplete, same⟩ | ⟨made, object, rfl, parsed, same⟩ <;>
      rw [same]
      · exact .refused
      · exact .appended made incomplete
      · exact .started made object parsed
  | commit request =>
      simp only [step, Option.bind_eq_some_iff, Option.ite_none_right_eq_some,
        Option.some.injEq] at taken
      obtain ⟨upload, found, ⟨uncommitted, unreported⟩, rfl⟩ := taken
      exact .commit request upload found uncommitted unreported
  | reportSuccess request =>
      simp only [step, Option.bind_eq_some_iff, Option.ite_none_right_eq_some,
        Option.some.injEq] at taken
      obtain ⟨upload, found, ⟨committed, unreported⟩, rfl⟩ := taken
      exact .reportSuccess request upload found committed unreported
  | reportFailure request error =>
      simp only [step, Option.bind_eq_some_iff, Option.ite_none_right_eq_some,
        Option.some.injEq] at taken
      obtain ⟨upload, found, unreported, rfl⟩ := taken
      exact .reportFailure request error upload found unreported
  | otherClientSaves object =>
      cases taken
      exact .otherClientSaves object
  | tick =>
      cases taken
      exact .tick

theorem answer_step (world : World) (request : ℕ) (objects : List StoredObject)
    (download : Download) (found : world.downloads[request]? = some download)
    (waiting : download.phase = .waiting) (answers : Answers world.store download.query objects) :
    step world (.answer request objects) =
      some (setDownload request download (.answered ⟨world.clock, objects⟩) world) := by
  simp [step, found, waiting, answers]

theorem deliver_step (world : World) (request : ℕ) (download : Download) (snapshot : Snapshot)
    (found : world.downloads[request]? = some download)
    (answered : download.phase = .answered snapshot) :
    step world (.deliver request) = some (deliver request download snapshot world) := by
  simp [step, found, (reply_iff download.phase snapshot).mpr answered]

end CollectionViewWorkshop.PhotoStream
