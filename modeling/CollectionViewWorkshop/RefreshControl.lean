import CollectionViewWorkshop.LatestWrite
import CollectionViewWorkshop.PhotoStream
import CollectionViewWorkshop.RequestTable

/-!
The refresh control over runs of the photo stream. A pull is an event only
while the control is inactive. Every completion ends the refreshing, whichever
download it belongs to: the delegate is not told.
-/

namespace CollectionViewWorkshop.RefreshControl

open LatestWrite ParseService PartialRuns PhotoStream RequestTable StreamItemTransformer

def step (world : World) : Event → Option World
  | .didPullToRefresh =>
      if world.controller.refreshing then none else PhotoStream.step world .didPullToRefresh
  | event => PhotoStream.step world event

def machine : Machine World Event where
  initial := PhotoStream.machine.initial
  step := step

theorem step_of_stream (before after : World) (event : Event)
    (taken : step before event = some after) : PhotoStream.step before event = some after := by
  cases event with
  | didPullToRefresh =>
      simp only [step, Option.ite_none_left_eq_some] at taken
      exact taken.2
  | _ => exact taken

def PullRunning (download : Download) : Prop :=
  download.trigger = .didPullToRefresh ∧ download.phase.outstanding = true

def PullOutstanding (world : World) : Prop :=
  ∃ download ∈ world.downloads, PullRunning download

def Tracks (world : World) : Prop :=
  world.controller.refreshing = true ↔ PullOutstanding world

def refreshes : Event → Option Bool
  | .didPullToRefresh => some true
  | .deliver _ => some false
  | .deliverError _ _ => some false
  | _ => none

theorem step_refreshing (before after : World) (event : Event)
    (taken : step before event = some after) :
    after.controller.refreshing = (refreshes event).getD before.controller.refreshing := by
  cases step_taken before after event (step_of_stream before after event taken) <;> rfl

theorem refreshing_is_latest (events : List Event) (world : World)
    (run : machine.Reaches events world) :
    world.controller.refreshing = latest refreshes false events := by
  induction events using List.reverseRecOn generalizing world with
  | nil =>
      rw [(reaches_nil_iff machine world).mp run]
      rfl
  | append_singleton events event ih =>
      obtain ⟨before, reached, taken⟩ := (reaches_snoc_iff machine events event world).mp run
      rw [step_refreshing before world event taken, latest_snoc, ih before reached]

/-! The downloads started by a pull, over one event. -/

def progress (download : Download) : Trigger × Bool :=
  (download.trigger, download.phase.outstanding)

theorem pullOutstanding_iff_mem (world : World) :
    PullOutstanding world ↔ (.didPullToRefresh, true) ∈ world.downloads.map progress := by
  simp [PullOutstanding, PullRunning, progress]

theorem pullOutstanding_asked_iff (trigger : Trigger) (world : World) :
    PullOutstanding (downloadStreamItems trigger world) ↔
      PullOutstanding world ∨ trigger = .didPullToRefresh := by
  simp only [pullOutstanding_iff_mem, downloadStreamItems, List.map_append, List.mem_append,
    List.map_singleton, List.mem_singleton, progress, DownloadPhase.outstanding, Prod.mk.injEq,
    and_true, eq_comm]

theorem pullOutstanding_answered_iff (request : ℕ) (download : Download) (snapshot : Snapshot)
    (world : World) (found : world.downloads[request]? = some download)
    (waiting : download.phase = .waiting) :
    PullOutstanding (setDownload request download (.answered snapshot) world) ↔
      PullOutstanding world := by
  -- a download that was answered and not delivered is still running
  have same : progress { download with phase := .answered snapshot } = progress download := by
    simp [progress, waiting, DownloadPhase.outstanding]
  rw [pullOutstanding_iff_mem, pullOutstanding_iff_mem, setDownload,
    map_settled progress world.downloads request download _ found same]

def NoOtherPull (world : World) (request : ℕ) : Prop :=
  ∀ other download, other ≠ request → world.downloads[other]? = some download →
    ¬ PullRunning download

theorem pullOutstanding_settled_iff (request : ℕ) (download : Download) (phase : DownloadPhase)
    (world : World) (completed : phase.outstanding = false) :
    PullOutstanding (setDownload request download phase world) ↔
      ¬ NoOtherPull world request := by
  have settled : ¬ PullRunning { download with phase := phase } := by
    simp [PullRunning, completed]
  have others := some_other_settled_iff PullRunning world.downloads request _ settled
  rw [PullOutstanding, setDownload, others]
  simp only [NoOtherPull, not_forall, not_not, exists_prop]

/-- A completion comes in only while no other download started by a pull is running. -/
def CompletesLastPull (_ : List Event) (before : World) : Event → Prop
  | .deliver request => NoOtherPull before request
  | .deliverError request _ => NoOtherPull before request
  | _ => True

theorem completesLastPull_of_other (history : List Event) (before : World) (event : Event)
    (other : refreshes event ≠ some false) : CompletesLastPull history before event := by
  cases event with
  | deliver request => exact absurd rfl other
  | deliverError request error => exact absurd rfl other
  | _ => trivial

theorem step_pulls (history : List Event) (before after : World) (event : Event)
    (taken : step before event = some after) :
    match refreshes event with
    | none => PullOutstanding after ↔ PullOutstanding before
    | some true => PullOutstanding after
    | some false => PullOutstanding after ↔ ¬ CompletesLastPull history before event := by
  cases step_taken before after event (step_of_stream before after event taken) with
  | viewDidLoad =>
      exact (pullOutstanding_asked_iff .viewDidLoad before).trans (or_iff_left (by decide))
  | didPullToRefresh => exact (pullOutstanding_asked_iff .didPullToRefresh _).mpr (Or.inr rfl)
  | answer request objects download found waiting =>
      exact pullOutstanding_answered_iff request download _ before found waiting
  | deliver request download snapshot =>
      exact pullOutstanding_settled_iff request download (.delivered snapshot) before rfl
  | deliverError request error download =>
      exact pullOutstanding_settled_iff request download .failed before rfl
  | refused => exact Iff.rfl
  | appended => exact Iff.rfl
  | started => exact Iff.rfl
  | commit => exact Iff.rfl
  | reportSuccess => exact Iff.rfl
  | reportFailure => exact Iff.rfl
  | otherClientSaves => exact Iff.rfl
  | tick => exact Iff.rfl

theorem tracks_step (history : List Event) (event : Event) (before after : World)
    (_ : machine.Reaches history before) (law : Tracks before)
    (taken : machine.step before event = some after) :
    Tracks after ↔ CompletesLastPull history before event := by
  have control := step_refreshing before after event taken
  have pulls := step_pulls history before after event taken
  have other := completesLastPull_of_other history before event
  cases kind : refreshes event with
  | none =>
      simp only [kind, Option.getD_none] at control pulls
      apply iff_of_true _ (other (by simp [kind]))
      rw [Tracks, control, pulls]
      exact law
  | some active =>
      cases active with
      | true =>
          simp only [kind, Option.getD_some] at control pulls
          exact iff_of_true (iff_of_true control pulls) (other (by simp [kind]))
      | false =>
          simp only [kind, Option.getD_some] at control pulls
          simp [Tracks, control, pulls]

def SpinsForPull (world : World) : Prop :=
  world.controller.refreshing = true → PullOutstanding world

theorem spinsForPull_step (event : Event) (before after : World) (held : SpinsForPull before)
    (taken : machine.step before event = some after) : SpinsForPull after := by
  have control := step_refreshing before after event taken
  have pulls := step_pulls [] before after event taken
  intro spinning
  cases kind : refreshes event with
  | none =>
      simp only [kind, Option.getD_none] at control pulls
      exact pulls.mpr (held (control ▸ spinning))
  | some active =>
      cases active with
      | true =>
          simp only [kind] at pulls
          exact pulls
      | false =>
          rw [control, kind] at spinning
          cases spinning

/-- The control is active since a pull no completion came after, and then that
pull is still running; it is active whenever a pull is running exactly in the
runs whose completions leave no other pull running. -/
theorem indicator_tracks_iff (events : List Event) :
    (∀ world, machine.Reaches events world →
      world.controller.refreshing = latest refreshes false events ∧ SpinsForPull world) ∧
      (machine.Throughout Tracks events ↔ machine.EachStep CompletesLastPull events) := by
  constructor
  · intro world run
    constructor
    · exact refreshing_is_latest events world run
    · apply reaches_invariant machine SpinsForPull _ spinsForPull_step events world run
      rintro ⟨⟩
  · apply throughout_iff_eachStep machine Tracks CompletesLastPull _ tracks_step
    simp [Tracks, PullOutstanding, machine, PhotoStream.machine]

/-- The first download is delivered while the pull is running. -/
def pulledBeforeFirst : List Event :=
  [.viewDidLoad, .didPullToRefresh, .answer 0 [], .deliver 0]

theorem first_download_ends_refreshing :
    ∃ world, machine.Reaches pulledBeforeFirst world ∧ world.controller.refreshing = false ∧
      PullOutstanding world ∧ ¬ Tracks world := by
  have pulled : ∃ world, machine.Reaches pulledBeforeFirst world ∧
      world.controller.refreshing = false ∧
      world.downloads[1]? = some ⟨.didPullToRefresh, PFQuery.queryWithClassName "StreamItem",
        .waiting⟩ := ⟨_, rfl, rfl, rfl⟩
  obtain ⟨world, run, ended, found⟩ := pulled
  have outstanding : PullOutstanding world := ⟨_, List.mem_of_getElem? found, rfl, rfl⟩
  refine ⟨world, run, ended, outstanding, ?_⟩
  intro tracks
  have spinning := tracks.mpr outstanding
  rw [ended] at spinning
  cases spinning

end CollectionViewWorkshop.RefreshControl
