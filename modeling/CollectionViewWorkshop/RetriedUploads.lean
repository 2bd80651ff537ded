import CollectionViewWorkshop.CommandRunner
import CollectionViewWorkshop.PhotoStreamInvariants

/-!
The photo stream with the attempts of its saves. An attempt reaches the store
at most once, maybe after it was given up, and is answered once, in any way a
server or a lost connection may; the command runner makes the next one or gives
up. A query that is attempted again is answered by its last attempt and needs no
change. `item` is recorded for the laws only.
-/

namespace CollectionViewWorkshop.RetriedUploads

open CommandRunner ParseService PartialRuns PhotoStream PhotoStreamInvariants RequestTable
open StreamItemTransformer

/-- The command of an upload: the attempts left, the current one included, whether
the current one has reached the store, and how many given up before may reach it yet. -/
structure SaveCommand where
  item : Origin
  attempts : ℕ
  committed : Bool
  late : ℕ
  ended : Bool

structure Retried where
  world : World
  commands : List SaveCommand

inductive Event where
  | stream (event : PhotoStream.Event)
  | commit (upload : ℕ)
  | commitLate (upload : ℕ)
  | answer (upload : ℕ) (reply : Reply) (error : NSError)

def ofSave : PhotoStream.Event → Bool
  | .commit _ => true
  | .reportSuccess _ => true
  | .reportFailure _ _ => true
  | _ => false

def startCommands (retryAttempts : ℕ) (after : World) (commands : List SaveCommand) :
    List SaveCommand :=
  commands ++ (after.uploads.drop commands.length).map fun upload =>
    ⟨upload.item.origin, retryAttempts, false, 0, false⟩

def commitAttempt (index : ℕ) (upload : Upload) (command : SaveCommand) (state : Retried) :
    Retried where
  world := commit index upload state.world
  commands := state.commands.set index command

/-- An attempt that has not reached the store by its answer may be late. -/
def SaveCommand.lateNow (command : SaveCommand) : ℕ :=
  command.late + if command.committed then 0 else 1

-- the callback is not called for a task that was cancelled
def finishAttempt (index : ℕ) (upload : Upload) (command : SaveCommand) (task : Finished)
    (error : NSError) (state : Retried) : Retried :=
  if task.retried command.attempts then
    let next := { command with
      attempts := command.attempts - 1, committed := false, late := command.lateNow }
    { state with commands := state.commands.set index next }
  else
    let last := { command with ended := true, late := command.lateNow }
    let commands := state.commands.set index last
    match task with
    | .result => ⟨report index upload true none state.world, commands⟩
    | .error _ => ⟨report index upload false (some error) state.world, commands⟩
    | .cancelled => ⟨state.world, commands⟩

def step (retryAttempts : ℕ) (state : Retried) : Event → Option Retried
  | .stream event =>
      if ofSave event then none
      else (PhotoStream.step state.world event).map fun after =>
        ⟨after, startCommands retryAttempts after state.commands⟩
  | .commit index =>
      state.world.uploads[index]?.bind fun upload =>
        state.commands[index]?.bind fun command =>
          if command.ended = false ∧ command.committed = false then
            some (commitAttempt index upload { command with committed := true } state)
          else none
  | .commitLate index =>
      state.world.uploads[index]?.bind fun upload =>
        state.commands[index]?.bind fun command =>
          if 0 < command.late then
            some (commitAttempt index upload { command with late := command.late - 1 } state)
          else none
  | .answer index reply error =>
      state.world.uploads[index]?.bind fun upload =>
        state.commands[index]?.bind fun command =>
          if command.ended = false ∧ (didComplete reply = .result → command.committed = true) then
            some (finishAttempt index upload command (didComplete reply) error state)
          else none

def retriedMachine (retryAttempts : ℕ) : Machine Retried Event where
  initial := ⟨PhotoStream.machine.initial, []⟩
  step := step retryAttempts

/-! How often a photo may be stored. -/

def copies (index : ℕ) (store : Store) : ℕ :=
  store.objects.countP fun stored => stored.savedFrom = some index

def SaveCommand.remaining (command : SaveCommand) : ℕ :=
  command.late + if command.ended then 0
    else max 1 command.attempts - if command.committed then 1 else 0

theorem copies_save (index : ℕ) (store : Store) (savedFrom : Option ℕ) (object : PFObject) :
    copies index (store.save savedFrom object) =
      copies index store + if savedFrom = some index then 1 else 0 := by
  simp [copies, Store.save, List.countP_append, List.countP_singleton]

structure Counted (retryAttempts : ℕ) (state : Retried) : Prop where
  same : state.commands.map SaveCommand.item =
    state.world.uploads.map fun upload => upload.item.origin
  distinct : (state.commands.map SaveCommand.item).Nodup
  fromCreated : ∀ command ∈ state.commands,
    ∃ index < state.world.created.length, command.item = .created index
  owned : ∀ stored ∈ state.world.store.objects, ∀ index, stored.savedFrom = some index →
    ∃ command ∈ state.commands, command.item = .created index
  within : ∀ command ∈ state.commands, ∀ index, command.item = .created index →
    copies index state.world.store + command.remaining ≤ max 1 retryAttempts

theorem Counted.copies_le {retryAttempts : ℕ} {state : Retried}
    (counted : Counted retryAttempts state) (index : ℕ) :
    copies index state.world.store ≤ max 1 retryAttempts := by
  by_cases none : copies index state.world.store = 0
  · rw [none]
    exact Nat.zero_le _
  · obtain ⟨stored, member, savedFrom⟩ := List.countP_pos_iff.mp (Nat.pos_of_ne_zero none)
    obtain ⟨command, inside, item⟩ := counted.owned stored member index
      (of_decide_eq_true savedFrom)
    exact (Nat.le_add_right _ _).trans (counted.within command inside index item)

theorem Counted.origin {retryAttempts : ℕ} {state : Retried}
    (counted : Counted retryAttempts state) (index : ℕ) (upload : Upload)
    (command : SaveCommand) (isUpload : state.world.uploads[index]? = some upload)
    (found : state.commands[index]? = some command) : command.item = upload.item.origin := by
  have same := congrArg (fun origins : List Origin => origins[index]?) counted.same
  simpa [List.getElem?_map, isUpload, found] using same

theorem Counted.settled {retryAttempts : ℕ} {state : Retried}
    (counted : Counted retryAttempts state) (index : ℕ) (old new : SaveCommand) (world : World)
    (found : state.commands[index]? = some old) (item : new.item = old.item)
    (less : new.remaining ≤ old.remaining)
    (uploads : (world.uploads.map fun upload => upload.item.origin) =
      state.world.uploads.map fun upload => upload.item.origin)
    (created : world.created = state.world.created) (store : world.store = state.world.store) :
    Counted retryAttempts ⟨world, state.commands.set index new⟩ := by
  have items := map_settled SaveCommand.item state.commands index old new found item
  have inside := List.mem_of_getElem? found
  refine ⟨?_, ?_, ?_, ?_, ?_⟩
  · rw [items, uploads, counted.same]
  · rw [items]
    exact counted.distinct
  · rw [created]
    exact all_settled _ _ index new counted.fromCreated (item ▸ counted.fromCreated old inside)
  · rw [store]
    intro stored member made savedFrom
    exact some_settled _ _ index old new found (counted.owned stored member made savedFrom)
      fun same => item.trans same
  · rw [store]
    apply all_settled _ _ index new counted.within
    intro made same
    have before := counted.within old inside made (item.symm.trans same)
    omega

theorem Counted.committed {retryAttempts : ℕ} {state : Retried}
    (counted : Counted retryAttempts state) (index : ℕ) (upload : Upload)
    (old new : SaveCommand) (isUpload : state.world.uploads[index]? = some upload)
    (found : state.commands[index]? = some old) (same : new.item = old.item)
    (less : new.remaining + 1 ≤ old.remaining) :
    Counted retryAttempts (commitAttempt index upload new state) := by
  -- one attempt less remains once it has stored the object
  have inside := List.mem_of_getElem? found
  obtain ⟨made, isCreated, item⟩ := counted.fromCreated old inside
  have origin := (counted.origin index upload old isUpload found).symm.trans item
  have owner : savedFrom upload = some made := by rw [savedFrom, origin]
  have items := map_settled SaveCommand.item state.commands index old new found same
  refine ⟨?_, ?_, ?_, ?_, ?_⟩
  · rw [commitAttempt, items, counted.same]
    exact (map_settled (fun upload => upload.item.origin) state.world.uploads index upload
      { upload with committed := true } isUpload rfl).symm
  · rw [commitAttempt, items]
    exact counted.distinct
  · exact all_settled _ _ index new counted.fromCreated ⟨made, isCreated, same.trans item⟩
  · intro stored member other savedFrom
    refine some_settled (fun command => command.item = .created other) state.commands index
      old new found ?_ fun isOld => same.trans isOld
    rcases (state.world.store.mem_save_iff _ _ stored).mp member with before | rfl
    · exact counted.owned stored before other savedFrom
    · rw [owner] at savedFrom
      cases savedFrom
      exact ⟨old, inside, item⟩
  · intro other member one isOne
    rw [commitAttempt, commit, copies_save, owner]
    have once := settled_cases SaveCommand.item state.commands index old new other found
      counted.distinct member
    rcases once with rfl | ⟨before, different⟩
    · have kept := counted.within old inside one (same.symm.trans isOne)
      split <;> omega
    · have kept := counted.within other before one isOne
      have otherItem : ¬ made = one := by
        rintro rfl
        exact different (isOne.trans item.symm)
      simpa [otherItem] using kept

theorem Counted.none_started {retryAttempts : ℕ} {state : Retried}
    (counted : Counted retryAttempts state) (uploads : List Upload)
    (same : uploads = state.world.uploads) (world : World) (here : world.uploads = uploads) :
    startCommands retryAttempts world state.commands = state.commands := by
  have length := congrArg List.length counted.same
  rw [List.length_map, List.length_map] at length
  rw [startCommands, here, same, length, List.drop_length, List.map_nil, List.append_nil]

theorem Counted.framed {retryAttempts : ℕ} {state : Retried}
    (counted : Counted retryAttempts state) (after : World)
    (uploads : after.uploads = state.world.uploads)
    (created : state.world.created <+: after.created)
    (store : ∀ stored ∈ after.store.objects, ∀ index, stored.savedFrom = some index →
      stored ∈ state.world.store.objects)
    (copied : ∀ index, copies index after.store = copies index state.world.store) :
    Counted retryAttempts ⟨after, startCommands retryAttempts after state.commands⟩ := by
  rw [counted.none_started state.world.uploads rfl after uploads]
  refine ⟨?_, counted.distinct, ?_, ?_, ?_⟩
  · rw [uploads, counted.same]
  · intro command member
    obtain ⟨index, inside, item⟩ := counted.fromCreated command member
    exact ⟨index, inside.trans_le created.length_le, item⟩
  · intro stored member index savedFrom
    exact counted.owned stored (store stored member index savedFrom) index savedFrom
  · intro command member index item
    rw [copied]
    exact counted.within command member index item

/-- A new item is stored nowhere, so its command has all of its attempts left. -/
theorem Counted.joined {retryAttempts : ℕ} {state : Retried}
    (counted : Counted retryAttempts state) (item : StreamItem) (object : PFObject) :
    Counted retryAttempts ⟨started item object state.world,
      startCommands retryAttempts (started item object state.world) state.commands⟩ := by
  have length := congrArg List.length counted.same
  rw [List.length_map, List.length_map] at length
  have commands : startCommands retryAttempts (started item object state.world) state.commands =
      state.commands ++ [⟨.created state.world.created.length, retryAttempts, false, 0, false⟩] := by
    rw [startCommands, started, length, List.drop_left, List.map_singleton]
  have fresh : ∀ command ∈ state.commands,
      command.item ≠ .created state.world.created.length := by
    intro command member same
    obtain ⟨index, inside, isCreated⟩ := counted.fromCreated command member
    cases isCreated.symm.trans same
    exact absurd inside (Nat.lt_irrefl _)
  have unstored : copies state.world.created.length state.world.store = 0 := by
    rw [copies, List.countP_eq_zero]
    intro stored member savedFrom
    obtain ⟨command, inside, same⟩ :=
      counted.owned stored member _ (of_decide_eq_true savedFrom)
    exact fresh command inside same
  rw [commands]
  refine ⟨?_, keys_entered _ _ _ counted.distinct fresh, ?_, ?_, ?_⟩
  · rw [List.map_append, counted.same, started, List.map_append]
    rfl
  · apply all_entered
    · intro command member
      obtain ⟨index, inside, same⟩ := counted.fromCreated command member
      exact ⟨index, by simp [started, appended]; omega, same⟩
    · exact ⟨_, by simp [started, appended], rfl⟩
  · intro stored member index savedFrom
    obtain ⟨command, inside, same⟩ := counted.owned stored member index savedFrom
    exact ⟨command, List.mem_append_left _ inside, same⟩
  · apply all_entered
    · exact counted.within
    · rintro index ⟨⟩
      change copies state.world.created.length state.world.store + _ ≤ _
      rw [unstored]
      simp [SaveCommand.remaining]

theorem Counted.streamed {retryAttempts : ℕ} {state : Retried}
    (counted : Counted retryAttempts state) (event : PhotoStream.Event) (after : World)
    (other : ofSave event = false)
    (taken : PhotoStream.step state.world event = some after) :
    Counted retryAttempts ⟨after, startCommands retryAttempts after state.commands⟩ := by
  cases step_taken state.world after event taken with
  | started item object => exact counted.joined item object
  | appended item =>
      exact counted.framed _ rfl (List.prefix_append _ _) (fun _ member _ _ => member)
        fun _ => rfl
  | otherClientSaves object =>
      refine counted.framed _ rfl (List.prefix_refl _) ?_ fun index => by
        simp [otherClientSaves, copies_save]
      intro stored member index savedFrom
      rcases (state.world.store.mem_save_iff none object stored).mp member with old | rfl
      · exact old
      · cases savedFrom
  | commit => cases other
  | reportSuccess => cases other
  | reportFailure => cases other
  | _ =>
      exact counted.framed _ rfl (List.prefix_refl _) (fun _ member _ _ => member) fun _ => rfl

theorem report_uploads (index : ℕ) (upload : Upload) (succeeded : Bool) (error : Option NSError)
    (world : World) (isUpload : world.uploads[index]? = some upload) :
    ((report index upload succeeded error world).uploads.map fun upload => upload.item.origin) =
      world.uploads.map fun upload => upload.item.origin :=
  map_settled (fun upload => upload.item.origin) world.uploads index upload
    { upload with reported := some succeeded } isUpload rfl

theorem Counted.finished {retryAttempts : ℕ} {state : Retried}
    (counted : Counted retryAttempts state) (index : ℕ) (upload : Upload)
    (command : SaveCommand) (isUpload : state.world.uploads[index]? = some upload)
    (found : state.commands[index]? = some command) (running : command.ended = false)
    (task : Finished) (error : NSError) :
    Counted retryAttempts (finishAttempt index upload command task error state) := by
  have atEnd : ∀ world : World,
      ((world.uploads.map fun upload => upload.item.origin) =
        state.world.uploads.map fun upload => upload.item.origin) →
      world.created = state.world.created → world.store = state.world.store →
      Counted retryAttempts ⟨world, state.commands.set index
        { command with ended := true, late := command.lateNow }⟩ := by
    intro world
    refine counted.settled index command _ world found rfl ?_
    simp only [SaveCommand.remaining, SaveCommand.lateNow, running, Bool.false_eq_true, if_false,
      if_true]
    split <;> omega
  unfold finishAttempt
  split
  · rename_i retried
    have more : 1 < command.attempts := by
      simp only [Finished.retried, Bool.and_eq_true, decide_eq_true_eq] at retried
      exact retried.2
    refine counted.settled index command _ state.world found rfl ?_ rfl rfl rfl
    simp only [SaveCommand.remaining, SaveCommand.lateNow, running, Bool.false_eq_true, if_false]
    split <;> omega
  · cases task with
    | result => exact atEnd _ (report_uploads index upload true none _ isUpload) rfl rfl
    | error temporary =>
        exact atEnd _ (report_uploads index upload false (some error) _ isUpload) rfl rfl
    | cancelled => exact atEnd _ rfl rfl rfl

theorem counted_step (retryAttempts : ℕ) (event : Event) (before after : Retried)
    (counted : Counted retryAttempts before)
    (taken : step retryAttempts before event = some after) : Counted retryAttempts after := by
  cases event with
  | stream event =>
      simp only [step, Option.ite_none_left_eq_some, Option.map_eq_some_iff] at taken
      obtain ⟨other, world, moved, rfl⟩ := taken
      exact counted.streamed event world (Bool.eq_false_iff.mpr other) moved
  | commit index =>
      simp only [step, Option.bind_eq_some_iff, Option.ite_none_right_eq_some,
        Option.some.injEq] at taken
      obtain ⟨upload, isUpload, command, found, ⟨running, uncommitted⟩, rfl⟩ := taken
      refine counted.committed index upload command _ isUpload found rfl ?_
      simp only [SaveCommand.remaining, running, uncommitted, Bool.false_eq_true, if_false, if_true]
      omega
  | commitLate index =>
      simp only [step, Option.bind_eq_some_iff, Option.ite_none_right_eq_some,
        Option.some.injEq] at taken
      obtain ⟨upload, isUpload, command, found, late, rfl⟩ := taken
      refine counted.committed index upload command _ isUpload found rfl ?_
      simp only [SaveCommand.remaining]
      omega
  | answer index reply error =>
      simp only [step, Option.bind_eq_some_iff, Option.ite_none_right_eq_some,
        Option.some.injEq] at taken
      obtain ⟨upload, isUpload, command, found, ⟨running, -⟩, rfl⟩ := taken
      exact counted.finished index upload command isUpload found running _ error

/-! How often a photo may be shown. -/

def shownPhotos (world : World) : List Photo :=
  (world.controller.streamItems.getD []).map photo

theorem stored_count (retryAttempts : ℕ) (state : Retried)
    (counted : Counted retryAttempts state) (key : Photo) :
    (state.world.store.objects.map storedPhoto).count key ≤ max 1 retryAttempts := by
  rw [List.count_eq_countP, List.countP_map]
  cases key with
  | created index =>
      have same : state.world.store.objects.countP ((· == Photo.created index) ∘ storedPhoto) =
          copies index state.world.store := by
        apply List.countP_congr
        intro stored _
        simp [storedPhoto_created_iff]
      rw [same]
      exact counted.copies_le index
  | foreign objectId =>
      have once := List.nodup_iff_count_le_one.mp state.world.store.ids_nodup objectId
      rw [List.count_eq_countP, List.countP_map] at once
      refine (List.countP_mono_left ?_).trans (once.trans (Nat.le_max_left _ _))
      intro stored _ same
      simp only [Function.comp_apply, beq_iff_eq] at same ⊢
      exact storedPhoto_foreign stored objectId same

structure ShownLaw (retryAttempts : ℕ) (state : Retried) : Prop where
  counted : Counted retryAttempts state
  snapshots : SnapshotsStored state.world.downloads state.world.store
  sourced : AllShown state.world.controller (Sourced state.world)
  bounded : ∀ key, (shownPhotos state.world).count key ≤ max 1 retryAttempts

theorem snapshot_count (retryAttempts : ℕ) (state : Retried) (law : ShownLaw retryAttempts state)
    (request : ℕ) (download : Download) (snapshot : Snapshot)
    (found : state.world.downloads[request]? = some download)
    (answered : download.phase = .answered snapshot) (key : Photo) :
    (snapshot.objects.map storedPhoto).count key ≤ max 1 retryAttempts := by
  obtain ⟨once, inside⟩ := law.snapshots download (List.mem_of_getElem? found) snapshot
    (by rw [answered]; rfl)
  obtain ⟨part, same, sublist⟩ := once.subperm inside
  rw [← (same.map storedPhoto).count_eq key]
  exact ((sublist.map storedPhoto).count_le key).trans
    (stored_count retryAttempts state law.counted key)

theorem next_unshown (retryAttempts : ℕ) (state : Retried) (law : ShownLaw retryAttempts state) :
    Photo.created state.world.created.length ∉ shownPhotos state.world := by
  intro member
  obtain ⟨ref, listed, same⟩ := List.mem_map.mp member
  obtain ⟨items, isList, inside⟩ : ∃ items, state.world.controller.streamItems = some items ∧
      ref ∈ items := by
    cases isList : state.world.controller.streamItems with
    | none => simp [isList] at listed
    | some items => exact ⟨items, rfl, by simpa [isList] using listed⟩
  have sourced := law.sourced items isList ref inside
  cases origin : ref.origin with
  | created index =>
      simp only [photo, origin, Photo.created.injEq] at same
      simp only [Sourced, origin, same, List.getElem?_length] at sourced
      cases sourced
  | decoded stored =>
      simp only [photo, origin, storedPhoto_created_iff] at same
      simp only [Sourced, origin] at sourced
      obtain ⟨command, isCommand, item⟩ := law.counted.owned stored sourced.1 _ same
      obtain ⟨index, before, isCreated⟩ := law.counted.fromCreated command isCommand
      cases isCreated.symm.trans item
      exact absurd before (Nat.lt_irrefl _)

theorem appended_count (retryAttempts : ℕ) (state : Retried) (law : ShownLaw retryAttempts state)
    (item : StreamItem) (key : Photo) :
    (shownPhotos (appended item state.world)).count key ≤ max 1 retryAttempts := by
  have unshown := next_unshown retryAttempts state law
  have before := law.bounded key
  cases isList : state.world.controller.streamItems with
  | none => simp [shownPhotos, appended, isList]
  | some items =>
      simp only [shownPhotos, appended, isList, Option.map_some, Option.getD_some, List.map_append,
        List.map_singleton, List.count_append] at unshown before ⊢
      by_cases new : key = Photo.created state.world.created.length
      · subst new
        rw [List.count_eq_zero.mpr unshown]
        simp [photo]
      · have other : ¬ photo ⟨.created state.world.created.length, item⟩ = key := fun same =>
          new same.symm
        simpa [List.count_singleton, other] using before

theorem shown_streamed (retryAttempts : ℕ) (state : Retried) (law : ShownLaw retryAttempts state)
    (event : PhotoStream.Event) (after : World)
    (taken : PhotoStream.step state.world event = some after) (key : Photo) :
    (shownPhotos after).count key ≤ max 1 retryAttempts := by
  cases step_taken state.world after event taken with
  | deliver request download snapshot found answered =>
      have photos : shownPhotos (deliver request download snapshot state.world) =
          snapshot.objects.map storedPhoto := by
        rw [shownPhotos, deliver_streamItems, Option.getD_some, List.map_map]
        rfl
      rw [photos]
      exact snapshot_count retryAttempts state law request download snapshot found answered key
  | deliverError request error download =>
      rw [shownPhotos, deliverError_streamItems]
      exact Nat.zero_le _
  | appended item => exact appended_count retryAttempts state law item key
  | started item object => exact appended_count retryAttempts state law item key
  | _ => exact law.bounded key

/-- What reaches the store is not shown before it is downloaded. -/
theorem ShownLaw.committed {retryAttempts : ℕ} {state : Retried}
    (law : ShownLaw retryAttempts state) (index : ℕ) (upload : Upload) (command : SaveCommand)
    (counted : Counted retryAttempts (commitAttempt index upload command state)) :
    ShownLaw retryAttempts (commitAttempt index upload command state) := by
  have store := state.world.store.subset_save (savedFrom upload) upload.object
  refine ⟨counted, snapshotsStored_save _ _ _ _ law.snapshots, ?_, law.bounded⟩
  exact allShown_mono state.world.controller _ _ _ rfl
    (fun ref => sourced_mono state.world (commit index upload state.world) ref store
      (List.prefix_refl _)) law.sourced

theorem shownLaw_step (retryAttempts : ℕ) (event : Event) (before after : Retried)
    (law : ShownLaw retryAttempts before)
    (taken : step retryAttempts before event = some after) : ShownLaw retryAttempts after := by
  have counted := counted_step retryAttempts event before after law.counted taken
  cases event with
  | stream event =>
      simp only [step, Option.ite_none_left_eq_some, Option.map_eq_some_iff] at taken
      obtain ⟨-, world, moved, rfl⟩ := taken
      exact ⟨counted, snapshotsStored_step event _ _ law.snapshots moved,
        allSourced_step event _ _ law.snapshots law.sourced moved,
        shown_streamed retryAttempts before law event world moved⟩
  | commit index =>
      simp only [step, Option.bind_eq_some_iff, Option.ite_none_right_eq_some,
        Option.some.injEq] at taken
      obtain ⟨upload, -, command, -, -, rfl⟩ := taken
      exact law.committed index upload _ counted
  | commitLate index =>
      simp only [step, Option.bind_eq_some_iff, Option.ite_none_right_eq_some,
        Option.some.injEq] at taken
      obtain ⟨upload, -, command, -, -, rfl⟩ := taken
      exact law.committed index upload _ counted
  | answer index reply error =>
      simp only [step, Option.bind_eq_some_iff, Option.ite_none_right_eq_some,
        Option.some.injEq] at taken
      obtain ⟨upload, -, command, -, -, rfl⟩ := taken
      revert counted
      unfold finishAttempt
      split
      · intro counted
        exact ⟨counted, law.snapshots, law.sourced, law.bounded⟩
      · cases didComplete reply <;> intro counted <;>
          exact ⟨counted, law.snapshots, law.sourced, law.bounded⟩

theorem shownLaw_reached (retryAttempts : ℕ) (events : List Event) (state : Retried)
    (run : (retriedMachine retryAttempts).Reaches events state) :
    ShownLaw retryAttempts state := by
  have start : ShownLaw retryAttempts (retriedMachine retryAttempts).initial := by
    refine ⟨⟨rfl, List.nodup_nil, ?_, ?_, ?_⟩, ?_, ?_, ?_⟩
    · rintro command ⟨⟩
    · rintro stored ⟨⟩
    · rintro command ⟨⟩
    · rintro download ⟨⟩
    · rintro items ⟨⟩
    · exact fun key => Nat.zero_le _
  exact reaches_invariant (retriedMachine retryAttempts) (ShownLaw retryAttempts) start
    (fun event before after => shownLaw_step retryAttempts event before after) events state run

/-- No photo is shown more often than its save may be attempted, in any interleaving. -/
theorem shown_at_most_attempts (retryAttempts : ℕ) (events : List Event) :
    (retriedMachine retryAttempts).Throughout (fun state =>
      ∀ key, (shownPhotos state.world).count key ≤ max 1 retryAttempts) events := by
  intro before state _ run
  exact (shownLaw_reached retryAttempts before state run).bounded

def createdOnce : List Event := firstDownload.map .stream ++
  [.stream (.didCreateItem (some smallItem))]

def savingOnce (retryAttempts : ℕ) : Retried where
  world := started smallItem (encoded [255] "a" ⟨4, 3⟩) emptyStream
  commands := [⟨.created 0, retryAttempts, false, 0, false⟩]

theorem savingOnce_reached (retryAttempts : ℕ) :
    (retriedMachine retryAttempts).Reaches createdOnce (savingOnce retryAttempts) :=
  (reaches_snoc_iff _ _ _ _).mpr ⟨⟨emptyStream, []⟩, rfl, rfl⟩

/-- The answer to a save that was committed is lost, and the save is attempted again. -/
def savedTwice : List Event :=
  [.commit 0, .answer 0 ⟨some .failed, 0, .missing⟩ ⟨100⟩, .commit 0, .stream .didPullToRefresh,
    .stream (.answer 1 [⟨0, some 0, encoded [255] "a" ⟨4, 3⟩⟩,
      ⟨1, some 0, encoded [255] "a" ⟨4, 3⟩⟩]), .stream (.deliver 1)]

theorem savedTwice_shows (attempts : ℕ) :
    ((retriedMachine (attempts + 2)).runFrom (savingOnce (attempts + 2)) savedTwice).map
      (fun state => (copies 0 state.world.store, shownPhotos state.world)) =
        some (2, [.created 0, .created 0]) := by
  rfl

theorem savedTwice_reached (retryAttempts : ℕ) (several : 2 ≤ retryAttempts) :
    ∃ state, (retriedMachine retryAttempts).Reaches (createdOnce ++ savedTwice) state ∧
      copies 0 state.world.store = 2 ∧ shownPhotos state.world = [.created 0, .created 0] := by
  obtain ⟨others, rfl⟩ : ∃ others, retryAttempts = others + 2 := ⟨retryAttempts - 2, by omega⟩
  obtain ⟨state, later, twice⟩ := Option.map_eq_some_iff.mp (savedTwice_shows others)
  refine ⟨state, ?_, Prod.mk.inj twice⟩
  rw [Machine.Reaches, runFrom_append, savingOnce_reached (others + 2)]
  exact later

/-- A photo is never shown twice exactly when no save is attempted twice. Otherwise
one committed save whose answer is lost stores and shows it twice. -/
theorem shown_once_iff (retryAttempts : ℕ) :
    ((∀ events, (retriedMachine retryAttempts).Throughout
      (fun state => (shownPhotos state.world).Nodup) events) ↔ retryAttempts ≤ 1) ∧
      (2 ≤ retryAttempts → ∃ state,
        (retriedMachine retryAttempts).Reaches (createdOnce ++ savedTwice) state ∧
          copies 0 state.world.store = 2 ∧
            shownPhotos state.world = [.created 0, .created 0]) := by
  refine ⟨⟨?_, ?_⟩, savedTwice_reached retryAttempts⟩
  · intro always
    by_contra more
    obtain ⟨state, run, -, twice⟩ := savedTwice_reached retryAttempts (by omega)
    have once : (shownPhotos state.world).Nodup :=
      always _ (createdOnce ++ savedTwice) state (List.prefix_refl _) run
    rw [twice] at once
    exact absurd once (by decide)
  · intro single events before state _ run
    have bounded := (shownLaw_reached retryAttempts before state run).bounded
    rw [max_eq_left single] at bounded
    exact List.nodup_iff_count_le_one.mpr bounded

end CollectionViewWorkshop.RetriedUploads
