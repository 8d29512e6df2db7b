import DshKernel.Jsonl.FailedWrites
import DshKernel.Jsonl.SessionHandle

/-!
# The file of a handle

What a handle writes goes to the file of its session, by operations that may fail. As long as none
fails after a write has taken effect, the file holds each batch once, in the order of the writes.
-/

namespace DshKernel.Jsonl

open Js Lib Faulty Session JsonlSessionHandle

/-- What is stored, as a handle knows it. -/
structure OnDisk where
  stored : List SessionEvent
  materialized : Bool
  tornTail : Bool
  recoveredTail : Option (List SessionEvent)

/-- After a batch was written, or was not. -/
def OnDisk.settle (disk : OnDisk) (batch : List SessionEvent) : Bool → OnDisk
  | true => ⟨disk.stored ++ batch, true, disk.tornTail, none⟩
  | false => disk

structure FileHandle where
  handle : JsonlSessionHandle
  files : StoreState

inductive FileAction where
  | handle (action : HandleAction)
  | storage (schedule : Schedule FileOp Nat) (random : String)

namespace JsonlSessionHandle

variable {h after : JsonlSessionHandle} {live refused : Bool} {batch : List SessionEvent}

def onDisk (h : JsonlSessionHandle) : OnDisk := ⟨h.stored, h.materialized, h.tornTail, h.recoveredTail⟩

theorem onDisk_giveUp : (h.giveUp live batch).onDisk = h.onDisk := by
  cases live <;> rfl

theorem onDisk_begin : (h.begin live batch refused).onDisk = h.onDisk := by
  unfold begin
  split
  · exact onDisk_giveUp
  · split
    · rfl
    · split
      · rfl
      · exact onDisk_giveUp

theorem onDisk_lookAtBuffer : h.lookAtBuffer.onDisk = h.onDisk := by
  unfold lookAtBuffer
  split <;> rfl

theorem onDisk_drainLive : h.drainLive.onDisk = h.onDisk := by
  unfold drainLive
  dsimp only
  split
  · rfl
  · exact onDisk_lookAtBuffer

theorem onDisk_queue {operation : HandleOperation} : (h.queue operation).onDisk = h.onDisk := by
  unfold queue
  split <;> rfl

/-- Only the storage changes what is stored. -/
theorem onDisk_step {action : HandleAction} {news : List Drained}
    (hstep : h.step action = some (after, news)) (hother : ∀ succeeds, action ≠ .storage succeeds) :
    after.onDisk = h.onDisk := by
  cases action with
  | append | flush =>
    cases hstep
    exact onDisk_queue
  | close =>
    cases hstep
    split
    · rfl
    · exact onDisk_drainLive
  | enqueueLive event =>
    cases hstep
    rfl
  | timer =>
    obtain ⟨-, hstep⟩ := Option.ite_none_right_eq_some.mp hstep
    cases hstep
    exact onDisk_drainLive
  | drainLive =>
    cases hstep
    exact onDisk_drainLive
  | start refused =>
    rw [step] at hstep
    split at hstep
    · rename_i operation rest hwriting hchain
      cases hstep
      cases operation with
      | append batch => exact onDisk_begin
      | flush =>
        rw [startOperation]
        split <;> rfl
      | drain => exact onDisk_begin
    · cases hstep
  | storage succeeds => exact absurd rfl (hother succeeds)
  | look =>
    obtain ⟨-, hstep⟩ := Option.ite_none_right_eq_some.mp hstep
    cases hstep
    exact onDisk_lookAtBuffer
  | clear =>
    rw [step] at hstep
    split at hstep
    · cases hstep
      rfl
    · cases hstep

end JsonlSessionHandle

section Operations

variable (backend : Backend) (header : SessionHeader) (cut committed : Nat)

/-- `repair`, whose operations have the names that they have in the rollback of an append -/
def repair (size : Nat) : StoreProgram Unit := do
  truncateFile .truncateLog (logPath backend backend.compression) size
  operate .openRollback
  Faulty.ensure (operate .syncRollback) (operate .closeRollback)

/-- The operation of the storage that a write waits for: `persistHeader`, `truncateTornTail` or
`persistBatch`. -/
def JsonlSessionHandle.operation (h : JsonlSessionHandle) (random : String) :
    HandleWrite → StoreProgram Unit
  | .header => materialize backend header cut [] random
  | .batch _ batch =>
    match h.tornTail, h.recoveredTail.getD [] with
    | true, _ => repair backend committed
    | false, event :: rest =>
      persistBatch backend header ((event :: rest).map SessionEvent.toJson) h.materialized cut random
    | false, [] => persistBatch backend header (batch.map SessionEvent.toJson) h.materialized cut random

def FileHandle.step (f : FileHandle) : FileAction → Option (FileHandle × List Drained)
  | .handle (.storage _) => none
  | .handle action => (f.handle.step action).map fun (next, news) => (⟨next, f.files⟩, news)
  | .storage schedule random => f.handle.writing.map fun write =>
    let ran := (f.handle.operation backend header cut committed random write).run schedule f.files
    (⟨f.handle.storageSettles ran.1.isOk write, ran.2⟩, [])

/-- The operations of a rollback work, and none fails after the write has taken effect. -/
def FileHandle.Commits (f : FileHandle) : FileAction → Prop
  | .handle _ => True
  | .storage schedule random => RollbackWorks schedule ∧
    ¬FailsAfterCommit backend f.handle.materialized schedule random f.files

end Operations

/-- The batches that were written behind `base`, each once, and what is torn behind them. -/
structure FilesOk (backend : Backend) (header : SessionHeader) (cut : Nat) (base : List UInt8)
    (origin : List SessionEvent) (batches : List (List SessionEvent)) (torn : List UInt8)
    (disk : OnDisk) (files : StoreState) : Prop where
  stored : disk.stored = origin ++ batches.flatten
  log : disk.materialized = true → files.get? (logPath backend backend.compression) =
    some (base ++ batches.flatMap (fun batch => encodeBatch backend (batch.map SessionEvent.toJson)) ++
      torn)
  whole : disk.tornTail = false → torn = []
  repairs : disk.tornTail = true → disk.materialized = true ∧ batches = []
  clear : disk.materialized = false → Clear backend files ∧ batches = [] ∧
    disk.recoveredTail.getD [] = [] ∧
      ∃ start, headerBytes backend.text header cut = .ok start ∧ base = encodeText backend start

section Settling

variable {backend : Backend} {header : SessionHeader} {cut : Nat} {base torn before : List UInt8}
variable {origin batch : List SessionEvent} {batches : List (List SessionEvent)} {disk : OnDisk}
variable {files after : StoreState} {schedule : Schedule FileOp Nat} {random : String}
variable {events : List Json} {result : Except StoreError Unit}

theorem appendLines_settles (hrollback : RollbackWorks schedule)
    (hcommits : ¬FailsAfterCommit backend true schedule random files)
    (hlog : files.get? (logPath backend backend.compression) = some before)
    (hrun : (appendLines backend events).run schedule files = (result, after)) :
    after.get? (logPath backend backend.compression) =
      some (before ++ if result.isOk then encodeBatch backend events else []) := by
  have houtcome := @appendLines_outcome backend _ _ _ events hrollback hlog
  rw [hrun] at houtcome
  cases houtcome with
  | stored _ hafter => exact hafter
  | undone _ hafter => exact hafter.trans (congrArg some (List.append_nil _).symm)
  | kept hops hfails _ => exact absurd ⟨hops, hfails⟩ hcommits

theorem materialize_settles {start : List UInt8} (hstart : headerBytes backend.text header cut = .ok start)
    (hcommits : ¬FailsAfterCommit backend false schedule random files) (hclear : Clear backend files)
    (hrun : (materialize backend header cut events random).run schedule files = (result, after)) :
    if result.isOk then after.get? (logPath backend backend.compression) =
      some (encodeText backend start ++ if events = [] then [] else encodeBatch backend events)
    else Clear backend after := by
  have hcontent : encodeMaterialization backend header cut events =
      .ok (encodeText backend start ++ if events = [] then [] else encodeBatch backend events) := by
    unfold encodeMaterialization
    rw [hstart]
    dsimp only
    split
    · rw [List.append_nil]
    · rfl
  have houtcome := @materialize_outcome backend random _ schedule files _ _ _ hcontent hclear
  rw [hrun] at houtcome
  cases houtcome with
  | stored _ hafter => exact hafter
  | undone _ hafter => exact hafter
  | kept hfresh hops hfails _ => exact absurd ⟨hfresh, hops, hfails⟩ hcommits

theorem repair_settles
    (hlog : files.get? (logPath backend backend.compression) = some (base ++ torn))
    (hrun : (repair backend base.length).run schedule files = (result, after)) :
    ∃ torn, after.get? (logPath backend backend.compression) = some (base ++ torn) ∧
      (result.isOk = true → torn = []) := by
  have htruncate : Spec (fun _ => True)
      (truncateFile .truncateLog (logPath backend backend.compression) base.length) [.truncateLog]
      (fun state => state.get? (logPath backend backend.compression) = some (base ++ torn))
      (fun _ state => state.get? (logPath backend backend.compression) = some base)
      (fun state => ∃ torn, state.get? (logPath backend backend.compression) = some (base ++ torn)) := by
    apply spec_change
    · intro state hstate
      simp [hstate]
    · exact fun _ hstate => ⟨torn, hstate⟩
  have hbase : ∀ state : StoreState, state.get? (logPath backend backend.compression) = some base →
      ∃ torn, state.get? (logPath backend backend.compression) = some (base ++ torn) :=
    fun _ hstate => ⟨[], hstate.trans (congrArg some (List.append_nil _).symm)⟩
  have hspec := htruncate.bind fun _ => (spec_operate .openRollback hbase).bind fun _ =>
    (spec_operate .syncRollback hbase).ensure (fun _ => spec_operate .closeRollback hbase)
      (spec_operate .closeRollback fun _ h => h)
  rcases hspec schedule files trivial hlog with
    ⟨_, _, hok, -, hafter⟩ | ⟨_, _, herror, -, torn, hafter⟩
  · cases hrun.symm.trans hok
    exact ⟨[], hafter.trans (congrArg some (List.append_nil _).symm), fun _ => rfl⟩
  · cases hrun.symm.trans herror
    exact ⟨torn, hafter, nofun⟩

namespace FilesOk

theorem wrote (h : FilesOk backend header cut base origin batches torn disk files)
    (htorn : disk.tornTail = false) (hlog : after.get? (logPath backend backend.compression) =
      some (base ++ batches.flatMap (fun batch => encodeBatch backend (batch.map SessionEvent.toJson)) ++
        encodeBatch backend (batch.map SessionEvent.toJson))) :
    FilesOk backend header cut base origin (batches ++ [batch]) [] (disk.settle batch true) after where
  stored := by simp [OnDisk.settle, h.stored]
  log _ := by simpa using hlog
  whole _ := rfl
  repairs htrue := absurd (htorn.symm.trans htrue) nofun
  clear := nofun

theorem persist (h : FilesOk backend header cut base origin batches torn disk files)
    (htorn : disk.tornTail = false) (hrollback : RollbackWorks schedule)
    (hcommits : ¬FailsAfterCommit backend disk.materialized schedule random files)
    (hrun : (persistBatch backend header (batch.map SessionEvent.toJson) disk.materialized cut
      random).run schedule files = (result, after)) :
    ∃ batches, FilesOk backend header cut base origin batches [] (disk.settle batch result.isOk) after := by
  obtain rfl := h.whole htorn
  cases hmaterialized : disk.materialized with
  | true =>
    rw [hmaterialized] at hcommits hrun
    have hsettles := appendLines_settles hrollback hcommits (h.log hmaterialized) hrun
    rw [List.append_nil] at hsettles
    cases result with
    | ok => exact ⟨_, h.wrote htorn hsettles⟩
    | error =>
      refine ⟨batches, { h with log := fun _ => hsettles, clear := fun hfalse => ?_ }⟩
      cases hmaterialized.symm.trans hfalse
  | false =>
    rw [hmaterialized] at hcommits hrun
    obtain ⟨hclear, rfl, hrecovered, start, hstart, rfl⟩ := h.clear hmaterialized
    have hsettles := materialize_settles hstart hcommits hclear hrun
    cases result with
    | ok =>
      rw [if_pos (by rfl)] at hsettles
      by_cases hempty : batch = []
      · subst hempty
        refine ⟨[], { h with
          stored := ?_, log := fun _ => ?_, clear := nofun
          repairs := fun htrue => absurd (htorn.symm.trans htrue) nofun }⟩
        · exact (List.append_nil _).trans h.stored
        · simpa using hsettles
      · rw [if_neg (by simpa using hempty)] at hsettles
        refine ⟨_, h.wrote htorn ?_⟩
        simpa using hsettles
    | error =>
      refine ⟨[], { h with log := fun htrue => ?_, clear := fun _ => ?_ }⟩
      · cases hmaterialized.symm.trans htrue
      · exact ⟨hsettles, rfl, hrecovered, start, hstart, rfl⟩

theorem writeHeader (h : FilesOk backend header cut base origin batches torn disk files)
    (hmaterialized : disk.materialized = false)
    (hcommits : ¬FailsAfterCommit backend disk.materialized schedule random files)
    (hrun : (materialize backend header cut [] random).run schedule files = (result, after)) :
    FilesOk backend header cut base origin batches torn
      { disk with materialized := disk.materialized || result.isOk } after := by
  have htorn : disk.tornTail = false := by
    apply Bool.eq_false_iff.mpr
    intro htrue
    cases hmaterialized.symm.trans (h.repairs htrue).1
  obtain rfl := h.whole htorn
  obtain ⟨hclear, rfl, hrecovered, start, hstart, rfl⟩ := h.clear hmaterialized
  rw [hmaterialized] at hcommits ⊢
  have hsettles := materialize_settles hstart hcommits hclear hrun
  cases result with
  | ok =>
    refine { h with
      log := fun _ => ?_, clear := nofun, repairs := fun htrue => absurd (htorn.symm.trans htrue) nofun }
    rw [if_pos (by rfl)] at hsettles
    simpa using hsettles
  | error => exact { h with
      log := nofun, repairs := fun htrue => absurd (htorn.symm.trans htrue) nofun
      clear := fun _ => ⟨hsettles, rfl, hrecovered, start, hstart, rfl⟩ }

theorem truncate (h : FilesOk backend header cut base origin batches torn disk files)
    (htorn : disk.tornTail = true)
    (hrun : (repair backend base.length).run schedule files = (result, after)) :
    ∃ torn, FilesOk backend header cut base origin [] torn { disk with tornTail := !result.isOk }
      after := by
  obtain ⟨hmaterialized, rfl⟩ := h.repairs htorn
  have hlog := h.log hmaterialized
  rw [List.flatMap_nil, List.append_nil] at hlog
  obtain ⟨torn, hafter, hwhole⟩ := repair_settles hlog hrun
  rw [← List.append_nil base] at hafter
  exact ⟨torn, h.stored, fun _ => hafter, fun hfalse => hwhole (by simpa using hfalse),
    fun _ => ⟨hmaterialized, rfl⟩, fun hfalse => nomatch hmaterialized.symm.trans hfalse⟩

theorem storage {handle : JsonlSessionHandle} {write : HandleWrite}
    (h : FilesOk backend header cut base origin batches torn handle.onDisk files)
    (hexpects : handle.Expects write) (hrollback : RollbackWorks schedule)
    (hcommits : ¬FailsAfterCommit backend handle.materialized schedule random files)
    (hrun : (handle.operation backend header cut base.length random write).run schedule files =
      (result, after)) :
    ∃ batches torn, FilesOk backend header cut base origin batches torn
      (handle.storageSettles result.isOk write).onDisk after := by
  cases write with
  | header => exact ⟨batches, torn, h.writeHeader hexpects hcommits hrun⟩
  | batch live batch =>
    unfold storageSettles
    dsimp only
    split
    · rename_i htorn
      simp only [operation, htorn] at hrun
      obtain ⟨torn, hok⟩ := h.truncate htorn hrun
      refine ⟨[], torn, ?_⟩
      cases result with
      | ok => exact hok
      | error =>
        rw [if_neg (by rintro ⟨⟩), onDisk_giveUp, onDisk, htorn]
        exact hok
    · rename_i event rest htorn hrecovered
      simp only [operation, htorn, hrecovered] at hrun
      obtain ⟨batches, hok⟩ := h.persist htorn hrollback hcommits hrun
      refine ⟨batches, [], ?_⟩
      cases result with
      | ok =>
        have hmaterialized : handle.materialized = true := by
          apply Bool.of_not_eq_false
          intro hfalse
          cases hrecovered.symm.trans (h.clear hfalse).2.2.1
        exact { hok with
          log := fun _ => hok.log rfl, repairs := fun htrue => ⟨hmaterialized, (hok.repairs htrue).2⟩
          clear := fun hfalse => (nomatch hmaterialized.symm.trans hfalse) }
      | error =>
        rw [if_neg (by rintro ⟨⟩), onDisk_giveUp]
        exact hok
    · rename_i htorn hrecovered
      simp only [operation, htorn, hrecovered] at hrun
      obtain ⟨batches, hok⟩ := h.persist htorn hrollback hcommits hrun
      refine ⟨batches, [], ?_⟩
      cases result with
      | ok => exact hok
      | error =>
        rw [if_neg (by rintro ⟨⟩), onDisk_giveUp]
        exact { hok with clear := fun hfalse =>
          ⟨(hok.clear hfalse).1, (hok.clear hfalse).2.1, rfl, (hok.clear hfalse).2.2.2⟩ }

theorem readsAs {start : List UInt8} {logged : List (Bool × List Json)}
    (h : FilesOk backend header cut (logBytes backend start logged) origin batches torn disk files)
    (hcodec : backend.compression = .zstd → Compresses backend)
    (hlogged : Logged backend header cut start
      (logged ++ batches.map fun batch => (backend.packChunks, batch.map SessionEvent.toJson)))
    (hmaterialized : disk.materialized = true) (hwhole : disk.tornTail = false) :
    ReadsAs backend files (loggedEvents logged ++ batches.flatten.map SessionEvent.toJson) := by
  obtain rfl := h.whole hwhole
  have hbytes : logBytes backend start (logged ++ batches.map fun batch =>
      (backend.packChunks, batch.map SessionEvent.toJson)) = logBytes backend start logged ++
        batches.flatMap (fun batch => encodeBatch backend (batch.map SessionEvent.toJson)) ++ [] := by
    unfold logBytes
    rw [List.flatMap_append, List.flatMap_map, List.append_nil, List.append_assoc]
    rfl
  have hreads := readsAs_logged hcodec hlogged ((h.log hmaterialized).trans (congrArg some hbytes.symm))
  unfold loggedEvents at hreads ⊢
  rw [List.flatMap_append, List.flatMap_map] at hreads
  rwa [List.map_flatten, ← List.flatMap_def]

end FilesOk

end Settling

section Runs

variable {backend : Backend} {header : SessionHeader} {cut : Nat} {base torn : List UInt8}
variable {origin stored : List SessionEvent} {batches : List (List SessionEvent)} {f after : FileHandle}
variable {action : FileAction} {log news : List Drained}

/-- A step on the files is one of the handle, and what it leaves in the file is what it stores. -/
theorem FileHandle.step_refines (hok : HandleOk origin f.handle)
    (h : FilesOk backend header cut base stored batches torn f.handle.onDisk f.files)
    (hcommits : f.Commits backend action)
    (hstep : f.step backend header cut base.length action = some (after, news)) :
    (∃ action, f.handle.step action = some (after.handle, news)) ∧
      ∃ batches torn, FilesOk backend header cut base stored batches torn after.handle.onDisk after.files := by
  cases action with
  | handle action =>
    have hother : ∀ succeeds, action ≠ .storage succeeds := by
      rintro succeeds rfl
      cases hstep
    have hmap : (f.handle.step action).map (fun (next, news) => (⟨next, f.files⟩, news)) =
        some (after, news) := by
      cases action with
      | storage succeeds => exact absurd rfl (hother succeeds)
      | _ => exact hstep
    obtain ⟨⟨next, _⟩, hnext, heq⟩ := Option.map_eq_some_iff.mp hmap
    cases heq
    refine ⟨⟨action, hnext⟩, batches, torn, ?_⟩
    rw [onDisk_step hnext hother]
    exact h
  | storage schedule random =>
    obtain ⟨write, hwriting, heq⟩ := Option.map_eq_some_iff.mp hstep
    cases heq
    have hnext : ∀ succeeds, f.handle.step (.storage succeeds) =
        some (f.handle.storageSettles succeeds write, []) := by
      intro succeeds
      rw [JsonlSessionHandle.step, hwriting]
      rfl
    exact ⟨⟨_, hnext _⟩, h.storage (hok.writing write hwriting) hcommits.1 hcommits.2 rfl⟩

/-- The handle on its files refines the handle on a log, as long as no operation on them fails after
a write has taken effect: whatever else fails, the file holds each batch that was written, once and in
the order of the writes, and reads back as their events. -/
theorem handle_refined_by_files {materialized tornTail : Bool}
    {recoveredTail : Option (List SessionEvent)} {files : StoreState}
    (hstored : assertContiguous 0 (stored ++ recoveredTail.getD []) = true)
    (hfiles : FilesOk backend header cut base stored [] torn
      ⟨stored, materialized, tornTail, recoveredTail⟩ files)
    (run : Reaches (FileHandle.step backend header cut base.length) (FileHandle.Commits backend)
      ⟨.opened stored materialized tornTail recoveredTail, files⟩ f log) :
    Reaches JsonlSessionHandle.step (fun _ _ => True)
        (.opened stored materialized tornTail recoveredTail) f.handle log ∧
      ∃ batches torn, FilesOk backend header cut base stored batches torn f.handle.onDisk f.files ∧
        ∀ start logged, base = logBytes backend start logged →
          (backend.compression = .zstd → Compresses backend) →
          Logged backend header cut start
            (logged ++ batches.map fun batch => (backend.packChunks, batch.map SessionEvent.toJson)) →
          f.handle.materialized = true → f.handle.tornTail = false →
          ReadsAs backend f.files (loggedEvents logged ++ batches.flatten.map SessionEvent.toJson) := by
  have hkept : Reaches JsonlSessionHandle.step (fun _ _ => True)
      (.opened stored materialized tornTail recoveredTail) f.handle log ∧
      ∃ batches torn, FilesOk backend header cut base stored batches torn f.handle.onDisk f.files := by
    refine @Reaches.invariant _ _ _ _ _ _ _ _ (fun f log =>
      Reaches JsonlSessionHandle.step (fun _ _ => True)
        (.opened stored materialized tornTail recoveredTail) f.handle log ∧
      ∃ batches torn, FilesOk backend header cut base stored batches torn f.handle.onDisk f.files)
      run ⟨.refl, [], torn, hfiles⟩ ?_
    intro f after log news action ⟨hrun, batches, torn, hok⟩ hcommits hstep
    obtain ⟨⟨action, hnext⟩, hfiles⟩ :=
      FileHandle.step_refines (handleOk_of_run hstored hrun).1 hok hcommits hstep
    exact ⟨hrun.next action trivial hnext, hfiles⟩
  obtain ⟨hrun, batches, torn, hok⟩ := hkept
  refine ⟨hrun, batches, torn, hok, ?_⟩
  rintro start logged rfl hcodec hlogged
  exact hok.readsAs hcodec hlogged

end Runs

/-- The first write fails to sync, and is then repeated. -/
theorem handle_refined_by_files_retried : ∃ f : FileHandle, f.handle.stored = [turnStarted] ∧
    ∃ batches torn, FilesOk sampleBackend topLevelHeader 0 sampleStart [] batches torn f.handle.onDisk
      f.files := by
  have hfiles : FilesOk sampleBackend topLevelHeader 0 sampleStart [] [] []
      ⟨[], true, false, none⟩ headerOnly := ⟨rfl, fun _ => rfl, fun _ => rfl, nofun, nofun⟩
  have hfails : ∀ f : FileHandle, f.Commits sampleBackend (.storage (onlyFails .syncLog) "r") := by
    refine fun f => ⟨rollbackWorks_sample, ?_⟩
    cases f.handle.materialized with
    | true => exact fun hcommits => nomatch hcommits.1 .syncLog (by decide)
    | false => exact fun hcommits => absurd hcommits.2.2 (by decide)
  have hworks : ∀ f : FileHandle, f.Commits sampleBackend (.storage (fun _ => none) "r") := by
    refine fun f => ⟨fun _ _ => rfl, ?_⟩
    cases f.handle.materialized with
    | true => exact fun hcommits => hcommits.2 rfl
    | false => exact fun ⟨_, _, _, _, hfails⟩ => hfails rfl
  have run : Reaches (FileHandle.step sampleBackend topLevelHeader 0 sampleStart.length)
      (FileHandle.Commits sampleBackend) ⟨.opened [] true false none, headerOnly⟩ _ _ :=
    .next (.next (.next (.next (.next (.next (.next (.next (.next (.next .refl
      (.handle (.enqueueLive turnStarted)) trivial rfl) (.handle .drainLive) trivial rfl)
      (.handle (.start false)) trivial rfl) (.storage (onlyFails .syncLog) "r") (hfails _) rfl)
      (.handle .clear) trivial rfl) (.handle .drainLive) trivial rfl)
      (.handle (.start false)) trivial rfl) (.storage (fun _ => none) "r") (hworks _) rfl)
      (.handle .look) trivial rfl) (.handle .clear) trivial rfl
  obtain ⟨-, batches, torn, hok, -⟩ := handle_refined_by_files rfl hfiles run
  exact ⟨_, rfl, batches, torn, hok⟩

end DshKernel.Jsonl
