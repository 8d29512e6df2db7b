import DshKernel.Jsonl.PersistBatch

/-!
# The outcomes of a write

What the file of a session holds after each way in which a write can end.
-/

namespace DshKernel.Jsonl

open Js Lib Faulty List

def RollbackWorks (schedule : Schedule FileOp Nat) : Prop :=
  ∀ op ∈ [FileOp.closeBeforeRollback, .openRollback, .truncateLog, .syncRollback, .closeRollback],
    schedule op = none

section Operations

variable {allowed : Schedule FileOp Nat → Prop} {op closeOp : FileOp} {path : String}
  {pre failed : StoreState → Prop} {post : Unit → StoreState → Prop}

theorem spec_change {effect : StoreState → StoreState}
    (heffect : ∀ state, pre state → post () (effect state)) (hfailed : ∀ state, pre state → failed state) :
    Spec allowed (change op effect) [op] pre post failed :=
  spec_perform heffect fun _ => hfailed

theorem spec_operate (op : FileOp) (hfailed : ∀ state, pre state → failed state) :
    Spec allowed (operate op) [op] pre (fun _ => pre) failed :=
  spec_change (fun _ hpre => hpre) hfailed

theorem spec_probe (habsent : ∀ state, pre state → state.get? path = none)
    (hfailed : ∀ state, pre state → failed state) :
    Spec allowed (probe op closeOp path) [op] pre (fun found state => found = false ∧ pre state)
      failed := by
  have hread : Spec allowed
      (do
        let state ← Faulty.get
        if (state.get? path).isSome then do
          operate closeOp
          pure true
        else pure false) [] pre (fun found state => found = false ∧ pre state) failed := by
    apply spec_get
    intro found hfound
    rw [habsent found hfound]
    apply spec_pure
    rintro state rfl
    exact ⟨rfl, hfound⟩
  exact (spec_operate op hfailed).bind fun _ => hread

variable {next : StoreProgram Unit}

theorem spec_unlessExists {ops : List FileOp}
    (habsent : ∀ state, pre state → state.get? path = none)
    (h : Spec allowed next ops pre post failed) :
    Spec allowed (unlessExists op path next) ops pre post failed := by
  unfold unlessExists
  apply spec_get
  intro found hfound
  rw [habsent found hfound]
  refine h.weaken ?_ (fun _ _ hpost => hpost) (fun _ hfails => hfails)
  rintro state rfl
  exact hfound

theorem fails_unlessExists
    (hpresent : ∀ state, pre state → (state.get? path).isSome = true) :
    Fails allowed (unlessExists op path next) pre pre := by
  intro schedule state _ hpre
  refine ⟨.fileExists op, state, ?_, hpre⟩
  unfold unlessExists
  rw [run_bind_ok (show Faulty.get.run schedule state = (.ok state, state) from rfl), if_pos (hpresent state hpre)]
  rfl

end Operations

section Files

variable {state : StoreState} {path other : String} {bytes more : List UInt8}

@[simp] theorem get?_put : (state.put path bytes).get? other =
    if other = path then some bytes else state.get? other :=
  OrderedMap.get?_set

@[simp] theorem get?_remove : (state.remove path).get? other =
    if other = path then none else state.get? other :=
  OrderedMap.get?_delete

theorem get?_extend : (extend path more state).get? other =
    if other = path then some ((state.get? path).getD [] ++ more) else state.get? other :=
  OrderedMap.get?_set

end Files

section Append

variable {backend : Backend} {path : String} {before content : List UInt8}

def LogIs (path : String) (bytes : List UInt8) (closed : Bool) (state : StoreState) : Prop :=
  state.get? path = some bytes ∧ state.closed = closed

def LogBegins (path : String) (bytes : List UInt8) (state : StoreState) : Prop :=
  ∃ more, LogIs path (bytes ++ more) false state

theorem LogIs.extend {state : StoreState} (h : LogIs path before false state) (more : List UInt8) :
    LogIs path (before ++ more) false (extend path more state) := by
  refine ⟨?_, h.2⟩
  rw [get?_extend, if_pos rfl, h.1]
  rfl

theorem spec_writeLog :
    Spec RollbackWorks (do writeFile .writeLog path content; operate .syncLog)
      [.writeLog, .syncLog] (LogIs path before false)
      (fun _ => LogIs path (before ++ content) false) (LogBegins path before) := by
  have hwrite : Spec RollbackWorks (writeFile .writeLog path content) [.writeLog]
      (LogIs path before false) (fun _ => LogIs path (before ++ content) false)
      (LogBegins path before) := by
    apply spec_perform
    · exact fun state hstate => hstate.extend content
    · exact fun written state hstate => ⟨_, hstate.extend _⟩
  exact hwrite.bind fun _ => spec_operate .syncLog fun state hstate => ⟨content, hstate⟩

def LogShut (path : String) (bytes : List UInt8) (state : StoreState) : Prop :=
  ∃ more, LogIs path (bytes ++ more) true state

theorem spec_closeBeforeRollback :
    Spec RollbackWorks (closeAppendHandle .closeBeforeRollback) [.closeBeforeRollback]
      (LogBegins path before) (fun _ => LogShut path before) (fun _ => True) := by
  unfold closeAppendHandle
  apply spec_get
  rintro found ⟨more, hbytes, hopen⟩
  rw [hopen]
  have hmark : Spec RollbackWorks
      (Faulty.modify fun state : StoreState => { state with closed := true } : StoreProgram Unit) []
      (fun state => state = found) (fun _ => LogShut path before) (fun _ => True) := by
    intro schedule state _ hstate
    refine .inl ⟨(), _, rfl, ?_, more, ?_, rfl⟩
    · intro op hop
      cases hop
    · rw [hstate]
      exact hbytes
  exact hmark.bind fun _ => spec_operate .closeBeforeRollback fun _ _ => trivial

theorem spec_rollback :
    Spec RollbackWorks
      (do closeAppendHandle .closeBeforeRollback; rollbackAppend path before.length)
      [.closeBeforeRollback, .openRollback, .truncateLog, .syncRollback, .closeRollback]
      (LogBegins path before) (fun _ => LogIs path before true) (fun _ => True) := by
  have htruncate : Spec RollbackWorks (truncateFile .truncateLog path before.length) [.truncateLog]
      (LogShut path before) (fun _ => LogIs path before true) (fun _ => True) := by
    apply spec_change
    · rintro state ⟨more, hbytes, hclosed⟩
      refine ⟨?_, hclosed⟩
      simp [hbytes]
    · exact fun _ _ => trivial
  have hbody := htruncate.bind fun _ => spec_operate .syncRollback fun _ _ => trivial
  have hensure := hbody.ensure
    (fun _ => spec_operate .closeRollback fun _ _ => trivial)
    (spec_operate .closeRollback fun _ _ => trivial)
  have hopen : Spec RollbackWorks (operate .openRollback) [.openRollback] (LogShut path before)
      (fun _ => LogShut path before) (fun _ => True) := spec_operate .openRollback fun _ _ => trivial
  exact spec_closeBeforeRollback.bind fun _ => hopen.bind fun _ => hensure

theorem fails_handler (error : StoreError) :
    Fails RollbackWorks
      (do
        Faulty.rescue
          (do closeAppendHandle .closeBeforeRollback; rollbackAppend path before.length)
          fun rollbackError => Faulty.throw (.rollback error rollbackError)
        (Faulty.throw error : StoreProgram Unit))
      (LogBegins path before) (LogIs path before true) := by
  intro schedule state hallowed hstate
  obtain ⟨_, after, hrun, hafter⟩ := spec_rollback.returns hallowed hstate hallowed
  rw [run_bind_ok (run_rescue_ok hrun _)]
  exact ⟨error, after, rfl, hafter⟩

def appendOps : List FileOp := [.openLog, .statLog, .writeLog, .syncLog]

theorem spec_appendOpened :
    Spec RollbackWorks (appendOpened path content) [.statLog, .writeLog, .syncLog]
      (LogIs path before false) (fun _ => LogIs path (before ++ content) false)
      (fun state => ∃ closed, LogIs path before closed state) := by
  have hstat : Spec RollbackWorks (operate .statLog) [.statLog] (LogIs path before false)
      (fun _ => LogIs path before false) (fun state => ∃ closed, LogIs path before closed state) :=
    spec_operate .statLog fun state hstate => ⟨false, hstate⟩
  refine hstat.bind fun _ => ?_
  apply spec_get
  intro found hfound
  have hsize : ((found.get? path).getD []).length = before.length := by rw [hfound.1]; rfl
  rw [hsize]
  refine (spec_writeLog.rescue fun error => fails_handler error).weaken ?_ (fun _ _ h => h)
    (fun state hstate => ⟨true, hstate⟩)
  rintro state rfl
  exact hfound

/-- The file after an append: extended when it returns; as it was when one of the operations on the
open handle failed; and extended as well when only the close of the handle failed. -/
inductive AppendOutcome (schedule : Schedule FileOp Nat) (path : String)
    (before content : List UInt8) : Except StoreError Unit × StoreState → Prop where
  | stored {after : StoreState} : (∀ op ∈ FileOp.closeLog :: appendOps, schedule op = none) →
      after.get? path = some (before ++ content) →
      AppendOutcome schedule path before content (.ok (), after)
  | undone {error : StoreError} {after : StoreState} : (∃ op ∈ appendOps, schedule op ≠ none) →
      after.get? path = some before → AppendOutcome schedule path before content (.error error, after)
  | kept {error : StoreError} {after : StoreState} : (∀ op ∈ appendOps, schedule op = none) →
      schedule .closeLog ≠ none → after.get? path = some (before ++ content) →
      AppendOutcome schedule path before content (.error error, after)

theorem run_closeLog (schedule : Schedule FileOp Nat) (state : StoreState) :
    ∃ outcome after, (closeAppendHandle .closeLog).run schedule state = (outcome, after) ∧
      (∀ path, after.get? path = state.get? path) ∧
      (state.closed = false → (outcome = .ok () ↔ schedule .closeLog = none)) := by
  unfold closeAppendHandle
  rw [run_bind_ok (show Faulty.get.run schedule state = (.ok state, state) from rfl)]
  cases hclosed : state.closed with
  | true => exact ⟨.ok (), state, rfl, fun _ => rfl, fun h => nomatch h⟩
  | false =>
    rw [if_neg Bool.false_ne_true, run_bind_ok (show (Faulty.modify _).run schedule state = _ from rfl)]
    unfold operate change perform
    cases hop : schedule .closeLog with
    | none =>
      simp only [hop]
      exact ⟨_, _, rfl, fun _ => rfl, fun _ => iff_of_true rfl trivial⟩
    | some detail =>
      simp only [hop]
      refine ⟨_, _, rfl, fun _ => rfl, fun _ => iff_of_false ?_ ?_⟩
      · exact fun h => nomatch h
      · exact fun h => nomatch h

theorem appendLines_outcome {schedule : Schedule FileOp Nat} {state : StoreState} {events : List Json}
    (hrollback : RollbackWorks schedule)
    (hlog : state.get? (logPath backend backend.compression) = some before) :
    AppendOutcome schedule (logPath backend backend.compression) before (encodeBatch backend events)
      ((appendLines backend events).run schedule state) := by
  unfold appendLines
  have hopen : Spec RollbackWorks (openAppend (logPath backend backend.compression)) [.openLog]
      (fun state => state.get? (logPath backend backend.compression) = some before)
      (fun _ => LogIs (logPath backend backend.compression) before false)
      (fun state => state.get? (logPath backend backend.compression) = some before) := by
    apply spec_change
    · intro state hstate
      refine ⟨?_, rfl⟩
      rw [hstate]
      exact get?_put.trans (if_pos rfl)
    · exact fun _ hstate => hstate
  rcases hopen schedule state hrollback hlog with
    ⟨_, opened, hrun, hops, hopened⟩ | ⟨error, after, hrun, ⟨op, hop, hfails⟩, hafter⟩
  · rw [run_bind_ok hrun]
    have hopenOp := hops _ mem_cons_self
    rcases spec_appendOpened schedule opened hrollback hopened with
      ⟨_, written, hbody, hbodyOps, hwritten⟩ | ⟨error, failed, hbody, ⟨op, hop, hfails⟩, closed, hfailed⟩
    · obtain ⟨outcome, after, hclose, hfiles, hiff⟩ := run_closeLog schedule written
      have hall : ∀ op ∈ appendOps, schedule op = none := forall_mem_cons.mpr ⟨hopenOp, hbodyOps⟩
      have hafter := (hfiles (logPath backend backend.compression)).trans hwritten.1
      rw [run_ensure hbody hclose]
      cases outcome with
      | ok result =>
        have hcloses := (hiff hwritten.2).mp rfl
        exact .stored (forall_mem_cons.mpr ⟨hcloses, hall⟩) hafter
      | error error =>
        refine .kept hall (fun hnone => ?_) hafter
        cases (hiff hwritten.2).mpr hnone
    · obtain ⟨outcome, after, hclose, hfiles, -⟩ := run_closeLog schedule failed
      have hafter := (hfiles (logPath backend backend.compression)).trans hfailed.1
      rw [run_ensure hbody hclose]
      cases outcome with
      | ok result => exact .undone ⟨op, mem_cons_of_mem _ hop, hfails⟩ hafter
      | error other => exact .undone ⟨op, mem_cons_of_mem _ hop, hfails⟩ hafter
  · rw [run_bind_error hrun]
    refine .undone ⟨op, ?_, hfails⟩ hafter
    rw [mem_singleton.mp hop]
    exact mem_cons_self

end Append

section Materialize

variable {allowed : Schedule FileOp Nat → Prop} {backend : Backend} {random : String}
  {content : List UInt8} {pre failed : StoreState → Prop}

theorem tempPath_ne (compression : JsonlCompression) :
    logPath backend compression ≠ tempPath backend random := by
  have htemp : (tempPath backend random).toList.getLast? = some 'p' := by
    rw [tempPath, String.toList_append, getLast?_append]
    rfl
  intro heq
  rw [← heq, logPath, String.toList_append, getLast?_append] at htemp
  cases compression <;> cases htemp

def Clear (backend : Backend) (state : StoreState) : Prop :=
  state.get? (logPath backend backend.compression) = none ∧
    state.get? (logPath backend backend.compression.opposite) = none

def Staged (backend : Backend) (random : String) (temp : Option (List UInt8)) (state : StoreState) : Prop :=
  Clear backend state ∧ state.get? (tempPath backend random) = temp

def Published (backend : Backend) (content : List UInt8) (state : StoreState) : Prop :=
  state.get? (logPath backend backend.compression) = some content

theorem Clear.put {state : StoreState} (h : Clear backend state) (bytes : List UInt8) :
    Clear backend (state.put (tempPath backend random) bytes) := by
  unfold Clear
  rw [get?_put, get?_put, if_neg (tempPath_ne _), if_neg (tempPath_ne _)]
  exact h

theorem Clear.remove {state : StoreState} (h : Clear backend state) :
    Clear backend (state.remove (tempPath backend random)) := by
  unfold Clear
  rw [get?_remove, get?_remove, if_neg (tempPath_ne _), if_neg (tempPath_ne _)]
  exact h

theorem spec_syncDir (dir : StorageDir) (hfailed : ∀ state, pre state → failed state) :
    Spec allowed (syncDirPosix dir) [.openDir dir, .syncDir dir, .closeDir dir] pre (fun _ => pre)
      failed := by
  have hsync := (@spec_operate allowed pre failed (.syncDir dir) hfailed).ensure
    (fun _ => spec_operate (.closeDir dir) hfailed) (spec_operate (.closeDir dir) fun _ h => h)
  exact (spec_operate (.openDir dir) hfailed).bind fun _ => hsync

theorem spec_rejectExistingLog (hclear : ∀ state, pre state → Clear backend state)
    (hfailed : ∀ state, pre state → failed state) :
    Spec allowed (rejectExistingLog backend) [.probeLog] pre (fun _ => pre) failed := by
  unfold rejectExistingLog
  refine (spec_probe (fun state h => (hclear state h).1) hfailed).bind fun found => ?_
  intro schedule state hallowed ⟨hfound, hstate⟩
  rw [hfound]
  exact spec_pure (fun _ h => h) failed schedule state hallowed hstate

theorem spec_rejectOppositeArtifact (hclear : ∀ state, pre state → Clear backend state)
    (hfailed : ∀ state, pre state → failed state) :
    Spec allowed (rejectOppositeArtifact backend) [.probeOpposite] pre (fun _ => pre) failed := by
  unfold rejectOppositeArtifact
  refine (spec_probe (fun state h => (hclear state h).2) hfailed).bind fun found => ?_
  intro schedule state hallowed ⟨hfound, hstate⟩
  rw [hfound]
  exact spec_pure (fun _ h => h) failed schedule state hallowed hstate

theorem spec_writeSyncedTempFile :
    Spec allowed (writeSyncedTempFile backend random content)
      [.openTemp, .writeTemp, .syncTemp, .closeTemp] (Staged backend random none)
      (fun _ => Staged backend random (some content)) (Clear backend) := by
  have hopen : Spec allowed (openExclusive .openTemp (tempPath backend random)) [.openTemp]
      (Staged backend random none) (fun _ => Staged backend random (some [])) (Clear backend) := by
    apply spec_unlessExists (fun state hstate => hstate.2)
    apply spec_change
    · exact fun state hstate => ⟨hstate.1.put [], get?_put.trans (if_pos rfl)⟩
    · exact fun state hstate => hstate.1
  have hwrite : Spec allowed (writeFile .writeTemp (tempPath backend random) content) [.writeTemp]
      (Staged backend random (some [])) (fun _ => Staged backend random (some content))
      (Clear backend) := by
    apply spec_perform
    · intro state hstate
      refine ⟨hstate.1.put _, ?_⟩
      rw [get?_extend, if_pos rfl, hstate.2]
      rfl
    · exact fun written state hstate => hstate.1.put _
  have hbody := hwrite.bind fun _ => spec_operate .syncTemp fun state hstate => hstate.1
  have hensure := hbody.ensure (fun _ => spec_operate .closeTemp fun state hstate => hstate.1)
    (spec_operate .closeTemp fun state hstate => hstate)
  exact hopen.bind fun _ => hensure

variable {temp : List UInt8} {schedule : Schedule FileOp Nat}

theorem fails_writeSyncedTempFile :
    Fails allowed (writeSyncedTempFile backend random content) (Staged backend random (some temp))
      (Clear backend) := by
  apply Fails.bind
  intro schedule state hallowed hstate
  obtain ⟨error, after, hrun, hafter⟩ :=
    @fails_unlessExists allowed .openTemp (tempPath backend random) (Staged backend random (some temp)) _
      (fun state hstate => by rw [hstate.2]; rfl) schedule state hallowed hstate
  exact ⟨error, after, hrun, hafter.1⟩

def prepareOps : StoragePlatform → List FileOp
  | .posix => [.makeDir .root, .openDir .parent, .syncDir .parent, .closeDir .parent,
      .makeDir .project, .openDir .root, .syncDir .root, .closeDir .root,
      .makeDir .session, .openDir .project, .syncDir .project, .closeDir .project,
      .probeLog, .openTemp, .writeTemp, .syncTemp, .closeTemp]
  | .win32 => [.ensureDurableDir .root, .ensureDurableDir .project, .ensureDurableDir .session,
      .probeLog, .openTemp, .writeTemp, .syncTemp, .closeTemp]

theorem spec_preparePosix :
    Spec allowed (preparePosix backend random content) (prepareOps .posix) (Staged backend random none)
      (fun _ => Staged backend random (some content)) (Clear backend) := by
  have hclear : ∀ state, Staged backend random none state → Clear backend state := fun _ h => h.1
  exact (spec_operate (.makeDir .root) hclear).bind fun _ =>
    (spec_syncDir .parent hclear).bind fun _ =>
    (spec_operate (.makeDir .project) hclear).bind fun _ =>
    (spec_syncDir .root hclear).bind fun _ =>
    (spec_operate (.makeDir .session) hclear).bind fun _ =>
    (spec_syncDir .project hclear).bind fun _ =>
    (spec_rejectExistingLog hclear hclear).bind fun _ => spec_writeSyncedTempFile

theorem fails_preparePosix :
    Fails allowed (preparePosix backend random content) (Staged backend random (some temp))
      (Clear backend) := by
  have hclear : ∀ state, Staged backend random (some temp) state → Clear backend state := fun _ h => h.1
  exact (spec_operate (.makeDir .root) hclear).fails fun _ =>
    (spec_syncDir .parent hclear).fails fun _ =>
    (spec_operate (.makeDir .project) hclear).fails fun _ =>
    (spec_syncDir .root hclear).fails fun _ =>
    (spec_operate (.makeDir .session) hclear).fails fun _ =>
    (spec_syncDir .project hclear).fails fun _ =>
    (spec_rejectExistingLog hclear hclear).fails fun _ => fails_writeSyncedTempFile

theorem spec_prepareWin32 :
    Spec allowed (prepareWin32 backend random content) (prepareOps .win32) (Staged backend random none)
      (fun _ => Staged backend random (some content)) (Clear backend) := by
  have hclear : ∀ state, Staged backend random none state → Clear backend state := fun _ h => h.1
  exact (spec_operate (.ensureDurableDir .root) hclear).bind fun _ =>
    (spec_operate (.ensureDurableDir .project) hclear).bind fun _ =>
    (spec_operate (.ensureDurableDir .session) hclear).bind fun _ =>
    (spec_rejectExistingLog hclear hclear).bind fun _ => spec_writeSyncedTempFile

theorem fails_prepareWin32 :
    Fails allowed (prepareWin32 backend random content) (Staged backend random (some temp))
      (Clear backend) := by
  have hclear : ∀ state, Staged backend random (some temp) state → Clear backend state := fun _ h => h.1
  exact (spec_operate (.ensureDurableDir .root) hclear).fails fun _ =>
    (spec_operate (.ensureDurableDir .project) hclear).fails fun _ =>
    (spec_operate (.ensureDurableDir .session) hclear).fails fun _ =>
    (spec_rejectExistingLog hclear hclear).fails fun _ => fails_writeSyncedTempFile

theorem fails_removeUnpublished (op : FileOp) (error : StoreError) :
    Fails allowed (do removeFile op (tempPath backend random); (Faulty.throw error : StoreProgram Unit))
      (Clear backend) (Clear backend) := by
  have hremove : Spec allowed (removeFile op (tempPath backend random)) [op] (Clear backend)
      (fun _ => Clear backend) (Clear backend) := by
    apply spec_change
    · exact fun state hstate => hstate.remove
    · exact fun state hstate => hstate
  exact hremove.fails fun _ => fails_throw fun _ h => h

theorem spec_published {op removeOp : FileOp} {effect : StoreState → StoreState}
    (heffect : ∀ state, Staged backend random (some content) state →
      Published backend content (effect state)) :
    Spec allowed
      (Faulty.rescue (unlessExists op (logPath backend backend.compression) (change op effect))
        fun error => do
          removeFile removeOp (tempPath backend random)
          Faulty.throw error)
      [op] (Staged backend random (some content)) (fun _ => Published backend content)
      (Clear backend) := by
  have hchange : Spec allowed (unlessExists op (logPath backend backend.compression)
      (change op effect)) [op] (Staged backend random (some content))
      (fun _ => Published backend content) (Clear backend) :=
    spec_unlessExists (fun state hstate => hstate.1.1)
      (spec_change heffect fun state hstate => hstate.1)
  exact hchange.rescue fun error => fails_removeUnpublished removeOp error

theorem published_of_link {state : StoreState} (h : Staged backend random (some content) state) :
    Published backend content (state.put (logPath backend backend.compression)
      ((state.get? (tempPath backend random)).getD [])) := by
  unfold Published
  rw [get?_put, if_pos rfl, h.2]
  rfl

theorem published_of_move {state : StoreState} (h : Staged backend random (some content) state) :
    Published backend content ((state.put (logPath backend backend.compression)
      ((state.get? (tempPath backend random)).getD [])).remove (tempPath backend random)) := by
  unfold Published
  rw [get?_remove, if_neg (tempPath_ne _)]
  exact published_of_link h

def publishOps : StoragePlatform → List FileOp
  | .posix => .probeOpposite :: (prepareOps .posix ++ [.linkTemp])
  | .win32 => .probeOpposite :: (prepareOps .win32 ++ [.publishTemp])

def durableOps : StoragePlatform → List FileOp
  | .posix => [.openDir .session, .syncDir .session, .closeDir .session]
  | .win32 => []

/-- The session after a first write: stored when it returns; without a log when it failed before the
file was published; and stored as well when it failed later. -/
inductive FirstWriteOutcome (backend : Backend) (schedule : Schedule FileOp Nat) (fresh : Prop)
    (content : List UInt8) : Except StoreError Unit × StoreState → Prop where
  | stored {after : StoreState} :
      (∀ op ∈ publishOps backend.platform ++ durableOps backend.platform, schedule op = none) →
      Published backend content after → FirstWriteOutcome backend schedule fresh content (.ok (), after)
  | undone {error : StoreError} {after : StoreState} :
      (fresh → ∃ op ∈ publishOps backend.platform, schedule op ≠ none) → Clear backend after →
      FirstWriteOutcome backend schedule fresh content (.error error, after)
  | kept {error : StoreError} {after : StoreState} : fresh →
      (∀ op ∈ publishOps backend.platform, schedule op = none) →
      (∃ op ∈ durableOps backend.platform, schedule op ≠ none) → Published backend content after →
      FirstWriteOutcome backend schedule fresh content (.error error, after)

theorem run_removeTemp (schedule : Schedule FileOp Nat) {state : StoreState}
    (h : Published backend content state) :
    ∃ after, (Faulty.rescue (removeFile .removeTemp (tempPath backend random)) fun _ => pure ()).run
        schedule state = (.ok (), after) ∧ Published backend content after := by
  unfold Faulty.rescue removeFile change perform
  cases hop : schedule .removeTemp with
  | none =>
    simp only [hop]
    refine ⟨_, rfl, ?_⟩
    unfold Published
    rw [get?_remove, if_neg (tempPath_ne _)]
    exact h
  | some detail =>
    simp only [hop]
    exact ⟨_, rfl, h⟩

theorem materializePosix_outcome {state : StoreState}
    (hplatform : backend.platform = .posix) (hopposite : schedule .probeOpposite = none)
    (hclear : Clear backend state) :
    FirstWriteOutcome backend schedule (state.get? (tempPath backend random) = none) content
      ((materializePosix backend random content).run schedule state) := by
  unfold materializePosix linkFile
  cases htemp : state.get? (tempPath backend random) with
  | some temp =>
    obtain ⟨error, after, hrun, hafter⟩ :=
      @fails_preparePosix (fun _ => True) backend random content temp schedule state trivial ⟨hclear, htemp⟩
    rw [run_bind_error hrun]
    exact .undone (fun heq => nomatch heq) hafter
  | none =>
    rw [run_bind_assoc]
    have hpublish := (@spec_preparePosix (fun _ => True) backend random content).bind fun _ =>
      @spec_published _ backend random content .linkTemp .removeUnpublished _ fun _ => published_of_link
    rcases hpublish schedule state trivial ⟨hclear, htemp⟩ with
      ⟨_, linked, hlink, hlinkOps, hlinked⟩ | ⟨error, after, hrun, ⟨op, hop, hfails⟩, hafter⟩
    · have hops : ∀ op ∈ publishOps backend.platform, schedule op = none := by
        rw [hplatform]
        exact forall_mem_cons.mpr ⟨hopposite, hlinkOps⟩
      have hsync := @spec_syncDir (fun _ => True) (Published backend content) (Published backend content)
        .session (fun _ h => h)
      rw [run_bind_ok hlink]
      rcases hsync schedule linked trivial hlinked with
        ⟨_, synced, hrun, hsyncOps, hsynced⟩ | ⟨error, after, hrun, hfails, hafter⟩
      · rw [run_bind_ok hrun]
        obtain ⟨after, hlast, hafter⟩ := @run_removeTemp backend random content schedule _ hsynced
        rw [hlast]
        refine .stored ?_ hafter
        intro op hop
        rcases mem_append.mp hop with hleft | hright
        · exact hops op hleft
        · rw [hplatform] at hright
          exact hsyncOps op hright
      · rw [run_bind_error hrun]
        refine .kept rfl hops ?_ hafter
        rw [hplatform]
        exact hfails
    · rw [run_bind_error hrun]
      refine .undone (fun _ => ⟨op, ?_, hfails⟩) hafter
      rw [hplatform]
      exact mem_cons_of_mem _ hop

theorem materializeWin32_outcome {state : StoreState}
    (hplatform : backend.platform = .win32) (hopposite : schedule .probeOpposite = none)
    (hclear : Clear backend state) :
    FirstWriteOutcome backend schedule (state.get? (tempPath backend random) = none) content
      ((materializeWin32 backend random content).run schedule state) := by
  unfold materializeWin32 moveFile
  cases htemp : state.get? (tempPath backend random) with
  | some temp =>
    obtain ⟨error, after, hrun, hafter⟩ :=
      @fails_prepareWin32 (fun _ => True) backend random content temp schedule state trivial ⟨hclear, htemp⟩
    rw [run_bind_error hrun]
    exact .undone (fun heq => nomatch heq) hafter
  | none =>
    have hpublish := (@spec_prepareWin32 (fun _ => True) backend random content).bind fun _ =>
      @spec_published _ backend random content .publishTemp .removeUnmoved _ fun _ => published_of_move
    rcases hpublish schedule state trivial ⟨hclear, htemp⟩ with
      ⟨_, after, hmove, hmoveOps, hafter⟩ | ⟨error, after, hrun, ⟨op, hop, hfails⟩, hafter⟩
    · rw [hmove]
      refine .stored ?_ hafter
      rw [hplatform, show durableOps .win32 = [] from rfl, append_nil]
      exact forall_mem_cons.mpr ⟨hopposite, hmoveOps⟩
    · rw [hrun]
      refine .undone (fun _ => ⟨op, ?_, hfails⟩) hafter
      rw [hplatform]
      exact mem_cons_of_mem _ hop

theorem materialize_outcome {state : StoreState}
    {header : SessionHeader} {cut : Nat} {events : List Json}
    (hcontent : encodeMaterialization backend header cut events = .ok content)
    (hclear : Clear backend state) :
    FirstWriteOutcome backend schedule (state.get? (tempPath backend random) = none) content
      ((materialize backend header cut events random).run schedule state) := by
  unfold materialize
  have hreject := @spec_rejectOppositeArtifact (fun _ => True) backend
    (fun found => found = state) (Clear backend) (fun found h => h ▸ hclear) (fun found h => h ▸ hclear)
  rcases hreject schedule state trivial rfl with
    ⟨_, after, hrun, hops, rfl⟩ | ⟨error, after, hrun, ⟨op, hop, hfails⟩, hafter⟩
  · rw [run_bind_ok hrun, hcontent]
    have hopposite := hops _ mem_cons_self
    cases hplatform : backend.platform with
    | posix => exact materializePosix_outcome hplatform hopposite hclear
    | win32 => exact materializeWin32_outcome hplatform hopposite hclear
  · rw [run_bind_error hrun]
    refine .undone (fun _ => ⟨op, ?_, hfails⟩) hafter
    rw [mem_singleton.mp hop]
    cases backend.platform <;> exact mem_cons_self

end Materialize

end DshKernel.Jsonl
