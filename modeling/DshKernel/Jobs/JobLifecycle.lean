import DshKernel.Jobs.JobWaits

/-!
# The job lifecycle

Whatever order calls, outcomes and teardowns come in, and whatever foreign code calls from within.
-/

namespace DshKernel.Jobs

open Js Lib List JobEvent

structure Lifecycle (cap : Nat) (r : LocalJobRegistry) (log : List JobEvent) : Prop where
  unique : ∀ ref ref' job job', r.task? ref = some job → r.task? ref' = some job' →
    job.id = job'.id → ref = ref'
  capped : ∀ owner, r.activeTaskCount owner ≤ cap
  doneOnce : ∀ ref, log.countP (isDoneOf ref) ≤ (r.isOver ref).toNat
  done : ∀ ref, r.isOver ref = true → (∀ snapshot, (ref, snapshot) ∉ r.settlements) →
    .silenced ref ∉ log → log.countP (isDoneOf ref) = 1
  silenced : ∀ ref, .silenced ref ∈ log → r.listenersClosed = true
  heard : ∀ ref snapshot, .done ref snapshot ∈ log → ∃ waiting, .settled ref waiting snapshot ∈ log
  reports : Throughout ReportedBefore log
  awaits : Throughout AwaitedBefore log
  waitsOnce : ∀ wait, (log.filterMap ended).count wait ≤ 1
  waits : ∀ wait ∈ log.filterMap begun, r.isOver wait.ref = true →
    wait ∈ r.released ∨ (log.filterMap ended).count wait = 1
  goOn : ∀ wait ∈ r.released, r.stack = [] → ∃ r' news,
    r.step cap (.waitContinues wait) = some (r', news) ∧ .waited wait ∈ news
  fenced : ∀ caller snapshot, .saw caller snapshot ∈ log → MayShow caller snapshot

section Log

variable {ref : Nat} {log : List JobEvent}

theorem countP_isDoneOf_le :
    log.countP (isDoneOf ref) ≤ log.countP (isNoticeOf ref) := by
  refine countP_mono_left fun event _ hdone => ?_
  cases event with
  | done other snapshot => exact hdone
  | _ => cases hdone

theorem countP_isDoneOf (h : .silenced ref ∉ log) :
    log.countP (isDoneOf ref) = log.countP (isNoticeOf ref) := by
  refine countP_congr fun event hmem => ?_
  cases event with
  | silenced other =>
    have hne : other ≠ ref := by
      rintro rfl
      exact h hmem
    simp [isDoneOf, isNoticeOf, hne]
  | _ => rfl

end Log

structure Sound (cap : Nat) (r : LocalJobRegistry) (log : List JobEvent) : Prop where
  permitted : Permitted r
  named : Named r
  capped : Capped cap r
  told : Told r log
  awaited : Awaited r log

namespace Sound

variable {cap : Nat} {r r' : LocalJobRegistry} {log news : List JobEvent}

theorem empty : Sound cap {} [] where
  permitted := ⟨fun _ _ hmem => absurd hmem not_mem_nil,
    fun _ hwait => hwait.elim (absurd · not_mem_nil) (absurd · not_mem_nil)⟩
  named := ⟨fun _ hmem => absurd hmem not_mem_nil, fun _ _ hjob => (nomatch hjob),
    fun _ _ _ _ hjob => (nomatch hjob)⟩
  capped _ := Nat.zero_le _
  told := ⟨fun _ => rfl, fun _ hmem => absurd hmem not_mem_nil,
    fun _ hmem => absurd hmem not_mem_nil, throughout_nil,
    fun _ _ hmem => absurd hmem not_mem_nil, fun _ _ hmem => absurd hmem not_mem_nil,
    fun _ _ hmem => absurd hmem not_mem_nil⟩
  awaited := ⟨.refl _, fun _ hmem => absurd hmem not_mem_nil, .nil,
    fun _ hmem => absurd hmem not_mem_nil, fun _ hmem => absurd hmem not_mem_nil,
    throughout_nil⟩

theorem change (h : Sound cap r log) (hchange : Change cap r r' news) : Sound cap r' (log ++ news) where
  permitted := h.permitted.change hchange
  named := h.named.change hchange
  capped := h.capped.change h.named hchange
  told := h.told.change hchange
  awaited := h.awaited.change hchange

theorem step {a : JobAction} (h : Sound cap r log) (hmeets : Undisturbed cap r a)
    (hstep : r.step cap a = some (r', news)) : Sound cap r' (log ++ news) :=
  h.change (step_change h.permitted hmeets hstep)

theorem waitContinues (h : Sound cap r log) {wait : Wait} (hwait : wait ∈ r.released)
    (hstack : r.stack = []) : ∃ r' news,
      r.step cap (.waitContinues wait) = some (r', news) ∧ .waited wait ∈ news := by
  obtain ⟨job, hjob, -⟩ := h.permitted.waiting wait (.inr hwait)
  let ended := { r with waiters := r.waiters.erase wait, released := r.released.erase wait }
  let observed := ended.observe wait.ref job wait.caller
  refine ⟨observed.1, .waited wait :: observed.2, ?_, mem_cons_self⟩
  have hopen : (!r.stack.isEmpty || !r.released.contains wait) = false := by
    rw [hstack, contains_iff_mem.mpr hwait]
    rfl
  simp only [LocalJobRegistry.step, hopen, hjob]
  rfl

theorem lifecycle (h : Sound cap r log) : Lifecycle cap r log where
  unique := h.named.unique
  capped := h.capped
  doneOnce ref := by
    have hnotices := h.told.notices ref
    have hle : log.countP (isDoneOf ref) ≤ log.countP (isNoticeOf ref) :=
      countP_isDoneOf_le
    omega
  done ref hover hsettled hheard := by
    have hnotices := h.told.notices ref
    have hnone : (r.settlements.countP fun pending => pending.1 == ref) = 0 := by
      refine countP_eq_zero.mpr fun pending hmem heq => ?_
      rw [← eq_of_beq heq] at hsettled
      exact hsettled pending.2 hmem
    rw [hnone, hover, ← countP_isDoneOf hheard] at hnotices
    exact hnotices
  silenced := h.told.silenced
  heard := h.told.heard
  reports := h.told.reports
  awaits := h.awaited.settled
  waitsOnce := nodup_iff_count_le_one.mp (nodup_append.mp h.awaited.nodup_all).1
  waits wait hmem hover := by
    have hnodup := (nodup_append.mp h.awaited.nodup_all).1
    rcases mem_append.mp (h.awaited.perm.mem_iff.mpr hmem) with hended | hleft
    · exact .inr (count_eq_one_of_mem hnodup hended)
    · refine .inl ((mem_append.mp hleft).resolve_right fun hblocked => ?_)
      rw [h.awaited.live wait hblocked] at hover
      cases hover
  goOn wait hwait hstack := h.waitContinues hwait hstack
  fenced := h.told.shown

end Sound

section Lifecycle

variable {cap : Nat} {r r' : LocalJobRegistry} {log more : List JobEvent}

theorem sound (run : Reaches (LocalJobRegistry.step cap) (Undisturbed cap) {} r log) :
    Sound cap r log :=
  run.invariant .empty fun _ _ _ _ _ hsound hmeets hstep => hsound.step hmeets hstep

/-- Every run keeps the lifecycle of its jobs, and their records go on in every later state. -/
theorem job_lifecycle (run : Reaches (LocalJobRegistry.step cap) (Undisturbed cap) {} r log) :
    Lifecycle cap r log ∧
      ∀ r' more, Reaches (LocalJobRegistry.step cap) (Undisturbed cap) r r' more → GoesOn r r' := by
  refine ⟨(sound run).lifecycle, fun r' more later => ?_⟩
  refine @Reaches.related _ _ _ _ _ _ _ _ GoesOn (fun r' more => Sound cap r' (log ++ more)) later ?_ ?_
    (.refl r) (fun _ _ _ => GoesOn.trans) ?_
  · rw [append_nil]
    exact sound run
  · intro s t before news a hsound hmeets hstep
    rw [← append_assoc]
    exact hsound.step hmeets hstep
  · intro s t before news a hsound hmeets hstep
    exact (step_change hsound.permitted hmeets hstep).goesOn

/-- A job that completes is announced once. -/
theorem job_lifecycle_completed : ∃ r log, Lifecycle 1 r log ∧ r.isOver 0 = true ∧
    log.countP (isDoneOf 0) = 1 := by
  have started : Reaches (LocalJobRegistry.step 1) (Undisturbed 1) {} _ _ :=
    .next (.next .refl (.start { kind := "shell", label := "build" } true) trivial rfl)
      (.runReturns true) (fun spec rest hstack => by cases hstack; decide) rfl
  have settled := (started.next .listenersReturn trivial rfl).next
    (.settle 0 { status := .completed, terminal := rfl }) trivial rfl
  have run := (settled.next .listenersReturn trivial rfl).next .proceed trivial rfl
  exact ⟨_, _, (job_lifecycle run).1, rfl, rfl⟩

/-- A job that settles after the service was disposed is not announced. -/
theorem disposal_silences_done : ¬ ∀ cap r log,
    Reaches (LocalJobRegistry.step cap) (fun _ _ => True) {} r log →
    ∀ ref, r.isOver ref = true → r.stack = [] → log.countP (isDoneOf ref) = 1 := by
  intro hclaim
  have started : Reaches (LocalJobRegistry.step 1) (fun _ _ => True) {} _ _ :=
    .next (.next (.next .refl (.start { kind := "shell", label := "build" } true) trivial rfl)
      (.runReturns true) trivial rfl) .listenersReturn trivial rfl
  have tornDown := (((started.next .disposeAll trivial rfl).next .proceed trivial rfl).next
    .cancelReturns trivial rfl).next .listenersReturn trivial rfl
  have settled := (tornDown.next .proceed trivial rfl).next
    (.settle 0 { status := .completed, terminal := rfl }) trivial rfl
  have run := (settled.next .listenersReturn trivial rfl).next .proceed trivial rfl
  have hdone := hclaim _ _ _ run 0 rfl rfl
  exact absurd hdone (by decide)

end Lifecycle

end DshKernel.Jobs
