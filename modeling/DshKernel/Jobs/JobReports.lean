import DshKernel.Jobs.RegistryRuns

/-!
# What callers and listeners learn of a job

A settlement comes to its listeners once, and a report is claimed before they are called.
-/

namespace DshKernel.Jobs

open Js Lib LocalJobRegistry List

def JobEvent.begun : JobEvent → Option Wait
  | .waiting wait => some wait
  | _ => none

def JobEvent.ended : JobEvent → Option Wait
  | .waited wait | .waitAborted wait => some wait
  | _ => none

def JobEvent.isDoneOf (ref : Nat) : JobEvent → Bool
  | .done other _ => other == ref
  | _ => false

def JobEvent.isNoticeOf (ref : Nat) : JobEvent → Bool
  | .done other _ | .silenced other => other == ref
  | _ => false

def ReportedBefore (before : List JobEvent) : JobEvent → Prop
  | .settled ref waiting snapshot =>
    snapshot.status.isTerminal = true ∧
      (.claimed ref ∈ before ∨ waiting ≠ [] → snapshot.reported = true)
  | _ => True

def MayShow (caller : Option Agent) (snapshot : JobSnapshot) : Prop :=
  snapshot.ownerSession = none ∨ ∃ agent, caller = some agent ∧ snapshot.ownerSession = some agent.id

def LocalJobRegistry.settlements (r : LocalJobRegistry) : List (Nat × JobSnapshot) :=
  r.stack.filterMap Frame.settling

def LocalJobRegistry.isOver (r : LocalJobRegistry) (ref : Nat) : Bool :=
  (r.task? ref).any fun job => job.status.isTerminal

section Over

variable {r r' : LocalJobRegistry} {ref : Nat}

theorem isOver_congr (htasks : r'.tasks = r.tasks) (other : Nat) : r'.isOver other = r.isOver other := by
  rw [isOver, isOver, task?, htasks]
  rfl

theorem isOver_modify {change : TrackedTask → TrackedTask}
    (hchange : ∀ job, r.task? ref = some job →
      (change job).status.isTerminal = job.status.isTerminal) (other : Nat) :
    (r.modify ref change).isOver other = r.isOver other := by
  unfold isOver
  rw [task?_modify]
  cases hjob : r.task? other with
  | none => rfl
  | some job =>
    by_cases heq : ref = other
    · subst heq
      simpa using hchange job hjob
    · simp [heq]

theorem isOver_stop {job : TrackedTask} (hjob : r.task? ref = some job) (hactive : job.isActive = true)
    (other : Nat) :
    (r.modify ref fun job => { job with status := .stopping }).isOver other = r.isOver other := by
  refine isOver_modify (fun job' hjob' => ?_) other
  obtain rfl := Option.some.inj (hjob.symm.trans hjob')
  simpa [TrackedTask.isActive, JobStatus.isTerminal] using hactive.symm

theorem isOver_register (spec : JobStart) (readOutput : Bool) (other : Nat) :
    (r.register spec readOutput).isOver other = r.isOver other := by
  unfold isOver
  rw [task?_register]
  split
  · rename_i heq
    have hnone : r.task? other = none := getElem?_eq_none (by omega)
    rw [hnone]
    rfl
  · rfl

theorem isOver_settle {job : TrackedTask} {outcome : JobOutcome} (hjob : r.task? ref = some job)
    (other : Nat) :
    (r.settle ref job outcome).1.isOver other = if ref = other then true else r.isOver other := by
  rw [isOver, task?_settle hjob]
  split
  · exact outcome.terminal
  · rfl

end Over

structure Told (r : LocalJobRegistry) (log : List JobEvent) : Prop where
  notices : ∀ ref, log.countP (JobEvent.isNoticeOf ref) +
    (r.settlements.countP fun pending => pending.1 == ref) = (r.isOver ref).toNat
  silenced : ∀ ref, .silenced ref ∈ log → r.listenersClosed = true
  claims : ∀ ref, .claimed ref ∈ log → ∃ job, r.task? ref = some job ∧ job.reported = true
  reports : Throughout ReportedBefore log
  pending : ∀ ref snapshot, (ref, snapshot) ∈ r.settlements →
    ∃ waiting, .settled ref waiting snapshot ∈ log
  heard : ∀ ref snapshot, .done ref snapshot ∈ log → ∃ waiting, .settled ref waiting snapshot ∈ log
  shown : ∀ caller snapshot, .saw caller snapshot ∈ log → MayShow caller snapshot

namespace Told

variable {cap : Nat} {r r' : LocalJobRegistry} {log news : List JobEvent}

theorem keep (h : Told r log) (hgoesOn : GoesOn r r') (hover : ∀ ref, r'.isOver ref = r.isOver ref)
    (hsettlements : r'.settlements = r.settlements)
    (hclosed : r.listenersClosed = true → r'.listenersClosed = true) : Told r' log where
  notices ref := by
    rw [hsettlements, hover]
    exact h.notices ref
  silenced ref hmem := hclosed (h.silenced ref hmem)
  claims ref hmem := by
    obtain ⟨job, hjob, hreported⟩ := h.claims ref hmem
    obtain ⟨job', hjob', hbecomes⟩ := hgoesOn ref job hjob
    exact ⟨job', hjob', hbecomes.reported hreported⟩
  reports := h.reports
  pending ref snapshot hmem := h.pending ref snapshot (hsettlements ▸ hmem)
  heard := h.heard
  shown := h.shown

theorem keep_waits (h : Told r log) (htasks : r'.tasks = r.tasks) (hstack : r'.stack = r.stack)
    (hclosed : r'.listenersClosed = r.listenersClosed) : Told r' log := by
  refine h.keep (fun ref job hjob => ⟨job, ?_, .refl job⟩) (isOver_congr htasks) ?_ fun hold => ?_
  · rwa [task?, htasks]
  · rw [settlements, hstack]
    rfl
  · rwa [hclosed]

theorem tell {event : JobEvent} (h : Told r log) (hnotice : ∀ ref, event.isNoticeOf ref = false)
    (hclaim : ∀ ref, event = .claimed ref → ∃ job, r.task? ref = some job ∧ job.reported = true)
    (hreport : ReportedBefore log event)
    (hshown : ∀ caller snapshot, event = .saw caller snapshot → MayShow caller snapshot) :
    Told r (log ++ [event]) := by
  have hcases : ∀ other, other ∈ log ++ [event] → other ∈ log ∨ event = other := by
    intro other hmem
    exact (mem_append.mp hmem).imp_right fun hlast => (mem_singleton.mp hlast).symm
  have hearlier : ∀ ref snapshot, (∃ waiting, JobEvent.settled ref waiting snapshot ∈ log) →
      ∃ waiting, .settled ref waiting snapshot ∈ log ++ [event] :=
    fun ref snapshot ⟨waiting, hmem⟩ => ⟨waiting, mem_append_left _ hmem⟩
  refine ⟨?_, ?_, ?_, throughout_concat.mpr ⟨h.reports, hreport⟩,
    fun ref snapshot hmem => hearlier ref snapshot (h.pending ref snapshot hmem), ?_, ?_⟩
  · intro ref
    rw [countP_append, countP_singleton, hnotice ref]
    exact h.notices ref
  · intro ref hmem
    rcases hcases _ hmem with hold | rfl
    · exact h.silenced ref hold
    · have hself := hnotice ref
      simp [JobEvent.isNoticeOf] at hself
  · intro ref hmem
    exact (hcases _ hmem).elim (h.claims ref) (hclaim ref)
  · intro ref snapshot hmem
    rcases hcases _ hmem with hold | rfl
    · exact hearlier ref snapshot (h.heard ref snapshot hold)
    · have hself := hnotice ref
      simp [JobEvent.isNoticeOf] at hself
  · intro caller snapshot hmem
    exact (hcases _ hmem).elim (h.shown caller snapshot) (hshown caller snapshot)

theorem waited {event : JobEvent} {wait : Wait} (h : Told r log)
    (hevent : event.begun = some wait ∨ event.ended = some wait) : Told r (log ++ [event]) := by
  cases event with
  | waiting _ | waited _ | waitAborted _ =>
    exact h.tell (fun _ => rfl) (fun _ heq => nomatch heq) trivial fun _ _ heq => nomatch heq
  | _ => rcases hevent with hevent | hevent <;> cases hevent

theorem settle {ref : Nat} {job : TrackedTask} {outcome : JobOutcome} (h : Told r log)
    (hjob : r.task? ref = some job) (hactive : job.isActive = true) :
    Told (r.settle ref job outcome).1 (log ++ (r.settle ref job outcome).2) := by
  have hgoesOn := (@Change.settle 0 r _ _ outcome hjob hactive).goesOn
  have hlive : r.isOver ref = false := by
    simpa [isOver, hjob, TrackedTask.isActive] using hactive
  have hnothing := h.notices ref
  rw [hlive] at hnothing
  refine ⟨?_, ?_, ?_, throughout_concat.mpr ⟨h.reports, outcome.terminal, ?_⟩, ?_, ?_, ?_⟩
  · intro other
    rw [isOver_settle hjob, countP_append]
    change _ + 0 + (((ref, _) :: r.settlements).countP fun pending => pending.1 == other) = _
    rw [countP_cons]
    by_cases heq : ref = other
    · subst heq
      rw [if_pos rfl]
      simp only [beq_self_eq_true, if_true, Bool.toNat_true, Bool.toNat_false] at hnothing ⊢
      omega
    · have hnotices := h.notices other
      rw [if_neg heq]
      simp only [beq_iff_eq, heq, if_false]
      omega
  · intro other hmem
    rcases mem_append.mp hmem with hold | hnew
    · exact h.silenced other hold
    · cases mem_singleton.mp hnew
  · intro other hmem
    rcases mem_append.mp hmem with hold | hnew
    · obtain ⟨before, hbefore, hreported⟩ := h.claims other hold
      obtain ⟨after, hafter, hbecomes⟩ := hgoesOn other before hbefore
      exact ⟨after, hafter, hbecomes.reported hreported⟩
    · cases mem_singleton.mp hnew
  · intro hclaimed
    change (job.reported || !(r.waiters.filter fun wait => wait.ref == ref).isEmpty) = true
    rcases hclaimed with hclaimed | hwaiting
    · obtain ⟨claimed, hclaimedJob, hreported⟩ := h.claims ref hclaimed
      obtain rfl := Option.some.inj (hjob.symm.trans hclaimedJob)
      rw [hreported, Bool.true_or]
    · rw [isEmpty_eq_false_iff.mpr hwaiting]
      simp
  · intro other snapshot hmem
    rcases mem_cons.mp hmem with heq | hold
    · obtain ⟨rfl, rfl⟩ := Prod.mk.inj heq
      exact ⟨_, mem_append_right _ mem_cons_self⟩
    · obtain ⟨waiting, hsettled⟩ := h.pending other snapshot hold
      exact ⟨waiting, mem_append_left _ hsettled⟩
  · intro other snapshot hmem
    rcases mem_append.mp hmem with hold | hnew
    · obtain ⟨waiting, hsettled⟩ := h.heard other snapshot hold
      exact ⟨waiting, mem_append_left _ hsettled⟩
    · cases mem_singleton.mp hnew
  · intro caller snapshot hmem
    rcases mem_append.mp hmem with hold | hnew
    · exact h.shown caller snapshot hold
    · cases mem_singleton.mp hnew

theorem notice {ref : Nat} {snapshot : JobSnapshot} {frames rest : List Frame} {event : JobEvent}
    (h : Told r log) (hstack : r.stack = .finishSettle ref snapshot :: rest)
    (hframes : frames.filterMap Frame.settling = rest.filterMap Frame.settling)
    (hevent : event = .done ref snapshot ∨ event = .silenced ref ∧ r.listenersClosed = true) :
    Told { r with stack := frames } (log ++ [event]) := by
  have hsettlements : r.settlements = (ref, snapshot) :: rest.filterMap Frame.settling := by
    rw [settlements, hstack]
    rfl
  have hnotice : ∀ other, event.isNoticeOf other = (ref == other) := by
    rcases hevent with rfl | ⟨rfl, -⟩ <;> exact fun _ => rfl
  obtain ⟨waiting, hsettled⟩ := h.pending ref snapshot (by rw [hsettlements]; exact mem_cons_self)
  refine ⟨?_, ?_, ?_, throughout_concat.mpr ⟨h.reports, ?_⟩, ?_, ?_, ?_⟩
  · intro other
    have hnotices := h.notices other
    rw [hsettlements, countP_cons] at hnotices
    dsimp only at hnotices
    rw [countP_append, countP_singleton, hnotice other]
    change _ + _ + (frames.filterMap Frame.settling).countP _ = _
    rw [hframes]
    change _ = (r.isOver other).toNat
    omega
  · intro other hmem
    rcases mem_append.mp hmem with hold | hnew
    · exact h.silenced other hold
    · rcases hevent with rfl | ⟨rfl, hclosed⟩
      · cases mem_singleton.mp hnew
      · exact hclosed
  · intro other hmem
    rcases mem_append.mp hmem with hold | hnew
    · exact h.claims other hold
    · rcases hevent with rfl | ⟨rfl, -⟩ <;> cases mem_singleton.mp hnew
  · rcases hevent with rfl | ⟨rfl, -⟩ <;> exact trivial
  · intro other snapshot' hmem
    obtain ⟨waiting', hsettled'⟩ := h.pending other snapshot' (by
      rw [hsettlements]
      exact mem_cons_of_mem _ (hframes ▸ hmem))
    exact ⟨waiting', mem_append_left _ hsettled'⟩
  · intro other snapshot' hmem
    rcases mem_append.mp hmem with hold | hnew
    · obtain ⟨waiting', hsettled'⟩ := h.heard other snapshot' hold
      exact ⟨waiting', mem_append_left _ hsettled'⟩
    · rcases hevent with rfl | ⟨rfl, -⟩
      · cases mem_singleton.mp hnew
        exact ⟨waiting, mem_append_left _ hsettled⟩
      · cases mem_singleton.mp hnew
  · intro caller snapshot' hmem
    rcases mem_append.mp hmem with hold | hnew
    · exact h.shown caller snapshot' hold
    · rcases hevent with rfl | ⟨rfl, -⟩ <;> cases mem_singleton.mp hnew

theorem change (h : Told r log) (hchange : Change cap r r' news) : Told r' (log ++ news) := by
  induction hchange generalizing log with
  | trans _ _ ih ih' =>
    rw [← append_assoc]
    exact ih' (ih h)
  | @other r r' htasks hcounters hwaiters hblocked hreleased hwaits hstore hclosed hsettling hreading =>
    have hgoesOn := (@Change.other cap _ _ htasks hcounters hwaiters hblocked hreleased hwaits hstore
      hclosed hsettling hreading).goesOn
    rw [append_nil]
    exact h.keep hgoesOn (isOver_congr htasks) hsettling hclosed
  | @see r ref job caller hjob hallows =>
    refine h.tell (fun _ => rfl) (fun _ heq => (nomatch heq)) trivial ?_
    intro caller' snapshot heq
    obtain ⟨rfl, rfl⟩ := JobEvent.saw.inj heq
    unfold TrackedTask.allows at hallows
    unfold MayShow
    cases howner : job.owner with
    | none => exact .inl (by simp [TrackedTask.snapshot, howner])
    | some owner =>
      rw [howner] at hallows
      obtain ⟨agent, hcaller, hid⟩ := (Option.any_eq_true _ _).mp hallows
      exact .inr ⟨agent, hcaller, by simp [TrackedTask.snapshot, howner, eq_of_beq hid]⟩
  | register r spec readOutput hcap =>
    rw [append_nil]
    exact h.keep (Change.register r spec readOutput hcap).goesOn (isOver_register spec readOutput) rfl id
  | report r ref =>
    rw [append_nil]
    exact h.keep (@Change.report cap r ref).goesOn (isOver_modify fun _ _ => rfl) rfl
      id
  | @claim r ref job hjob =>
    have hkept := h.keep (@Change.report cap r ref).goesOn (isOver_modify fun _ _ => rfl) rfl
      id
    refine hkept.tell (fun _ => rfl) ?_ trivial fun _ _ heq => (nomatch heq)
    intro other heq
    obtain rfl := JobEvent.claimed.inj heq
    refine ⟨{ job with reported := true }, ?_, rfl⟩
    rw [report, task?_modify, hjob, Option.map_some, if_pos rfl]
  | @stop r ref job hjob hactive =>
    rw [append_nil]
    exact h.keep (@Change.stop cap r _ _ hjob hactive).goesOn (isOver_stop hjob hactive) rfl id
  | settle r outcome hjob hactive => exact h.settle hjob hactive
  | silence r hstack hclosed => exact h.notice hstack rfl (.inr ⟨rfl, hclosed⟩)
  | announce r hstack _ => exact h.notice hstack rfl (.inl rfl)
  | waitBegins r _ _ _ =>
    exact @waited _ _ (.waiting _) _ (h.keep_waits rfl rfl rfl) (.inl rfl)
  | waitTimesOut r _ =>
    rw [append_nil]
    exact h.keep_waits rfl rfl rfl
  | waitAborts r _ =>
    exact @waited _ _ (.waitAborted _) _ (h.keep_waits rfl rfl rfl) (.inr rfl)
  | waitContinues r _ =>
    exact @waited _ _ (.waited _) _ (h.keep_waits rfl rfl rfl) (.inr rfl)

end Told

end DshKernel.Jobs
