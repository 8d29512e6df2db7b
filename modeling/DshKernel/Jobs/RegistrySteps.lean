import DshKernel.Jobs.Registry

/-!
# What a step of the job registry does

Each step is made of a few changes of the records, the waits and the stack. What holds in every
reachable state is proved for these.
-/

namespace DshKernel.Jobs

open Js Lib LocalJobRegistry Frame
open LocalJobRegistry (step task?)

def Frame.settling : Frame → Option (Nat × JobSnapshot)
  | .finishSettle ref snapshot => some (ref, snapshot)
  | _ => none

def Frame.reading : Frame → Option (Nat × Option Agent)
  | .readOutput ref caller => some (ref, caller)
  | _ => none

def LocalJobRegistry.Shows (r : LocalJobRegistry) (ref : Nat) (caller : Option Agent) : Prop :=
  ∃ job, r.task? ref = some job ∧ job.allows caller = true

inductive Change (cap : Nat) : LocalJobRegistry → LocalJobRegistry → List JobEvent → Prop where
  /-- Calls begin and end, owners and services are disposed, and jobs leave the store. -/
  | other {r r' : LocalJobRegistry} (htasks : r'.tasks = r.tasks) (hcounters : r'.counters = r.counters)
      (hwaiters : r'.waiters = r.waiters) (hblocked : r'.blocked = r.blocked)
      (hreleased : r'.released = r.released) (hwaits : r'.waits = r.waits)
      (hstore : r'.store.Sublist r.store)
      (hclosed : r.listenersClosed = true → r'.listenersClosed = true)
      (hsettling : r'.stack.filterMap settling = r.stack.filterMap settling)
      (hreading : ∀ ref caller, (ref, caller) ∈ r'.stack.filterMap reading →
        (ref, caller) ∈ r.stack.filterMap reading ∨ r.Shows ref caller) :
      Change cap r r' []
  | see (r : LocalJobRegistry) {ref : Nat} {job : TrackedTask} {caller : Option Agent}
      (hjob : r.task? ref = some job) (hallows : job.allows caller = true) :
      Change cap r r [.saw caller job.snapshot]
  | register (r : LocalJobRegistry) (spec : JobStart) (readOutput : Bool)
      (hcap : r.activeTaskCount spec.owner < cap) : Change cap r (r.register spec readOutput) []
  | report (r : LocalJobRegistry) (ref : Nat) : Change cap r (r.report ref) []
  | claim (r : LocalJobRegistry) {ref : Nat} {job : TrackedTask} (hjob : r.task? ref = some job) :
      Change cap r (r.report ref) [.claimed ref]
  | stop (r : LocalJobRegistry) {ref : Nat} {job : TrackedTask} (hjob : r.task? ref = some job)
      (hactive : job.isActive = true) :
      Change cap r (r.modify ref fun job => { job with status := .stopping }) []
  | settle (r : LocalJobRegistry) {ref : Nat} {job : TrackedTask} (outcome : JobOutcome)
      (hjob : r.task? ref = some job) (hactive : job.isActive = true) :
      Change cap r (r.settle ref job outcome).1 (r.settle ref job outcome).2
  | silence (r : LocalJobRegistry) {ref : Nat} {snapshot : JobSnapshot} {rest : List Frame}
      (hstack : r.stack = .finishSettle ref snapshot :: rest) (hclosed : r.listenersClosed = true) :
      Change cap r { r with stack := rest } [.silenced ref]
  | announce (r : LocalJobRegistry) {ref : Nat} {snapshot : JobSnapshot} {rest : List Frame}
      (hstack : r.stack = .finishSettle ref snapshot :: rest) (hopen : r.listenersClosed = false) :
      Change cap r { r with stack := .announced ref :: rest } [.done ref snapshot]
  | waitBegins (r : LocalJobRegistry) {ref : Nat} {job : TrackedTask} {caller : Option Agent}
      (hjob : r.task? ref = some job) (hactive : job.isActive = true)
      (hallows : job.allows caller = true) :
      Change cap r { r with
        waiters := r.waiters ++ [⟨r.waits, caller, ref⟩]
        blocked := r.blocked ++ [⟨r.waits, caller, ref⟩]
        waits := r.waits + 1 } [.waiting ⟨r.waits, caller, ref⟩]
  | waitTimesOut (r : LocalJobRegistry) {wait : Wait} (hwait : wait ∈ r.blocked) :
      Change cap r { r with blocked := r.blocked.erase wait, released := r.released ++ [wait] } []
  | waitAborts (r : LocalJobRegistry) {wait : Wait} (hwait : wait ∈ r.blocked) :
      Change cap r { r with waiters := r.waiters.erase wait, blocked := r.blocked.erase wait }
        [.waitAborted wait]
  | waitContinues (r : LocalJobRegistry) {wait : Wait} (hwait : wait ∈ r.released) :
      Change cap r { r with waiters := r.waiters.erase wait, released := r.released.erase wait }
        [.waited wait]
  | trans {r s t : LocalJobRegistry} {news more : List JobEvent} (first : Change cap r s news)
      (second : Change cap s t more) : Change cap r t (news ++ more)

/-- A run function that returns finds its owner below the cap, and a cancel that returns finds its
job not over. -/
def Undisturbed (cap : Nat) (r : LocalJobRegistry) : JobAction → Prop
  | .runReturns _ => ∀ spec rest, r.stack = .run spec :: rest → r.activeTaskCount spec.owner < cap
  | .cancelReturns => ∀ ref teardown rest, r.stack = .cancel ref teardown :: rest →
      ∀ job, r.task? ref = some job → job.isActive = true
  | _ => True

section Tasks

variable {r : LocalJobRegistry} {ref other : Nat} {job : TrackedTask} {spec : JobStart}

theorem task?_modify {change : TrackedTask → TrackedTask} : (r.modify ref change).task? other =
    (r.task? other).map fun job => if ref = other then change job else job := by
  simp only [LocalJobRegistry.modify, task?, List.getElem?_modify]
  rfl

theorem task?_settle {outcome : JobOutcome} (hjob : r.task? ref = some job) :
    (r.settle ref job outcome).1.task? other =
      if ref = other then
        some (job.settle outcome !(r.waiters.filter fun wait => wait.ref == ref).isEmpty)
      else r.task? other := by
  have hlt : ref < r.tasks.length := (List.getElem?_eq_some_iff.mp hjob).1
  simp only [settle, task?, List.getElem?_set, if_pos hlt]

theorem task?_register {readOutput : Bool} : (r.register spec readOutput).task? other =
    if other = r.tasks.length then
      some {
        id := jobId spec.kind ((r.counters.get? spec.kind).getD 0 + 1)
        kind := spec.kind
        label := spec.label
        outputLimitBytes := spec.outputLimitBytes
        owner := spec.owner
        readOutput }
    else r.task? other := by
  simp only [register, task?]
  by_cases h : other = r.tasks.length
  · rw [if_pos h, h, List.getElem?_concat_length]
  · rw [if_neg h]
    by_cases hlt : other < r.tasks.length
    · rw [List.getElem?_append_left hlt]
    · rw [List.getElem?_eq_none (by simp; omega), List.getElem?_eq_none (by omega)]

end Tasks

section Access

variable {r : LocalJobRegistry} {id : String} {caller : Option Agent} {ref : Nat} {job : TrackedTask}

theorem access_eq_some (h : r.access id caller = some (ref, job)) :
    r.task? ref = some job ∧ job.allows caller = true := by
  unfold access at h
  split at h
  · cases h
  · split at h
    · cases h
    · rename_i htask
      split at h
      · rename_i hallows
        cases h
        exact ⟨htask, hallows⟩
      · cases h

theorem isActive_of_not_isTerminal (h : ¬ job.status.isTerminal = true) : job.isActive = true := by
  simpa [TrackedTask.isActive] using h

end Access

namespace Change

variable {cap : Nat} {r : LocalJobRegistry}

theorem frames {stack : List Frame}
    (hsettling : stack.filterMap settling = r.stack.filterMap settling)
    (hreading : ∀ ref caller, (ref, caller) ∈ stack.filterMap reading →
      (ref, caller) ∈ r.stack.filterMap reading ∨ r.Shows ref caller) :
    Change cap r { r with stack } [] :=
  .other rfl rfl rfl rfl rfl rfl (List.Sublist.refl _) id hsettling hreading

theorem of_some {r' : LocalJobRegistry} {result : LocalJobRegistry × List JobEvent}
    {news : List JobEvent} (h : Change cap r result.1 result.2) (heq : some result = some (r', news)) :
    Change cap r r' news := by
  cases heq
  exact h

theorem refl (r : LocalJobRegistry) : Change cap r r [] :=
  .frames rfl fun _ _ hmem => .inl hmem

theorem observe {ref : Nat} {job : TrackedTask} {caller : Option Agent} (hjob : r.task? ref = some job)
    (hallows : job.allows caller = true) :
    Change cap r (r.observe ref job caller).1 (r.observe ref job caller).2 := by
  unfold LocalJobRegistry.observe
  split
  · have hreported : (r.report ref).task? ref = some { job with reported := true } := by
      have hget : r.tasks[ref]? = some job := hjob
      simp [LocalJobRegistry.report, LocalJobRegistry.modify, task?, hget]
    exact (Change.report r ref).trans (.see _ hreported hallows)
  · exact .see r hjob hallows

end Change

structure Permitted (r : LocalJobRegistry) : Prop where
  reading : ∀ ref caller, (ref, caller) ∈ r.stack.filterMap reading → r.Shows ref caller
  waiting : ∀ wait, wait ∈ r.blocked ∨ wait ∈ r.released → r.Shows wait.ref wait.caller

section Steps

variable {cap : Nat} {r r' : LocalJobRegistry} {news : List JobEvent}

theorem change_pop {frame : Frame} {rest : List Frame} (hstack : r.stack = frame :: rest)
    (hsettling : frame.settling = none) : Change cap r { r with stack := rest } [] := by
  refine .frames ?_ fun ref caller hmem => .inl ?_
  · rw [hstack, List.filterMap_cons_none hsettling]
  · rw [hstack]
    cases hreading : frame.reading with
    | none => rwa [List.filterMap_cons_none hreading]
    | some read =>
      rw [List.filterMap_cons_some hreading]
      exact List.mem_cons_of_mem _ hmem

theorem change_push {frame : Frame} (hsettling : frame.settling = none)
    (hreading : frame.reading = none) : Change cap r { r with stack := frame :: r.stack } [] := by
  refine .frames ?_ fun ref caller hmem => .inl ?_
  · rw [List.filterMap_cons_none hsettling]
  · rwa [List.filterMap_cons_none hreading] at hmem

attribute [local simp] step in
theorem change_start {spec : JobStart} {served : Bool}
    (hstep : r.step cap (.start spec served) = some (r', news)) : Change cap r r' news := by
  have hattached : ∀ stack : List Frame, (∀ frame ∈ stack, frame.settling = none ∧ frame.reading = none) →
      Change cap r { r.ensureOwnerCleanup spec.owner with stack := stack ++ r.stack } [] := by
    intro stack hstack
    have hsettling : stack.filterMap settling = [] :=
      List.filterMap_eq_nil_iff.mpr fun frame hmem => (hstack frame hmem).1
    have hreading : stack.filterMap reading = [] :=
      List.filterMap_eq_nil_iff.mpr fun frame hmem => (hstack frame hmem).2
    have hsame : ∀ owner : Option Agent, (r.ensureOwnerCleanup owner).tasks = r.tasks ∧
        (r.ensureOwnerCleanup owner).counters = r.counters ∧
        (r.ensureOwnerCleanup owner).waiters = r.waiters ∧
        (r.ensureOwnerCleanup owner).blocked = r.blocked ∧
        (r.ensureOwnerCleanup owner).released = r.released ∧
        (r.ensureOwnerCleanup owner).waits = r.waits ∧
        (r.ensureOwnerCleanup owner).store = r.store ∧
        (r.ensureOwnerCleanup owner).listenersClosed = r.listenersClosed := by
      intro owner
      unfold ensureOwnerCleanup
      split
      · exact ⟨rfl, rfl, rfl, rfl, rfl, rfl, rfl, rfl⟩
      · split <;> exact ⟨rfl, rfl, rfl, rfl, rfl, rfl, rfl, rfl⟩
    obtain ⟨htasks, hcounters, hwaiters, hblocked, hreleased, hwaits, hstore, hclosed⟩ :=
      hsame spec.owner
    refine .other htasks hcounters hwaiters hblocked hreleased hwaits ?_ ?_ ?_ ?_
    · rw [hstore]
    · rw [hclosed]
      exact id
    · rw [List.filterMap_append, hsettling, List.nil_append]
    · intro ref caller hmem
      rw [List.filterMap_append, hreading, List.nil_append] at hmem
      exact .inl hmem
  have hkept : ∀ owner : Option Agent, (r.ensureOwnerCleanup owner).stack = r.stack := by
    intro owner
    unfold ensureOwnerCleanup
    split
    · rfl
    · split <;> rfl
  simp only [step] at hstep
  split at hstep
  · cases hstep
  · split at hstep
    · cases hstep
      exact .refl r
    · split at hstep
      · cases hstep
        have hnothing := hattached [] (fun _ hmem => absurd hmem List.not_mem_nil)
        rw [List.nil_append, ← hkept spec.owner] at hnothing
        exact hnothing
      · cases hstep
        exact hattached [.run spec] fun frame hmem => by
          rw [List.mem_singleton.mp hmem]
          exact ⟨rfl, rfl⟩

theorem change_runReturns {readOutput : Bool} (hmeets : Undisturbed cap r (.runReturns readOutput))
    (hstep : r.step cap (.runReturns readOutput) = some (r', news)) : Change cap r r' news := by
  simp only [step] at hstep
  split at hstep
  · rename_i spec rest hstack
    cases hstep
    have hregistered := Change.register r spec readOutput (hmeets spec rest hstack)
    refine hregistered.trans (.frames ?_ fun ref caller hmem => .inl ?_)
    · change (changed spec.owner :: rest).filterMap settling =
        r.stack.filterMap settling
      rw [hstack]
      rfl
    · change (ref, caller) ∈ r.stack.filterMap reading
      rw [hstack]
      exact hmem
  · cases hstep

theorem change_look (ref : Nat) (id : String) (caller : Option Agent)
    (hstep : r.step cap (.list ref caller) = some (r', news) ∨
      r.step cap (.get id caller) = some (r', news)) : Change cap r r' news := by
  rcases hstep with hstep | hstep
  · simp only [step] at hstep
    split at hstep
    · cases hstep
    · split at hstep
      · cases hstep
      · rename_i job hjob
        split at hstep
        · rename_i hallows
          cases hstep
          exact .see r hjob hallows
        · cases hstep
  · simp only [step] at hstep
    split at hstep
    · cases hstep
    · split at hstep
      · cases hstep
        exact .refl r
      · rename_i ref job haccess
        cases hstep
        obtain ⟨hjob, hallows⟩ := access_eq_some haccess
        exact .see r hjob hallows

theorem change_read {id : String} {caller : Option Agent}
    (hstep : r.step cap (.read id caller) = some (r', news)) : Change cap r r' news := by
  simp only [step] at hstep
  split at hstep
  · cases hstep
  · split at hstep
    · cases hstep
      exact .refl r
    · rename_i ref job haccess
      obtain ⟨hjob, hallows⟩ := access_eq_some haccess
      split at hstep
      · cases hstep
        refine .frames rfl fun other reader hmem => ?_
        have hmem : (other, reader) ∈ (ref, caller) :: r.stack.filterMap reading := hmem
        rcases List.mem_cons.mp hmem with heq | hold
        · obtain ⟨rfl, rfl⟩ := Prod.mk.inj heq
          exact .inr ⟨job, hjob, hallows⟩
        · exact .inl hold
      · exact .of_some (.observe hjob hallows) hstep

theorem change_readReturns (hperm : Permitted r)
    (hstep : r.step cap .readReturns = some (r', news)) : Change cap r r' news := by
  simp only [step] at hstep
  split at hstep
  · rename_i ref caller rest hstack
    split at hstep
    · cases hstep
    · rename_i job hjob
      obtain ⟨shown, hshown, hallows⟩ := hperm.reading ref caller (by
        rw [hstack]
        exact List.mem_cons_self)
      obtain rfl := Option.some.inj (hjob.symm.trans hshown)
      exact .of_some ((change_pop hstack rfl).trans (.observe hjob hallows)) hstep
  · cases hstep

theorem change_kill {id : String} {caller : Option Agent}
    (hstep : r.step cap (.kill id caller) = some (r', news)) : Change cap r r' news := by
  simp only [step] at hstep
  split at hstep
  · cases hstep
  · split at hstep
    · cases hstep
      exact .refl r
    · rename_i ref job haccess
      obtain ⟨hjob, hallows⟩ := access_eq_some haccess
      split at hstep
      · exact .of_some (.observe hjob hallows) hstep
      · cases hstep
        exact (Change.see r hjob hallows).trans (change_push rfl rfl)

theorem change_cancelReturns (hmeets : Undisturbed cap r .cancelReturns)
    (hstep : r.step cap .cancelReturns = some (r', news)) : Change cap r r' news := by
  simp only [step] at hstep
  split at hstep
  · rename_i ref teardown rest hstack
    split at hstep
    · cases hstep
    · rename_i job hjob
      have hpopped : Change cap r { r with stack := .changed job.owner :: rest } [] := by
        refine .frames ?_ fun ref caller hmem => .inl ?_
        · rw [hstack]
          rfl
        · rw [hstack]
          exact hmem
      have hstopped := hpopped.trans
        (.stop { r with stack := .changed job.owner :: rest } hjob (hmeets ref teardown rest hstack job hjob))
      split at hstep
      · cases hstep
        exact hstopped
      · cases hstep
        refine hstopped.trans (@Change.claim cap _ ref { job with status := .stopping } ?_)
        have hcalled : { r with stack := .changed job.owner :: rest }.task? ref = some job := hjob
        rw [task?_modify, hcalled, Option.map_some, if_pos rfl]
  · cases hstep

theorem change_cancelThrows (hstep : r.step cap .cancelThrows = some (r', news)) :
    Change cap r r' news := by
  simp only [step] at hstep
  split at hstep
  · rename_i ref teardown rest hstack
    split at hstep
    · cases hstep
    · rename_i job hjob
      split at hstep
      · cases hstep
        exact change_pop hstack rfl
      · rename_i hactive
        rw [Bool.or_eq_true, not_or] at hactive
        exact .of_some ((change_pop hstack rfl).trans
          (.settle { r with stack := rest } _ hjob (isActive_of_not_isTerminal hactive.2))) hstep
  · cases hstep

theorem change_wait {id : String} {timeoutMs : Number} {caller : Option Agent} {aborted : Bool}
    (hstep : r.step cap (.wait id timeoutMs caller aborted) = some (r', news)) :
    Change cap r r' news := by
  simp only [step] at hstep
  split at hstep
  · cases hstep
  · split at hstep
    · cases hstep
      exact .refl r
    · rename_i ref job haccess
      obtain ⟨hjob, hallows⟩ := access_eq_some haccess
      split at hstep
      · cases hstep
        exact .refl r
      · split at hstep
        · exact .of_some (.observe hjob hallows) hstep
        · rename_i hactive
          split at hstep
          · cases hstep
            exact .refl r
          · cases hstep
            exact .waitBegins r hjob (isActive_of_not_isTerminal hactive) hallows

theorem change_waitContinues {wait : Wait} (hperm : Permitted r)
    (hstep : r.step cap (.waitContinues wait) = some (r', news)) : Change cap r r' news := by
  simp only [step] at hstep
  split at hstep
  · cases hstep
  · rename_i hreleased
    have hwait : wait ∈ r.released := by
      rw [Bool.or_eq_true, not_or] at hreleased
      simpa using hreleased.2
    split at hstep
    · cases hstep
    · rename_i job hjob
      obtain ⟨shown, hshown, hallows⟩ := hperm.waiting wait (.inr hwait)
      obtain rfl := Option.some.inj (hjob.symm.trans hshown)
      cases hstep
      exact (Change.waitContinues r hwait).trans (.observe hjob hallows)

theorem change_proceed (hstep : r.step cap .proceed = some (r', news)) : Change cap r r' news := by
  simp only [step] at hstep
  split at hstep
  · rename_i ref snapshot rest hstack
    split at hstep
    · rename_i hclosed
      cases hstep
      exact .silence r hstack hclosed
    · rename_i hopen
      cases hstep
      exact .announce r hstack (Bool.not_eq_true _ ▸ hopen)
  · rename_i rest hstack
    cases hstep
    exact change_pop hstack rfl
  · rename_i ref refs rest hstack
    have hreplaced : ∀ frames : List Frame, (∀ frame ∈ frames, frame.settling = none ∧ frame.reading = none) →
        Change cap r { r with stack := frames ++ rest } [] := by
      intro frames hframes
      refine .frames ?_ fun other caller hmem => .inl ?_
      · rw [List.filterMap_append, List.filterMap_eq_nil_iff.mpr fun frame hmem => (hframes frame hmem).1,
          hstack]
        rfl
      · rw [List.filterMap_append, List.filterMap_eq_nil_iff.mpr fun frame hmem => (hframes frame hmem).2]
          at hmem
        rw [hstack]
        exact hmem
    split at hstep
    · cases hstep
    · rename_i job hjob
      split at hstep
      · cases hstep
        exact hreplaced [.teardown refs] fun frame hmem => by
          rw [List.mem_singleton.mp hmem]
          exact ⟨rfl, rfl⟩
      · cases hstep
        have hnext := hreplaced [.cancel ref true, .teardown refs] fun frame hmem => by
          rcases List.mem_cons.mp hmem with rfl | hmem
          · exact ⟨rfl, rfl⟩
          · rw [List.mem_singleton.mp hmem]
            exact ⟨rfl, rfl⟩
        exact hnext.trans (.claim { r with stack := [.cancel ref true, .teardown refs] ++ rest } hjob)
  · cases hstep

theorem step_change {a : JobAction} (hperm : Permitted r) (hmeets : Undisturbed cap r a)
    (hstep : r.step cap a = some (r', news)) : Change cap r r' news := by
  cases a with
  | start spec served => exact change_start hstep
  | runReturns readOutput => exact change_runReturns hmeets hstep
  | list ref caller => exact change_look ref "" caller (.inl hstep)
  | get id caller => exact change_look 0 id caller (.inr hstep)
  | read id caller => exact change_read hstep
  | readReturns => exact change_readReturns hperm hstep
  | kill id caller => exact change_kill hstep
  | cancelReturns => exact change_cancelReturns hmeets hstep
  | cancelThrows => exact change_cancelThrows hstep
  | wait id timeoutMs caller aborted => exact change_wait hstep
  | waitContinues wait => exact change_waitContinues hperm hstep
  | proceed => exact change_proceed hstep
  | runThrows =>
    simp only [step] at hstep
    split at hstep
    · rename_i spec rest hstack
      cases hstep
      exact change_pop hstack rfl
    · cases hstep
  | readThrows =>
    simp only [step] at hstep
    split at hstep
    · rename_i ref caller rest hstack
      cases hstep
      exact change_pop hstack rfl
    · cases hstep
  | listenersReturn =>
    simp only [step] at hstep
    split at hstep
    · rename_i owner rest hstack
      cases hstep
      exact change_pop hstack rfl
    · rename_i ref rest hstack
      cases hstep
      exact change_pop hstack rfl
    · cases hstep
  | waitTimesOut wait =>
    simp only [step] at hstep
    split at hstep
    · cases hstep
    · rename_i hblocked
      cases hstep
      rw [Bool.or_eq_true, not_or] at hblocked
      exact .waitTimesOut r (by simpa using hblocked.2)
  | waitAborts wait =>
    simp only [step] at hstep
    split at hstep
    · cases hstep
    · rename_i hblocked
      cases hstep
      rw [Bool.or_eq_true, not_or] at hblocked
      exact .waitAborts r (by simpa using hblocked.2)
  | settle ref outcome =>
    simp only [step] at hstep
    split at hstep
    · cases hstep
    · split at hstep
      · cases hstep
      · rename_i job hjob
        split at hstep
        · cases hstep
          exact .refl r
        · rename_i hactive
          exact .of_some (.settle r outcome hjob (isActive_of_not_isTerminal hactive)) hstep
  | disposeOwned owner =>
    simp only [step] at hstep
    split at hstep
    · cases hstep
    · cases hstep
      exact .other rfl rfl rfl rfl rfl rfl (List.Sublist.refl _) (fun h => h) rfl
        fun _ _ hmem => .inl hmem
  | disposeAll =>
    simp only [step] at hstep
    split at hstep
    · cases hstep
    · cases hstep
      exact .other rfl rfl rfl rfl rfl rfl (List.Sublist.refl _) (fun _ => rfl) rfl
        fun _ _ hmem => .inl hmem
  | teardownContinues index =>
    simp only [step] at hstep
    split at hstep
    · cases hstep
    · rename_i hidle
      have hstack : r.stack = [] := by simpa using hidle
      split at hstep
      · cases hstep
      · rename_i teardown _
        split at hstep
        · cases hstep
          refine .other rfl rfl rfl rfl rfl rfl ?_ (fun h => h) ?_ ?_
          · dsimp only
            split
            · exact List.nil_sublist _
            · exact List.filter_sublist
          · rw [hstack]
            dsimp only
            split <;> rfl
          · intro ref caller hmem
            dsimp only at hmem
            split at hmem <;> cases hmem
        · cases hstep

end Steps

end DshKernel.Jobs
