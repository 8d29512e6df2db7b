import DshKernel.Jobs.RegistrySteps

/-!
# The lifecycle of jobs

What holds in every state that calls of the registry lead to, whatever foreign code calls from
within.
-/

namespace DshKernel.Jobs

open Js Lib List.Sublist

def JobStatus.moves (before after : JobStatus) : Prop :=
  before = after ∨ before = .running ∨ before = .stopping ∧ after.isTerminal = true

structure TrackedTask.Becomes (job job' : TrackedTask) : Prop where
  id : job'.id = job.id
  kind : job'.kind = job.kind
  owner : job'.owner = job.owner
  status : job.status.moves job'.status
  reported : job.reported = true → job'.reported = true

theorem JobStatus.moves.trans {a b c : JobStatus} (h : a.moves b) (h' : b.moves c) : a.moves c := by
  rcases h with rfl | rfl | ⟨rfl, hb⟩
  · exact h'
  · exact .inr (.inl rfl)
  · rcases h' with rfl | rfl | ⟨rfl, -⟩
    · exact .inr (.inr ⟨rfl, hb⟩)
    · cases hb
    · cases hb

theorem TrackedTask.Becomes.refl (job : TrackedTask) : job.Becomes job :=
  ⟨rfl, rfl, rfl, .inl rfl, fun hreported => hreported⟩

theorem TrackedTask.Becomes.trans {a b c : TrackedTask} (h : a.Becomes b) (h' : b.Becomes c) :
    a.Becomes c :=
  ⟨h'.id.trans h.id, h'.kind.trans h.kind, h'.owner.trans h.owner, h.status.trans h'.status,
    fun hreported => h'.reported (h.reported hreported)⟩

def GoesOn (r r' : LocalJobRegistry) : Prop :=
  ∀ ref job, r.task? ref = some job → ∃ job', r'.task? ref = some job' ∧ job.Becomes job'

theorem GoesOn.refl (r : LocalJobRegistry) : GoesOn r r :=
  fun _ job hjob => ⟨job, hjob, .refl job⟩

theorem GoesOn.trans {a b c : LocalJobRegistry} (h : GoesOn a b) (h' : GoesOn b c) : GoesOn a c := by
  intro ref job hjob
  obtain ⟨job', hjob', hbecomes⟩ := h ref job hjob
  obtain ⟨job'', hjob'', hbecomes'⟩ := h' ref job' hjob'
  exact ⟨job'', hjob'', hbecomes.trans hbecomes'⟩

theorem becomes_settle {job : TrackedTask} {outcome : JobOutcome} {awaited : Bool}
    (hactive : job.isActive = true) : job.Becomes (job.settle outcome awaited) := by
  refine ⟨rfl, rfl, rfl, ?_, fun hreported => ?_⟩
  · have hlive : job.status.isTerminal = false := by simpa [TrackedTask.isActive] using hactive
    cases hstatus : job.status with
    | running => exact .inr (.inl rfl)
    | stopping => exact .inr (.inr ⟨rfl, outcome.terminal⟩)
    | _ =>
      rw [hstatus] at hlive
      cases hlive
  · change (job.reported || awaited) = true
    rw [hreported, Bool.true_or]

section GoesOn

variable {cap : Nat} {r r' : LocalJobRegistry} {news : List JobEvent}

variable {ref : Nat} {caller : Option Agent}

theorem goesOn_modify {change : TrackedTask → TrackedTask}
    (hchange : ∀ job, r.task? ref = some job → job.Becomes (change job)) :
    GoesOn r (r.modify ref change) := by
  intro other job hjob
  rw [task?_modify, hjob]
  refine ⟨_, rfl, ?_⟩
  split
  · rename_i heq
    exact hchange job (heq ▸ hjob)
  · exact .refl job

theorem Change.goesOn (h : Change cap r r' news) : GoesOn r r' := by
  induction h with
  | other htasks =>
    intro ref job hjob
    refine ⟨job, ?_, .refl job⟩
    unfold LocalJobRegistry.task?
    rw [htasks]
    exact hjob
  | register r spec readOutput _ =>
    intro ref job hjob
    have hlt : ref < r.tasks.length := (List.getElem?_eq_some_iff.mp hjob).1
    refine ⟨job, ?_, .refl job⟩
    rw [task?_register, if_neg (by omega)]
    exact hjob
  | report r ref => exact goesOn_modify fun job _ => ⟨rfl, rfl, rfl, .inl rfl, fun _ => rfl⟩
  | claim r _ => exact goesOn_modify fun job _ => ⟨rfl, rfl, rfl, .inl rfl, fun _ => rfl⟩
  | @stop r ref job hjob hactive =>
    refine goesOn_modify fun other hother => ?_
    obtain rfl := Option.some.inj (hjob.symm.trans hother)
    refine ⟨rfl, rfl, rfl, ?_, fun hreported => hreported⟩
    cases hstatus : job.status with
    | running => exact .inr (.inl rfl)
    | stopping => exact .inl rfl
    | _ => simp [TrackedTask.isActive, hstatus, JobStatus.isTerminal] at hactive
  | settle r outcome hjob hactive =>
    intro other job' hother
    rw [task?_settle hjob]
    split
    · rename_i heq
      obtain rfl := Option.some.inj (hjob.symm.trans (heq ▸ hother))
      exact ⟨_, rfl, becomes_settle hactive⟩
    · exact ⟨job', hother, .refl job'⟩
  | trans _ _ ih ih' => exact ih.trans ih'
  | _ => exact .refl _

theorem TrackedTask.Becomes.allows {job job' : TrackedTask}
    (h : job.Becomes job') (hallows : job.allows caller = true) : job'.allows caller = true := by
  unfold TrackedTask.allows at hallows ⊢
  rw [h.owner]
  exact hallows

theorem GoesOn.shows (h : GoesOn r r') (hshows : r.Shows ref caller) : r'.Shows ref caller := by
  obtain ⟨job, hjob, hallows⟩ := hshows
  obtain ⟨job', hjob', hbecomes⟩ := h ref job hjob
  exact ⟨job', hjob', hbecomes.allows hallows⟩

theorem GoesOn.terminal {job : TrackedTask} (h : GoesOn r r') (hjob : r.task? ref = some job)
    (hterminal : job.status.isTerminal = true) :
    ∃ job', r'.task? ref = some job' ∧ job'.status = job.status := by
  obtain ⟨job', hjob', hbecomes⟩ := h ref job hjob
  refine ⟨job', hjob', ?_⟩
  rcases hbecomes.status with heq | heq | ⟨heq, -⟩
  · exact heq.symm
  · rw [heq] at hterminal
    cases hterminal
  · rw [heq] at hterminal
    cases hterminal

end GoesOn

theorem Permitted.keep {r r' : LocalJobRegistry} (h : Permitted r) (hgoesOn : GoesOn r r')
    (hstack : r'.stack = r.stack) (hblocked : r'.blocked = r.blocked)
    (hreleased : r'.released = r.released) : Permitted r' := by
  refine ⟨fun ref caller hmem => hgoesOn.shows (h.reading ref caller (hstack ▸ hmem)),
    fun wait hwait => hgoesOn.shows (h.waiting wait ?_)⟩
  rwa [hblocked, hreleased] at hwait

theorem Permitted.change {cap : Nat} {r r' : LocalJobRegistry} {news : List JobEvent}
    (h : Permitted r) (hchange : Change cap r r' news) : Permitted r' := by
  induction hchange with
  | trans _ _ ih ih' => exact ih' (ih h)
  | @other r r' htasks hcounters hwaiters hblocked hreleased hwaits hstore hclosed hsettling hreading =>
    have hgoesOn : GoesOn r r' :=
      (@Change.other cap _ _ htasks hcounters hwaiters hblocked hreleased hwaits hstore hclosed
        hsettling hreading).goesOn
    refine ⟨fun ref caller hmem => hgoesOn.shows ?_, fun wait hwait => hgoesOn.shows ?_⟩
    · exact (hreading ref caller hmem).elim (h.reading ref caller) fun hshows => hshows
    · rw [hblocked, hreleased] at hwait
      exact h.waiting wait hwait
  | see r _ _ => exact h
  | register r spec readOutput hcap => exact h.keep (Change.register r spec readOutput hcap).goesOn rfl rfl rfl
  | report r ref => exact h.keep (@Change.report cap r ref).goesOn rfl rfl rfl
  | claim r hjob => exact h.keep (@Change.claim cap r _ _ hjob).goesOn rfl rfl rfl
  | stop r hjob hactive => exact h.keep (@Change.stop cap r _ _ hjob hactive).goesOn rfl rfl rfl
  | settle r outcome hjob hactive =>
    have hgoesOn := (@Change.settle cap r _ _ outcome hjob hactive).goesOn
    refine ⟨fun ref caller hmem => hgoesOn.shows (h.reading ref caller hmem),
      fun wait hwait => hgoesOn.shows (h.waiting wait ?_)⟩
    rcases hwait with hblocked | hreleased
    · exact .inl (List.mem_filter.mp hblocked).1
    · rcases List.mem_append.mp hreleased with hold | hnew
      · exact .inr hold
      · exact .inl (List.mem_filter.mp hnew).1
  | silence r hstack _ =>
    refine ⟨fun ref caller hmem => h.reading ref caller ?_, h.waiting⟩
    rw [hstack]
    exact hmem
  | announce r hstack _ =>
    refine ⟨fun ref caller hmem => h.reading ref caller ?_, h.waiting⟩
    rw [hstack]
    exact hmem
  | waitBegins r hjob hactive hallows =>
    refine ⟨h.reading, fun wait hwait => ?_⟩
    rcases hwait with hblocked | hreleased
    · rcases List.mem_append.mp hblocked with hold | hnew
      · exact h.waiting wait (.inl hold)
      · rw [List.mem_singleton.mp hnew]
        exact ⟨_, hjob, hallows⟩
    · exact h.waiting wait (.inr hreleased)
  | waitTimesOut r hmem =>
    refine ⟨h.reading, fun wait hwait => ?_⟩
    rcases hwait with hblocked | hreleased
    · exact h.waiting wait (.inl (List.mem_of_mem_erase hblocked))
    · rcases List.mem_append.mp hreleased with hold | hnew
      · exact h.waiting wait (.inr hold)
      · rw [List.mem_singleton.mp hnew]
        exact h.waiting _ (.inl hmem)
  | waitAborts r _ =>
    exact ⟨h.reading, fun wait hwait => h.waiting wait (hwait.imp_left List.mem_of_mem_erase)⟩
  | waitContinues r _ =>
    exact ⟨h.reading, fun wait hwait => h.waiting wait (hwait.imp_right List.mem_of_mem_erase)⟩

section Ids

theorem append_separator_inj {α : Type} {separator : α} {a a' d d' : List α} (hd : separator ∉ d)
    (hd' : separator ∉ d') (h : a ++ separator :: d = a' ++ separator :: d') : a = a' ∧ d = d' := by
  induction a generalizing a' with
  | nil =>
    cases a' with
    | nil => exact ⟨rfl, (List.cons.inj h).2⟩
    | cons x xs =>
      obtain ⟨rfl, hrest⟩ := List.cons.inj h
      exact absurd (by rw [hrest]; simp) hd
  | cons x xs ih =>
    cases a' with
    | nil =>
      obtain ⟨rfl, hrest⟩ := List.cons.inj h
      exact absurd (by rw [← hrest]; simp) hd'
    | cons y ys =>
      obtain ⟨rfl, hrest⟩ := List.cons.inj h
      obtain ⟨rfl, rfl⟩ := ih hrest
      exact ⟨rfl, rfl⟩

theorem toList_jobId (kind : String) (count : Nat) :
    (jobId kind count).toList = kind.toList ++ '-' :: Nat.toDigits 10 count := by
  rw [jobId, String.toList_append, String.toList_append]
  change kind.toList ++ ['-'] ++ count.repr.toList = _
  rw [Nat.toList_repr, List.append_assoc]
  rfl

theorem jobId_inj {kind kind' : String} {count count' : Nat}
    (h : jobId kind count = jobId kind' count') : kind = kind' ∧ count = count' := by
  have hdigits : ∀ n : Nat, '-' ∉ Nat.toDigits 10 n := by
    intro n hmem
    have hdigit := Nat.isDigit_of_mem_toDigits (by omega) (by omega) hmem
    exact absurd hdigit (by decide)
  have hlists : kind.toList ++ '-' :: Nat.toDigits 10 count =
      kind'.toList ++ '-' :: Nat.toDigits 10 count' := by
    rw [← toList_jobId, ← toList_jobId, h]
  obtain ⟨hkind, hcount⟩ := append_separator_inj (hdigits count) (hdigits count') hlists
  refine ⟨String.toList_injective hkind, ?_⟩
  calc
    count = Nat.ofDigitChars 10 (Nat.toDigits 10 count) 0 := Nat.ofDigitChars_ten_toDigits.symm
    _ = Nat.ofDigitChars 10 (Nat.toDigits 10 count') 0 := by rw [hcount]
    _ = count' := Nat.ofDigitChars_ten_toDigits

end Ids

structure Named (r : LocalJobRegistry) : Prop where
  stored : ∀ ref ∈ r.store, ref < r.tasks.length
  counted : ∀ ref job, r.task? ref = some job → ∃ count, job.id = jobId job.kind count ∧
    count ≤ (r.counters.get? job.kind).getD 0
  unique : ∀ ref ref' job job', r.task? ref = some job → r.task? ref' = some job' →
    job.id = job'.id → ref = ref'

namespace Named

variable {cap : Nat} {r r' : LocalJobRegistry} {news : List JobEvent}

theorem keep (h : Named r) (hgoesOn : GoesOn r r') (hlength : r'.tasks.length = r.tasks.length)
    (hcounters : r'.counters = r.counters) (hstore : r'.store.Sublist r.store) : Named r' := by
  have hback : ∀ ref job', r'.task? ref = some job' → ∃ job, r.task? ref = some job ∧ job.Becomes job' := by
    intro ref job' hjob'
    have hlt : ref < r.tasks.length := hlength ▸ (List.getElem?_eq_some_iff.mp hjob').1
    have hjob : r.task? ref = some r.tasks[ref] := List.getElem?_eq_getElem hlt
    obtain ⟨job'', hjob'', hbecomes⟩ := hgoesOn ref _ hjob
    obtain rfl := Option.some.inj (hjob'.symm.trans hjob'')
    exact ⟨_, hjob, hbecomes⟩
  refine ⟨?_, ?_, ?_⟩
  · intro ref hmem
    rw [hlength]
    exact h.stored ref (hstore.subset hmem)
  · intro ref job' hjob'
    obtain ⟨job, hjob, hbecomes⟩ := hback ref job' hjob'
    rw [hbecomes.id, hbecomes.kind, hcounters]
    exact h.counted ref job hjob
  · intro ref ref' job job' hjob hjob' heq
    obtain ⟨before, hbefore, hbecomes⟩ := hback ref job hjob
    obtain ⟨before', hbefore', hbecomes'⟩ := hback ref' job' hjob'
    refine h.unique ref ref' before before' hbefore hbefore' ?_
    rw [← hbecomes.id, ← hbecomes'.id, heq]

theorem register (h : Named r) (spec : JobStart) (readOutput : Bool) :
    Named (r.register spec readOutput) := by
  have hnew : ∀ ref job, r.task? ref = some job →
      job.id ≠ jobId spec.kind ((r.counters.get? spec.kind).getD 0 + 1) := by
    intro ref job hjob heq
    obtain ⟨count, hid, hle⟩ := h.counted ref job hjob
    rw [hid] at heq
    obtain ⟨hkind, rfl⟩ := jobId_inj heq
    rw [hkind] at hle
    omega
  refine ⟨?_, ?_, ?_⟩
  · intro ref hmem
    have hlength : (r.register spec readOutput).tasks.length = r.tasks.length + 1 := by
      simp [LocalJobRegistry.register]
    rw [hlength]
    rcases List.mem_append.mp hmem with hold | hlast
    · exact Nat.lt_succ_of_lt (h.stored ref hold)
    · rw [List.mem_singleton.mp hlast]
      exact Nat.lt_succ_self _
  · intro ref job hjob
    change ∃ count, job.id = jobId job.kind count ∧
      count ≤ ((r.counters.set spec.kind ((r.counters.get? spec.kind).getD 0 + 1)).get? job.kind).getD 0
    rw [OrderedMap.get?_set]
    rw [task?_register] at hjob
    split at hjob
    · cases hjob
      exact ⟨_, rfl, by rw [if_pos rfl]; exact Nat.le_refl _⟩
    · obtain ⟨count, hid, hle⟩ := h.counted ref job hjob
      refine ⟨count, hid, ?_⟩
      split
      · rename_i hkind
        rw [hkind] at hle
        exact Nat.le_succ_of_le hle
      · exact hle
  · intro ref ref' job job' hjob hjob' heq
    rw [task?_register] at hjob hjob'
    split at hjob
    · split at hjob'
      · omega
      · cases hjob
        exact absurd heq.symm (hnew ref' job' hjob')
    · split at hjob'
      · cases hjob'
        exact absurd heq (hnew ref job hjob)
      · exact h.unique ref ref' job job' hjob hjob' heq

theorem change (h : Named r) (hchange : Change cap r r' news) : Named r' := by
  induction hchange with
  | trans _ _ ih ih' => exact ih' (ih h)
  | @other r r' htasks hcounters hwaiters hblocked hreleased hwaits hstore hclosed hsettling hreading =>
    have hgoesOn := (@Change.other cap _ _ htasks hcounters hwaiters hblocked hreleased hwaits hstore
      hclosed hsettling hreading).goesOn
    exact h.keep hgoesOn (by rw [htasks]) hcounters hstore
  | register r spec readOutput _ => exact h.register spec readOutput
  | report r ref =>
    exact h.keep (@Change.report cap r ref).goesOn (List.length_modify ..) rfl (refl _)
  | claim r hjob =>
    exact h.keep (@Change.claim cap r _ _ hjob).goesOn (List.length_modify ..) rfl (refl _)
  | stop r hjob hactive =>
    exact h.keep (@Change.stop cap r _ _ hjob hactive).goesOn (List.length_modify ..) rfl
      (refl _)
  | settle r outcome hjob hactive =>
    exact h.keep (@Change.settle cap r _ _ outcome hjob hactive).goesOn List.length_set rfl
      (refl _)
  | _ => exact ⟨h.stored, h.counted, h.unique⟩

end Named

section Counts

variable {cap : Nat} {r r' : LocalJobRegistry} {news : List JobEvent}

def LocalJobRegistry.counts (r : LocalJobRegistry) (owner : Option Agent) (ref : Nat) : Bool :=
  (r.task? ref).any fun job => job.owner == owner && job.isActive

def Capped (cap : Nat) (r : LocalJobRegistry) : Prop := ∀ owner, r.activeTaskCount owner ≤ cap

variable {owner : Option Agent}

theorem activeTaskCount_mono (hstore : r'.store.Sublist r.store)
    (hcounts : ∀ ref, r'.counts owner ref = true → r.counts owner ref = true) :
    r'.activeTaskCount owner ≤ r.activeTaskCount owner :=
  Nat.le_trans (List.countP_mono_left fun ref _ => hcounts ref) hstore.countP_le

theorem GoesOn.counts {ref : Nat} (h : GoesOn r r')
    (hlength : r'.tasks.length = r.tasks.length) (hcounts : r'.counts owner ref = true) :
    r.counts owner ref = true := by
  unfold LocalJobRegistry.counts at hcounts ⊢
  cases hjob' : r'.task? ref with
  | none =>
    rw [hjob'] at hcounts
    cases hcounts
  | some job' =>
    have hlt : ref < r.tasks.length := hlength ▸ (List.getElem?_eq_some_iff.mp hjob').1
    have hjob : r.task? ref = some r.tasks[ref] := List.getElem?_eq_getElem hlt
    obtain ⟨job'', hjob'', hbecomes⟩ := h ref _ hjob
    obtain rfl := Option.some.inj (hjob'.symm.trans hjob'')
    rw [hjob'] at hcounts
    rw [hjob]
    simp only [Option.any_some, Bool.and_eq_true, beq_iff_eq] at hcounts ⊢
    refine ⟨hbecomes.owner ▸ hcounts.1, ?_⟩
    have hactive : job'.status.isTerminal = false := by
      simpa [TrackedTask.isActive] using hcounts.2
    cases hterminal : r.tasks[ref].status.isTerminal with
    | false => simp [TrackedTask.isActive, hterminal]
    | true =>
      obtain ⟨later, hlater, hstatus⟩ := h.terminal hjob hterminal
      obtain rfl := Option.some.inj (hjob'.symm.trans hlater)
      rw [hstatus, hterminal] at hactive
      cases hactive

theorem Capped.keep (h : Capped cap r) (hgoesOn : GoesOn r r')
    (hlength : r'.tasks.length = r.tasks.length) (hstore : r'.store.Sublist r.store) : Capped cap r' :=
  fun owner => Nat.le_trans
    (activeTaskCount_mono hstore fun _ hcounts => hgoesOn.counts hlength hcounts) (h owner)

theorem Capped.register {spec : JobStart} {readOutput : Bool} (h : Capped cap r) (hnamed : Named r)
    (hcap : r.activeTaskCount spec.owner < cap) : Capped cap (r.register spec readOutput) := by
  intro owner
  have hold : (r.store.countP fun ref => (r.register spec readOutput).counts owner ref) =
      r.activeTaskCount owner := by
    refine List.countP_congr fun ref hmem => ?_
    have hlt := hnamed.stored ref hmem
    rw [LocalJobRegistry.counts, task?_register, if_neg (by omega)]
  have hsum : (r.register spec readOutput).activeTaskCount owner = r.activeTaskCount owner +
      [r.tasks.length].countP fun ref => (r.register spec readOutput).counts owner ref := by
    rw [← hold, ← List.countP_append]
    rfl
  rw [hsum, List.countP_singleton]
  by_cases howner : spec.owner = owner
  · subst howner
    split
    · exact hcap
    · exact h spec.owner
  · have hother : (r.register spec readOutput).counts owner r.tasks.length = false := by
      rw [LocalJobRegistry.counts, task?_register, if_pos rfl]
      simp [howner]
    rw [hother]
    exact h owner

theorem Capped.change (h : Capped cap r) (hnamed : Named r) (hchange : Change cap r r' news) :
    Capped cap r' := by
  induction hchange with
  | trans first _ ih ih' => exact ih' (ih h hnamed) (hnamed.change first)
  | @other r r' htasks hcounters hwaiters hblocked hreleased hwaits hstore hclosed hsettling hreading =>
    have hgoesOn := (@Change.other cap _ _ htasks hcounters hwaiters hblocked hreleased hwaits hstore
      hclosed hsettling hreading).goesOn
    exact h.keep hgoesOn (by rw [htasks]) hstore
  | register r spec readOutput hcap => exact h.register hnamed hcap
  | report r ref =>
    exact h.keep (@Change.report cap r ref).goesOn (List.length_modify ..) (refl _)
  | claim r hjob =>
    exact h.keep (@Change.claim cap r _ _ hjob).goesOn (List.length_modify ..) (refl _)
  | stop r hjob hactive =>
    exact h.keep (@Change.stop cap r _ _ hjob hactive).goesOn (List.length_modify ..)
      (refl _)
  | settle r outcome hjob hactive =>
    exact h.keep (@Change.settle cap r _ _ outcome hjob hactive).goesOn List.length_set
      (refl _)
  | _ => exact h

end Counts

end DshKernel.Jobs
