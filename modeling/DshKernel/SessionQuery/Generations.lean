import DshKernel.Lib.Stamps
import DshKernel.SessionQuery.SearchEngine

/-!
# The generations of the index

A row is written with a generation that no row had before, in its table and as long as the engine
lives. The whole index has a generation of its own, which moves with every change that a search can
see.
-/

namespace DshKernel.SessionQuery

open Js Lib

namespace Engine

structure Sound (e : Engine) : Prop where
  persisted : Stamped IndexedPersistedSession.generation e.main.globalGeneration
    e.main.persistedSessions
  live : Stamped IndexedLiveSession.generation e.localGeneration e.liveSessions

structure Keeps (earlier later : Engine) : Prop where
  identified : earlier.lastPersistenceIdentity.isSome → later.lastPersistenceIdentity.isSome
  main_le : earlier.main.globalGeneration ≤ later.main.globalGeneration
  local_le : earlier.localGeneration ≤ later.localGeneration
  whole_le : earlier.globalGeneration ≤ later.globalGeneration
  persisted : KeepsStamped IndexedPersistedSession.generation earlier.main.globalGeneration
    earlier.main.persistedSessions later.main.persistedSessions
  live : KeepsStamped IndexedLiveSession.generation earlier.localGeneration
    earlier.liveSessions later.liveSessions
  /-- The tables do not change within a generation of the whole index. -/
  tables : earlier.globalGeneration = later.globalGeneration →
    later.main.persistedSessions = earlier.main.persistedSessions ∧
      later.liveSessions = earlier.liveSessions
  whole : earlier.lastPersistenceIdentity.isSome →
    earlier.globalGeneration = later.globalGeneration →
      later.lastPersistenceIdentity = earlier.lastPersistenceIdentity

structure Follows (earlier later : Engine) : Prop where
  instance_le : earlier.instanceId ≤ later.instanceId
  keeps : earlier.instanceId = later.instanceId → earlier.Keeps later

theorem Keeps.refl (e : Engine) : e.Keeps e where
  identified := fun h => h
  main_le := Nat.le_refl _
  local_le := Nat.le_refl _
  whole_le := Nat.le_refl _
  persisted := KeepsStamped.refl _ _
  live := KeepsStamped.refl _ _
  tables := fun _ => ⟨rfl, rfl⟩
  whole := fun _ _ => rfl

theorem Keeps.trans {first second third : Engine} (h : first.Keeps second)
    (hlater : second.Keeps third) : first.Keeps third where
  identified := fun hsome => hlater.identified (h.identified hsome)
  main_le := Nat.le_trans h.main_le hlater.main_le
  local_le := Nat.le_trans h.local_le hlater.local_le
  whole_le := Nat.le_trans h.whole_le hlater.whole_le
  persisted := h.persisted.trans hlater.persisted h.main_le
  live := h.live.trans hlater.live h.local_le
  tables := by
    intro heq
    have hle := h.whole_le
    have hle' := hlater.whole_le
    obtain ⟨hpersisted, hlive⟩ := h.tables (by omega)
    obtain ⟨hpersisted', hlive'⟩ := hlater.tables (by omega)
    exact ⟨hpersisted'.trans hpersisted, hlive'.trans hlive⟩
  whole := by
    intro hsome heq
    have hle := h.whole_le
    have hle' := hlater.whole_le
    rw [hlater.whole (h.identified hsome) (by omega), h.whole hsome (by omega)]

theorem Follows.refl (e : Engine) : e.Follows e := ⟨Nat.le_refl _, fun _ => Keeps.refl e⟩

theorem Follows.trans {first second third : Engine} (h : first.Follows second)
    (hlater : second.Follows third) : first.Follows third := by
  refine ⟨Nat.le_trans h.instance_le hlater.instance_le, ?_⟩
  intro heq
  have hle := h.instance_le
  have hle' := hlater.instance_le
  exact (h.keeps (by omega)).trans (hlater.keeps (by omega))

section Reconcile

variable {hasService : Nat → Bool} {e next : Engine} {observation : Observation}
variable {failure : Option String}

theorem reconcile_cases (h : e.reconcile hasService observation failure = .ok next) :
    e.hasWrites hasService observation = true ∧ next = e.written hasService observation ∨
      e.hasWrites hasService observation = false ∧ next = e.advanced hasService observation := by
  unfold reconcile at h
  split at h
  · rename_i hwrites
    cases failure with
    | some message => cases h
    | none => exact Or.inl ⟨hwrites, (Except.ok.inj h).symm⟩
  · rename_i hwrites
    exact Or.inr ⟨Bool.eq_false_iff.mpr hwrites, (Except.ok.inj h).symm⟩

section Tables

variable {nextMain start count generation : Nat}
variable {liveTable liveBase : OrderedMap String IndexedLiveSession}
variable {table base : OrderedMap String IndexedPersistedSession}
variable {entries : List ObservedSession}

theorem live_replaced (hstamped : Stamped IndexedLiveSession.generation start liveTable)
    (hkeeps : KeepsStamped IndexedLiveSession.generation count liveBase liveTable)
    (hle : count ≤ start) :
    let replacements := liveReplacements observation nextMain start entries
    let replaced := replacements.1.foldl
      (fun table replacement =>
        replaceLiveSession table replacement.entry replacement.generation replacement.persisted)
      liveTable
    Stamped IndexedLiveSession.generation replacements.2 replaced ∧
      KeepsStamped IndexedLiveSession.generation count liveBase replaced ∧
        start ≤ replacements.2 := by
  induction entries generalizing start liveTable with
  | nil => exact ⟨hstamped, hkeeps, Nat.le_refl _⟩
  | cons entry rest ih =>
    have hfresh : start < max start nextMain + 1 := Nat.lt_succ_of_le (Nat.le_max_left _ _)
    have hrow : Stamped IndexedLiveSession.generation (max start nextMain + 1)
        (replaceLiveSession liveTable entry (max start nextMain + 1)
          (decide (entry.header.id ∈ observation.persisted.keys))) :=
      ((hstamped.mono (Nat.le_of_lt hfresh)).delete).set (Nat.le_refl _)
    have hkept : KeepsStamped IndexedLiveSession.generation count liveBase
        (replaceLiveSession liveTable entry (max start nextMain + 1)
          (decide (entry.header.id ∈ observation.persisted.keys))) :=
      hkeeps.delete.set (Nat.lt_of_le_of_lt hle hfresh)
    obtain ⟨hrest, hrest', hstop⟩ := ih hrow hkept (by omega)
    exact ⟨hrest, hrest', Nat.le_trans (Nat.le_of_lt hfresh) hstop⟩

theorem persisted_replaced (changes : List (ObservedSession × String))
    (hstamped : Stamped IndexedPersistedSession.generation generation table)
    (hkeeps : KeepsStamped IndexedPersistedSession.generation count base table)
    (hlt : count < generation) :
    let replaced := changes.foldl
      (fun table entry => replacePersistedSession table entry.1 entry.2 generation) table
    Stamped IndexedPersistedSession.generation generation replaced ∧
      KeepsStamped IndexedPersistedSession.generation count base replaced := by
  induction changes generalizing table with
  | nil => exact ⟨hstamped, hkeeps⟩
  | cons change rest ih =>
    apply ih
    · exact hstamped.delete.set (Nat.le_refl _)
    · exact hkeeps.delete.set hlt

end Tables

section Written

variable (hasService observation) (hsound : e.Sound)
include hsound

theorem replacements_live :
    Stamped IndexedLiveSession.generation (e.replacements hasService observation).2
        (e.writtenLive hasService observation) ∧
      KeepsStamped IndexedLiveSession.generation e.localGeneration e.liveSessions
        (e.writtenLive hasService observation) ∧
      e.localGeneration ≤ (e.replacements hasService observation).2 :=
  live_replaced hsound.live.deletes (KeepsStamped.refl _ _).deletes (Nat.le_refl _)

theorem written_main :
    Stamped IndexedPersistedSession.generation
        (e.nextMainGeneration hasService observation)
        (e.writtenMain hasService observation).persistedSessions ∧
      KeepsStamped IndexedPersistedSession.generation e.main.globalGeneration
        e.main.persistedSessions (e.writtenMain hasService observation).persistedSessions ∧
      e.main.globalGeneration ≤ e.nextMainGeneration hasService observation := by
  cases hpersistent : (e.changes hasService observation).isPersistent with
  | true =>
    have hnext : e.nextMainGeneration hasService observation = e.main.globalGeneration + 1 := by
      rw [nextMainGeneration, hpersistent, if_pos rfl]
    have hlt : e.main.globalGeneration < e.nextMainGeneration hasService observation := by omega
    obtain ⟨hstamped, hkeeps⟩ := persisted_replaced
      (e.changes hasService observation).persistentChanges
      (hsound.persisted.mono (Nat.le_of_lt hlt)).deletes (KeepsStamped.refl _ _).deletes hlt
    exact ⟨hstamped, hkeeps, Nat.le_of_lt hlt⟩
  | false =>
    have hnext : e.nextMainGeneration hasService observation = e.main.globalGeneration := by
      rw [nextMainGeneration, hpersistent, if_neg Bool.false_ne_true]
    have hempty : (e.changes hasService observation).persistentChanges = [] ∧
        (e.changes hasService observation).persistentDeletes = [] := by
      simpa [Changes.isPersistent] using hpersistent
    have htable : (e.writtenMain hasService observation).persistedSessions =
        e.main.persistedSessions := by
      rw [writtenMain, hempty.1, hempty.2]
      rfl
    rw [hnext, htable]
    exact ⟨hsound.persisted, KeepsStamped.refl _ _, Nat.le_refl _⟩

end Written

theorem sound_reconcile (hsound : e.Sound)
    (h : e.reconcile hasService observation failure = .ok next) : next.Sound := by
  have hmain := written_main hasService observation hsound
  have hlive := replacements_live hasService observation hsound
  rcases reconcile_cases h with ⟨-, rfl⟩ | ⟨-, rfl⟩
  · exact ⟨hmain.1, hlive.1⟩
  · exact ⟨hsound.persisted, hsound.live.mono hlive.2.2⟩

theorem last_eq_of_not_pointerChanged (h : e.pointerChanged observation = false)
    (hsome : e.lastPersistenceIdentity.isSome = true) :
    some observation.persistenceBinding = e.lastPersistenceIdentity := by
  rw [pointerChanged, hsome, Bool.true_and] at h
  exact (bne_eq_false_iff_eq.mp h).symm

theorem advanced_counters (hasService : Nat → Bool) (e : Engine) (observation : Observation) :
    e.globalGeneration ≤ (e.advanced hasService observation).globalGeneration ∧
      (e.globalGeneration = (e.advanced hasService observation).globalGeneration →
        e.hasWrites hasService observation = false ∧ e.pointerChanged observation = false) := by
  unfold advanced
  cases e.hasWrites hasService observation <;> cases e.pointerChanged observation <;> simp

theorem keeps_reconcile (hsound : e.Sound)
    (h : e.reconcile hasService observation failure = .ok next) : e.Keeps next := by
  obtain ⟨hwhole, hsame⟩ := advanced_counters hasService e observation
  obtain ⟨-, hpersisted, hmain⟩ := written_main hasService observation hsound
  obtain ⟨-, hlive, hlocal⟩ := replacements_live hasService observation hsound
  have hlast : e.pointerChanged observation = false → e.lastPersistenceIdentity.isSome = true →
      some observation.persistenceBinding = e.lastPersistenceIdentity :=
    last_eq_of_not_pointerChanged
  rcases reconcile_cases h with ⟨hwrites, rfl⟩ | ⟨-, rfl⟩
  · refine ⟨fun _ => rfl, hmain, hlocal, hwhole, hpersisted, hlive, ?_,
      fun hsome heq => hlast (hsame heq).2 hsome⟩
    intro heq
    rw [(hsame heq).1] at hwrites
    exact Bool.noConfusion hwrites
  · exact ⟨fun _ => rfl, Nat.le_refl _, hlocal, hwhole, KeepsStamped.refl _ _,
      KeepsStamped.refl _ _, fun _ => ⟨rfl, rfl⟩,
      fun hsome heq => hlast (hsame heq).2 hsome⟩

end Reconcile

section Search

variable {env : Environment} {e next : Engine} {exec : SearchExec} {α : Type}
variable {normalized : Except SearchFailure α}

theorem run_cases (env : Environment) (e : Engine) (normalized : Except SearchFailure α)
    (exec : SearchExec) :
    (∃ failure, ∀ answer, e.run env normalized exec answer = (e, .error failure)) ∨
      ∃ request next, normalized = .ok request ∧ e.refresh env exec = .ok next ∧
        ∀ answer, e.run env normalized exec answer =
          (next, if exec.aborted then .error searchAborted else answer next request) := by
  by_cases hnever : env.config.openAt = .never
  · exact Or.inl ⟨searchDisabled, fun _ => if_pos hnever⟩
  · cases normalized with
    | error failure => exact Or.inl ⟨failure, fun _ => if_neg hnever⟩
    | ok request =>
      cases hrefresh : e.refresh env exec with
      | error failure =>
        refine Or.inl ⟨failure, fun answer => ?_⟩
        simp only [run, if_neg hnever, hrefresh]
      | ok next =>
        refine Or.inr ⟨request, next, rfl, rfl, fun answer => ?_⟩
        simp only [run, if_neg hnever, hrefresh]

theorem refresh_cases (h : e.refresh env exec = .ok next) :
    ∃ observation, e.reconcile env.hasService observation exec.failure = .ok next := by
  unfold refresh at h
  cases hobserved : exec.observed with
  | error failure =>
    rw [hobserved] at h
    cases h
  | ok observation =>
    rw [hobserved] at h
    exact ⟨observation, h⟩

theorem refresh_last (h : e.refresh env exec = .ok next) :
    next.lastPersistenceIdentity.isSome = true := by
  obtain ⟨observation, hreconcile⟩ := refresh_cases h
  rcases reconcile_cases hreconcile with ⟨-, rfl⟩ | ⟨-, rfl⟩
  · rfl
  · rfl

theorem instanceId_refresh (h : e.refresh env exec = .ok next) : next.instanceId = e.instanceId := by
  obtain ⟨observation, hreconcile⟩ := refresh_cases h
  rcases reconcile_cases hreconcile with ⟨-, rfl⟩ | ⟨-, rfl⟩
  · rfl
  · rfl

theorem sound_run (hsound : e.Sound) {answer : Engine → α → Except SearchFailure SessionSearchPage} :
    (e.run env normalized exec answer).1.Sound ∧
      e.Follows (e.run env normalized exec answer).1 := by
  rcases run_cases env e normalized exec with ⟨failure, hrun⟩ | ⟨request, next, -, hrefresh, hrun⟩
  · rw [hrun answer]
    exact ⟨hsound, Follows.refl e⟩
  · obtain ⟨observation, hreconcile⟩ := refresh_cases hrefresh
    rw [hrun answer]
    exact ⟨sound_reconcile hsound hreconcile,
      Nat.le_of_eq (instanceId_refresh hrefresh).symm, fun _ => keeps_reconcile hsound hreconcile⟩

theorem sound_search (env : Environment) (exec : SearchExec) (hsound : e.Sound)
    (request : SearchRequest) :
    (e.search env request exec).1.Sound ∧ e.Follows (e.search env request exec).1 := by
  cases request with
  | sessions request => exact sound_run hsound
  | events request => exact sound_run hsound

theorem sound_reopen (hsound : e.Sound) (kept : Bool) :
    (e.reopen kept).Sound ∧ e.Follows (e.reopen kept) := by
  refine ⟨⟨?_, Stamped.empty _ _⟩, Nat.le_succ _, ?_⟩
  · cases kept with
    | true => exact hsound.persisted
    | false => exact Stamped.empty _ _
  · exact fun heq => absurd heq (Nat.ne_of_lt (Nat.lt_succ_self _))

end Search

end Engine

section Runs

variable {env : Environment} {e : Engine} {log : List Answer}

def Answer.Genuine (env : Environment) (answer : Answer) : Prop :=
  answer = answer.before.answer env answer.request answer.exec

structure Dated (env : Environment) (e : Engine) (log : List Answer) : Prop where
  sound : e.Sound
  genuine : ∀ answer ∈ log, answer.Genuine env ∧ answer.after.Sound
  followed : ∀ answer ∈ log, answer.after.Follows e
  ordered : log.Pairwise fun earlier later => earlier.after.Follows later.after

theorem dated_search (h : Dated env e log) (request : SearchRequest) (exec : SearchExec) :
    Dated env (e.answer env request exec).after (log ++ [e.answer env request exec]) := by
  obtain ⟨hsound, hfollows⟩ := Engine.sound_search env exec h.sound request
  refine ⟨hsound, ?_, ?_, ?_⟩
  · intro answer hmem
    rcases List.mem_append.mp hmem with hmem | hmem
    · exact h.genuine answer hmem
    · rw [List.mem_singleton.mp hmem]
      exact ⟨rfl, hsound⟩
  · intro answer hmem
    rcases List.mem_append.mp hmem with hmem | hmem
    · exact (h.followed answer hmem).trans hfollows
    · rw [List.mem_singleton.mp hmem]
      exact Engine.Follows.refl _
  · refine List.pairwise_append.mpr ⟨h.ordered, List.pairwise_singleton _ _, ?_⟩
    intro earlier hearlier later hlater
    rw [List.mem_singleton.mp hlater]
    exact (h.followed earlier hearlier).trans hfollows

theorem dated_reopen (h : Dated env e log) (kept : Bool) : Dated env (e.reopen kept) log := by
  obtain ⟨hsound, hfollows⟩ := Engine.sound_reopen h.sound kept
  exact ⟨hsound, h.genuine, fun answer hmem => (h.followed answer hmem).trans hfollows, h.ordered⟩

theorem dated_run (run : Searches env e log) : Dated env e log := by
  refine Reaches.invariant run ?_ ?_
  · refine ⟨⟨?_, ?_⟩, ?_, ?_, List.Pairwise.nil⟩
    · exact Stamped.empty _ _
    · exact Stamped.empty _ _
    · exact fun _ h => absurd h List.not_mem_nil
    · exact fun _ h => absurd h List.not_mem_nil
  · intro s t log news a h _ hstep
    cases a with
    | search request exec =>
      cases hstep
      exact dated_search h request exec
    | reopen kept =>
      cases hstep
      rw [List.append_nil]
      exact dated_reopen h kept

end Runs

end DshKernel.SessionQuery
