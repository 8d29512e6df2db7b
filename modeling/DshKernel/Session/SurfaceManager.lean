import DshKernel.Session.SurfaceFold

/-!
# The incremental surface

`SurfaceManager` follows a log that others append to, and keeps the plan of the last validated
candidate for the case that exactly this candidate enters the log next. Objects have identities,
since `===` decides whether the plan is used.
-/

namespace DshKernel.Session

open Js List

/-- An event object: what `===` compares, and what it holds. Events are frozen. -/
structure EventObject where
  ref : Nat
  event : SessionEvent
  deriving Repr

structure PendingPlan where
  object : EventObject
  expectedSeq : Nat
  plan : Option SurfacePlan
  deriving Repr

/-- `nextSeq` is one past `_lastProcessedSeq`, so that the source's `-1` is `0`. -/
structure SurfaceManager where
  baseSeq : Nat
  state : SurfaceFoldState
  nextSeq : Nat
  pendingPlan : Option PendingPlan
  deriving Repr

namespace SurfaceManager

def create (baseSeq : Nat) : SurfaceManager := ⟨baseSeq, createFoldState, baseSeq, none⟩

def events (log : List EventObject) : List SessionEvent := log.map EventObject.event

def pendingFor (manager : SurfaceManager) (object : EventObject) : Option PendingPlan :=
  manager.pendingPlan.filter fun pending =>
    pending.object.ref == object.ref && pending.expectedSeq == manager.nextSeq

/-- The state after the event at `nextSeq`. -/
def foldNext (log : List EventObject) (manager : SurfaceManager) (object : EventObject) :
    Except String SurfaceFoldState :=
  match manager.pendingFor object with
  | some pending => .ok (applySurfacePlan manager.state pending.plan).1
  | none =>
    match SessionSeq manager.nextSeq with
    | .error message => .error message
    | .ok seq =>
      match applySurfaceEvent manager.state object.event seq (events log) manager.baseSeq with
      | .error message => .error message
      | .ok (state, _) => .ok state

/-- The loop of `_processDelta` over the events it has not folded; a throw leaves the
manager where it was at the offending event. -/
def processDeltaLoop (log : List EventObject) :
    List EventObject → SurfaceManager → Except String Unit × SurfaceManager
  | [], manager => (.ok (), manager)
  | object :: rest, manager =>
    match foldNext log manager object with
    | .error message => (.error message, manager)
    | .ok state =>
      processDeltaLoop log rest
        { manager with
          state
          nextSeq := manager.nextSeq + 1
          pendingPlan := manager.pendingPlan.filter
            fun pending => decide (manager.nextSeq < pending.expectedSeq) }

def processDelta (log : List EventObject) (manager : SurfaceManager) :
    Except String Unit × SurfaceManager :=
  processDeltaLoop log (log.drop (manager.nextSeq - manager.baseSeq)) manager

def validateNext (log : List EventObject) (manager : SurfaceManager) (object : EventObject) :
    Except String Unit × SurfaceManager :=
  match processDelta log manager with
  | (.error message, manager) => (.error message, manager)
  | (.ok (), manager) =>
    match SessionSeq (manager.baseSeq + log.length) with
    | .error message => (.error message, manager)
    | .ok expectedSeq =>
      match planSurfaceEvent manager.state object.event expectedSeq (events log)
          manager.baseSeq with
      | .error message => (.error message, manager)
      | .ok plan => (.ok (), { manager with pendingPlan := some ⟨object, expectedSeq, plan⟩ })

def readReplaceGeneration (log : List EventObject) (manager : SurfaceManager) :
    Except String Nat × SurfaceManager :=
  match processDelta log manager with
  | (.error message, manager) => (.error message, manager)
  | (.ok (), manager) => (.ok manager.state.replaceGeneration, manager)

def readNodes (log : List EventObject) (manager : SurfaceManager) :
    Except String (List Nat) × SurfaceManager :=
  match processDelta log manager with
  | (.error message, manager) => (.error message, manager)
  | (.ok (), manager) => (.ok manager.state.nodes, manager)

/-- The manager is on a log of which it has folded a prefix, and the plan it keeps is the
plan of its candidate at the position it names. -/
structure Tracks (heap : Nat → SessionEvent) (log : List EventObject)
    (manager : SurfaceManager) : Prop where
  objects : ∀ object ∈ log, object.event = heap object.ref
  base : manager.baseSeq = 0
  accepted : ∃ state replacements, Folds (events log) state replacements
  behind : manager.nextSeq ≤ log.length
  folded : ∃ replacements, Folds ((events log).take manager.nextSeq) manager.state replacements
  pending : ∀ pending ∈ manager.pendingPlan,
    pending.object.event = heap pending.object.ref ∧ pending.expectedSeq ≤ log.length ∧
      ∃ state replacements, Folds ((events log).take pending.expectedSeq) state replacements ∧
        planSurfaceEvent state pending.object.event pending.expectedSeq
          ((events log).take pending.expectedSeq) 0 = .ok pending.plan

variable {heap : Nat → SessionEvent} {log : List EventObject} {manager : SurfaceManager}

@[simp] theorem events_length (log : List EventObject) : (events log).length = log.length := by
  simp [events]

@[simp] theorem events_append (log more : List EventObject) :
    events (log ++ more) = events log ++ events more := by
  simp [events]

theorem tracks_create (heap : Nat → SessionEvent) : Tracks heap [] (create 0) where
  objects := by simp
  base := rfl
  accepted := ⟨_, _, Folds.nil⟩
  behind := Nat.le_refl 0
  folded := ⟨_, Folds.nil⟩
  pending := by simp [create]

theorem foldNext_eq (h : Tracks heap log manager) (hn : manager.nextSeq < log.length) :
    ∃ state, foldNext log manager log[manager.nextSeq] = .ok state ∧
      ∃ replacements, Folds ((events log).take (manager.nextSeq + 1)) state replacements := by
  obtain ⟨accepted, _, haccepted⟩ := h.accepted
  obtain ⟨_, hfolded⟩ := h.folded
  have hn' : manager.nextSeq < (events log).length := by simpa using hn
  obtain ⟨hle, plan, hplan, hnext⟩ := haccepted.getElem_plan hn' hfolded
  have hevent : (events log)[manager.nextSeq] = log[manager.nextSeq].event := by simp [events]
  rw [hevent] at hplan
  refine ⟨(applySurfacePlan manager.state plan).1, ?_, _, hnext⟩
  unfold foldNext
  cases hpending : manager.pendingFor log[manager.nextSeq] with
  | some pending =>
    obtain ⟨hmem, hmatch⟩ := Option.filter_eq_some_iff.mp hpending
    simp only [Bool.and_eq_true, beq_iff_eq] at hmatch
    obtain ⟨href, hseq⟩ := hmatch
    obtain ⟨hobject, -, state', _, hfold', hplan'⟩ := h.pending pending hmem
    have hsame : pending.object.event = log[manager.nextSeq].event := by
      rw [hobject, href, h.objects _ (getElem_mem hn)]
    rw [hseq] at hfold' hplan'
    obtain ⟨rfl, -⟩ := hfolded.unique hfold'
    rw [hsame, hplan] at hplan'
    cases hplan'
    rfl
  | none =>
    have hsplit : (events log).take manager.nextSeq ++ (events log).drop manager.nextSeq =
        events log := take_append_drop _ _
    have hnodes : ∀ seq ∈ manager.state.nodes,
        seq < 0 + ((events log).take manager.nextSeq).length := by
      simpa using hfolded.nodes_lt
    rw [← planSurfaceEvent_append ((events log).drop manager.nextSeq) hnodes, hsplit] at hplan
    simp [SessionSeq, hle, applySurfaceEvent, h.base, hplan]

variable {replacements : List SurfaceFoldReplacement} {state : SurfaceFoldState}
variable {object : EventObject}

/-- One turn of `_processDelta` keeps the manager on the log, one event further. -/
theorem tracks_foldNext (h : Tracks heap log manager) (hn : manager.nextSeq < log.length)
    (hfold : Folds ((events log).take (manager.nextSeq + 1)) state replacements) :
    Tracks heap log { manager with
      state
      nextSeq := manager.nextSeq + 1
      pendingPlan := manager.pendingPlan.filter
        fun pending => decide (manager.nextSeq < pending.expectedSeq) } where
  objects := h.objects
  base := h.base
  accepted := h.accepted
  behind := hn
  folded := ⟨_, hfold⟩
  pending := by
    intro pending hmem
    exact h.pending pending (Option.filter_eq_some_iff.mp hmem).1

theorem processDeltaLoop_tracks (log : List EventObject) :
    ∀ (rest : List EventObject) (manager : SurfaceManager), Tracks heap log manager →
      rest = log.drop manager.nextSeq →
      (processDeltaLoop log rest manager).1 = .ok () ∧
        Tracks heap log (processDeltaLoop log rest manager).2 ∧
        (processDeltaLoop log rest manager).2.nextSeq = log.length := by
  intro rest
  induction rest with
  | nil =>
    intro manager h hrest
    have hlen := congrArg length hrest
    simp only [length_nil, length_drop] at hlen
    have hbehind := h.behind
    exact ⟨rfl, h, by simp only [processDeltaLoop]; omega⟩
  | cons object rest ih =>
    intro manager h hrest
    have hlen := congrArg length hrest
    simp only [length_cons, length_drop] at hlen
    have hn : manager.nextSeq < log.length := by omega
    rw [drop_eq_getElem_cons hn] at hrest
    obtain ⟨hobject, htail⟩ := cons.inj hrest
    subst hobject
    obtain ⟨state, hnext, replacements, hfold⟩ := foldNext_eq h hn
    simp only [processDeltaLoop, hnext]
    exact ih _ (tracks_foldNext h hn hfold) htail

theorem processDelta_tracks (h : Tracks heap log manager) :
    (processDelta log manager).1 = .ok () ∧ Tracks heap log (processDelta log manager).2 ∧
      (processDelta log manager).2.nextSeq = log.length := by
  unfold processDelta
  rw [h.base, Nat.sub_zero]
  exact processDeltaLoop_tracks log _ manager h rfl

theorem Tracks.folds (h : Tracks heap log manager) (hn : manager.nextSeq = log.length) :
    ∃ replacements, Folds (events log) manager.state replacements := by
  obtain ⟨replacements, hfold⟩ := h.folded
  rw [hn, take_of_length_le (by simp)] at hfold
  exact ⟨replacements, hfold⟩

theorem readNodes_eq (h : Tracks heap log manager) (hfold : Folds (events log) state replacements) :
    (readNodes log manager).1 = .ok state.nodes := by
  obtain ⟨hok, htracks, hn⟩ := processDelta_tracks h
  obtain ⟨_, hcaught⟩ := htracks.folds hn
  obtain ⟨hstate, -⟩ := hfold.unique hcaught
  unfold readNodes
  rw [show processDelta log manager = (.ok (), (processDelta log manager).2) from
    Prod.ext hok rfl, ← hstate]

theorem readReplaceGeneration_eq (h : Tracks heap log manager)
    (hfold : Folds (events log) state replacements) :
    (readReplaceGeneration log manager).1 = .ok state.replaceGeneration := by
  obtain ⟨hok, htracks, hn⟩ := processDelta_tracks h
  obtain ⟨_, hcaught⟩ := htracks.folds hn
  obtain ⟨hstate, -⟩ := hfold.unique hcaught
  unfold readReplaceGeneration
  rw [show processDelta log manager = (.ok (), (processDelta log manager).2) from
    Prod.ext hok rfl, ← hstate]

theorem readNodes_tracks (h : Tracks heap log manager) :
    Tracks heap log (readNodes log manager).2 := by
  obtain ⟨hok, htracks, -⟩ := processDelta_tracks h
  unfold readNodes
  rw [show processDelta log manager = (.ok (), (processDelta log manager).2) from
    Prod.ext hok rfl]
  exact htracks

theorem readReplaceGeneration_tracks (h : Tracks heap log manager) :
    Tracks heap log (readReplaceGeneration log manager).2 := by
  obtain ⟨hok, htracks, -⟩ := processDelta_tracks h
  unfold readReplaceGeneration
  rw [show processDelta log manager = (.ok (), (processDelta log manager).2) from
    Prod.ext hok rfl]
  exact htracks

/-- `validateNext` makes the step of the fold, and throws its error. -/
theorem validateNext_eq (h : Tracks heap log manager)
    (hfold : Folds (events log) state replacements) (object : EventObject) :
    (validateNext log manager object).1 =
      match foldSurfaceStep (events log) object.event state with
      | .error message => .error message
      | .ok _ => .ok () := by
  obtain ⟨hok, htracks, hn⟩ := processDelta_tracks h
  obtain ⟨_, hcaught⟩ := htracks.folds hn
  obtain ⟨hstate, -⟩ := hfold.unique hcaught
  unfold validateNext foldSurfaceStep
  rw [show processDelta log manager = (.ok (), (processDelta log manager).2) from
    Prod.ext hok rfl]
  simp only [htracks.base, hstate, events_length, Nat.zero_add]
  cases SessionSeq log.length with
  | error message => rfl
  | ok expectedSeq =>
    simp only
    cases planSurfaceEvent state object.event expectedSeq (events log) 0 with
    | error message => rfl
    | ok plan => rfl

theorem validateNext_tracks (h : Tracks heap log manager)
    (hobject : object.event = heap object.ref) :
    Tracks heap log (validateNext log manager object).2 := by
  obtain ⟨hok, htracks, hn⟩ := processDelta_tracks h
  obtain ⟨replacements, hfold⟩ := htracks.folds hn
  unfold validateNext
  rw [show processDelta log manager = (.ok (), (processDelta log manager).2) from
    Prod.ext hok rfl]
  simp only [htracks.base, Nat.zero_add]
  by_cases hle : log.length ≤ maxSafeInteger
  · simp only [SessionSeq, hle, if_true]
    cases hplan : planSurfaceEvent (processDelta log manager).2.state object.event log.length
        (events log) 0 with
    | error message => exact htracks
    | ok plan =>
      refine ⟨htracks.objects, rfl, htracks.accepted, htracks.behind, htracks.folded, ?_⟩
      intro pending hpending
      cases hpending
      have hall : (events log).take log.length = events log :=
        take_of_length_le (by simp)
      exact ⟨hobject, Nat.le_refl _, _, replacements, by rwa [hall], by rwa [hall]⟩
  · simp only [SessionSeq, hle, if_false]
    exact htracks

theorem tracks_push (h : Tracks heap log manager) (hobject : object.event = heap object.ref)
    (hnext : ∃ state replacements,
      Folds (events (log ++ [object])) state replacements) :
    Tracks heap (log ++ [object]) manager where
  objects := by
    intro other hother
    rcases mem_append.mp hother with hother | hother
    · exact h.objects other hother
    · rw [mem_singleton.mp hother]
      exact hobject
  base := h.base
  accepted := hnext
  behind := by
    have hbehind := h.behind
    rw [length_append]
    omega
  folded := by
    have hbehind := h.behind
    rw [events_append, take_append_of_le_length (by simpa using hbehind)]
    exact h.folded
  pending := by
    intro pending hpending
    obtain ⟨hevent, hseq, hplan⟩ := h.pending pending hpending
    rw [events_append, take_append_of_le_length (by simpa using hseq)]
    exact ⟨hevent, by rw [length_append]; omega, hplan⟩

end SurfaceManager

open SurfaceManager

/-- A log, its manager, and the candidate of the `append` whose publication boundary is open. -/
structure SurfaceLog where
  log : List EventObject
  manager : SurfaceManager
  appending : Option EventObject
  deriving Repr

/-- What can happen to the log. Between `beginAppend` and its `publish` or `veto` the
dispatch of the event runs, and with it any read. -/
inductive SurfaceCall where
  | validateNext (ref : Nat)
  | beginAppend (ref : Nat)
  | publish
  | veto
  | readNodes
  | readReplaceGeneration
  deriving DecidableEq, Repr

namespace SurfaceLog

def create : SurfaceLog := ⟨[], SurfaceManager.create 0, none⟩

def step (heap : Nat → SessionEvent) (s : SurfaceLog) : SurfaceCall → SurfaceLog
  | .validateNext ref => { s with manager := (validateNext s.log s.manager ⟨ref, heap ref⟩).2 }
  | .beginAppend ref =>
    -- an append cannot reenter while another one is being published
    if s.appending.isSome then s
    else
      match validateNext s.log s.manager ⟨ref, heap ref⟩ with
      | (.error _, manager) => { s with manager }
      | (.ok (), manager) => { s with manager, appending := some ⟨ref, heap ref⟩ }
  | .publish => { s with log := s.log ++ s.appending.toList, appending := none }
  | .veto => { s with appending := none }
  | .readNodes => { s with manager := (readNodes s.log s.manager).2 }
  | .readReplaceGeneration => { s with manager := (readReplaceGeneration s.log s.manager).2 }

def run (heap : Nat → SessionEvent) (calls : List SurfaceCall) : SurfaceLog :=
  calls.foldl (step heap) create

structure Consistent (heap : Nat → SessionEvent) (s : SurfaceLog) : Prop where
  tracks : Tracks heap s.log s.manager
  appending : ∀ object ∈ s.appending, object.event = heap object.ref ∧
    ∃ state replacements, Folds (events (s.log ++ [object])) state replacements

variable {heap : Nat → SessionEvent} {s : SurfaceLog}

theorem consistent_create (heap : Nat → SessionEvent) : Consistent heap create where
  tracks := tracks_create heap
  appending := by simp [create]

/-- What `validateNext` accepts can be pushed. -/
theorem folds_of_validateNext (h : Tracks heap s.log s.manager) {object : EventObject}
    (hok : (validateNext s.log s.manager object).1 = .ok ()) :
    ∃ state replacements, Folds (events (s.log ++ [object])) state replacements := by
  obtain ⟨state, replacements, hfold⟩ := h.accepted
  rw [validateNext_eq h hfold] at hok
  cases hstep : foldSurfaceStep (events s.log) object.event state with
  | error message => simp [hstep] at hok
  | ok plan =>
    obtain ⟨hle, hplan⟩ := foldSurfaceStep_eq_ok.mp hstep
    rw [events_append]
    exact ⟨_, _, hfold.snoc hle hplan⟩

theorem consistent_step (h : Consistent heap s) (call : SurfaceCall) :
    Consistent heap (step heap s call) := by
  cases call with
  | validateNext ref => exact ⟨validateNext_tracks h.tracks rfl, h.appending⟩
  | beginAppend ref =>
    by_cases happending : s.appending.isSome
    · simpa only [step, happending, if_true] using h
    · have htracks : Tracks heap s.log (validateNext s.log s.manager ⟨ref, heap ref⟩).2 :=
        validateNext_tracks h.tracks rfl
      have hpush : (validateNext s.log s.manager ⟨ref, heap ref⟩).1 = .ok () →
          ∃ state replacements, Folds (events (s.log ++ [⟨ref, heap ref⟩])) state replacements :=
        folds_of_validateNext h.tracks
      simp only [step, happending]
      revert htracks hpush
      rcases validateNext s.log s.manager ⟨ref, heap ref⟩ with ⟨message | ⟨⟩, manager⟩
      · intro htracks _
        exact ⟨htracks, h.appending⟩
      · intro htracks hpush
        refine ⟨htracks, ?_⟩
        intro object hobject
        cases hobject
        exact ⟨rfl, hpush rfl⟩
  | publish =>
    refine ⟨?_, by simp [step]⟩
    cases happending : s.appending with
    | none => simpa [step, happending] using h.tracks
    | some object =>
      obtain ⟨hobject, hnext⟩ := h.appending object happending
      simpa [step, happending] using tracks_push h.tracks hobject hnext
  | veto => exact ⟨h.tracks, by simp [step]⟩
  | readNodes => exact ⟨readNodes_tracks h.tracks, h.appending⟩
  | readReplaceGeneration => exact ⟨readReplaceGeneration_tracks h.tracks, h.appending⟩

theorem consistent_run (heap : Nat → SessionEvent) (calls : List SurfaceCall) :
    Consistent heap (run heap calls) := by
  have hrun : ∀ (calls : List SurfaceCall) (s : SurfaceLog), Consistent heap s →
      Consistent heap (calls.foldl (step heap) s) := by
    intro calls
    induction calls with
    | nil => exact fun s h => h
    | cons call rest ih => exact fun s h => ih _ (consistent_step h call)
  exact hrun calls create (consistent_create heap)

theorem Consistent.reads (h : Consistent heap s) :
    ∃ result, foldSurface (events s.log) = .ok result ∧
      (readNodes s.log s.manager).1 = .ok result.nodes ∧
      (readReplaceGeneration s.log s.manager).1 =
        .ok ((events s.log).filter isReplacementSurfaceEvent).length := by
  obtain ⟨state, replacements, hfold⟩ := h.tracks.accepted
  obtain ⟨hgeneration, hcount⟩ := hfold.replaceGeneration_eq
  refine ⟨_, hfold.foldSurface_eq, readNodes_eq h.tracks hfold, ?_⟩
  rw [readReplaceGeneration_eq h.tracks hfold, hgeneration, hcount]

theorem Consistent.validateNext_error (h : Consistent heap s) (object : EventObject)
    (message : String) :
    (validateNext s.log s.manager object).1 = .error message ↔
      foldSurface (events s.log ++ [object.event]) = .error message := by
  obtain ⟨state, replacements, hfold⟩ := h.tracks.accepted
  rw [validateNext_eq h.tracks hfold, hfold.foldSurface_snoc]
  cases foldSurfaceStep (events s.log) object.event state with
  | error message' => simp
  | ok plan => simp

/-- Whatever happens to a log, the incremental surface is the full fold of it. A candidate is
refused when the full fold refuses it, and validating it changes neither the log nor a read. -/
theorem incremental_eq_foldSurface (heap : Nat → SessionEvent) (calls : List SurfaceCall) :
    ∃ result, foldSurface (events (run heap calls).log) = .ok result ∧
      (readNodes (run heap calls).log (run heap calls).manager).1 = .ok result.nodes ∧
      (readReplaceGeneration (run heap calls).log (run heap calls).manager).1 =
        .ok ((events (run heap calls).log).filter isReplacementSurfaceEvent).length ∧
      ∀ ref,
        (∀ message,
          (validateNext (run heap calls).log (run heap calls).manager ⟨ref, heap ref⟩).1 =
              .error message ↔
            foldSurface (events (run heap calls).log ++ [heap ref]) = .error message) ∧
        (run heap (calls ++ [.validateNext ref])).log = (run heap calls).log ∧
        (readNodes (run heap (calls ++ [.validateNext ref])).log
          (run heap (calls ++ [.validateNext ref])).manager).1 = .ok result.nodes ∧
        (readReplaceGeneration (run heap (calls ++ [.validateNext ref])).log
            (run heap (calls ++ [.validateNext ref])).manager).1 =
          .ok ((events (run heap calls).log).filter isReplacementSurfaceEvent).length := by
  have h := consistent_run heap calls
  obtain ⟨result, hresult, hnodes, hgeneration⟩ := h.reads
  refine ⟨result, hresult, hnodes, hgeneration, ?_⟩
  intro ref
  have hlog : (run heap (calls ++ [.validateNext ref])).log = (run heap calls).log := by
    simp [run, step]
  obtain ⟨result', hresult', hnodes', hgeneration'⟩ :=
    (consistent_run heap (calls ++ [.validateNext ref])).reads
  rw [hlog] at hresult' hnodes' hgeneration' ⊢
  rw [hresult] at hresult'
  cases hresult'
  exact ⟨h.validateNext_error ⟨ref, heap ref⟩, rfl, hnodes', hgeneration'⟩

end SurfaceLog

end DshKernel.Session
