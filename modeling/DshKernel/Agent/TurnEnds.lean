import DshKernel.Agent.RequestRuns
import DshKernel.Lib.History
import Mathlib.Data.List.Induction

/-!
# Turns and what the model has read

When a turn ends as completed or at the token limit, the model has read the tool results of its last
step, unless an earlier step of the turn had hit the limit.
-/

namespace DshKernel.Agent

open Js Lib Session Llm
set_option maxRecDepth 4096

structure TurnTrack where
  limited : Bool := false
  last : Option StepOutcome := none

def TurnTrack.next (track : TurnTrack) : Happening → TurnTrack
  | .turnOpened _ => {}
  | .stepDone outcome => ⟨track.limited || outcome = .maxTokens, some outcome⟩
  | _ => track

def turnTrack (history : List Happening) : TurnTrack := history.foldl TurnTrack.next {}

def TurnTrack.ends (track : TurnTrack) : Option StepEndReason :=
  if track.limited then some .maxTokens else track.last.bind StepOutcome.toStepEnd

def TurnTrack.Overlooked (track : TurnTrack) : Prop :=
  track.limited = true ∧ track.last = some .unread

def isSuccess : TurnEndReason → Bool
  | .completed => true
  | .maxTokens => true
  | _ => false

def EndsRead (before : List Happening) : Happening → Prop
  | .turnClosed reason => isSuccess reason = true → (turnTrack before).last ≠ some .unread
  | _ => True

def TurnsRead (history : List Happening) : Prop := Throughout EndsRead history

def LooksOn (before : List Happening) : Happening → Prop
  | .stopCheck waiting => (turnTrack before).Overlooked → waiting = true
  | .proposed messages => (turnTrack before).Overlooked → messages ≠ some 0
  | _ => True

def NothingOverlooked (history : List Happening) : Prop := Throughout LooksOn history

section Tracks

variable {history : List Happening} {track : TurnTrack}

@[simp] theorem turnTrack_concat (happening : Happening) :
    turnTrack (history ++ [happening]) = (turnTrack history).next happening := by
  simp [turnTrack]

theorem limited_of_maxTokens (h : (turnTrack history).last = some .maxTokens) :
    (turnTrack history).limited = true := by
  induction history using List.reverseRecOn with
  | nil => cases h
  | append_singleton history happening ih =>
    rw [turnTrack_concat] at h ⊢
    cases happening with
    | turnOpened turn => cases h
    | stepDone outcome =>
      obtain rfl : outcome = .maxTokens := Option.some.inj h
      simp [TurnTrack.next]
    | _ => exact ih h

theorem nextTurnEnds_ends (outcome : StepOutcome) :
    nextTurnEnds (turnTrack history).ends outcome.toStepEnd =
      ((turnTrack history).next (.stepDone outcome)).ends := by
  have hmax := @limited_of_maxTokens history
  generalize turnTrack history = track at hmax
  obtain ⟨limited, last⟩ := track
  cases limited with
  | true => simp [nextTurnEnds, TurnTrack.ends, TurnTrack.next]
  | false =>
    have hlast : last.bind StepOutcome.toStepEnd ≠ some .maxTokens := by
      intro h
      obtain ⟨found, rfl, hfound⟩ := Option.bind_eq_some_iff.mp h
      cases found <;> cases hfound
      cases hmax rfl
    simp only [TurnTrack.ends, nextTurnEnds, TurnTrack.next, hlast, if_false, Bool.false_eq_true,
      Bool.false_or, decide_eq_true_eq, Option.bind_some]
    cases outcome <;> rfl

end Tracks

def Stage.Tracks (track : TurnTrack) (vars : TurnVars) : Stage → Prop
  | .through outcome =>
    track.last = some outcome ∧ nextTurnEnds vars.turnEnds outcome.toStepEnd = track.ends
  | .failed => True
  | _ => vars.turnEnds = track.ends

def Control.Tracks (track : TurnTrack) (step : Nat) : Control → Prop
  | .between vars => vars.turnEnds = track.ends ∧ (step = 0 → track.last = none)
  | .proposing vars next =>
    vars.turnEnds = track.ends ∧ (step = 0 → track.last = none) ∧ next ≠ 0
  | .proposed vars next messages =>
    vars.turnEnds = track.ends ∧ (step = 0 → track.last = none) ∧ next ≠ 0 ∧
      (messages = 0 → ¬track.Overlooked)
  | .entering vars next => vars.turnEnds = track.ends ∧ next ≠ 0
  | .stepOpening vars next => vars.turnEnds = track.ends ∧ next ≠ 0
  | .inStep vars _ stage => step ≠ 0 ∧ stage.Tracks track vars
  | .checking vars => step ≠ 0 ∧ vars.turnEnds = track.ends
  | .checked vars waiting =>
    step ≠ 0 ∧ vars.turnEnds = track.ends ∧ (waiting = false → ¬track.Overlooked)
  | .ending _ (some final) => isSuccess final.reason = true → track.last ≠ some .unread
  | .closing reason _ => isSuccess reason = true → track.last ≠ some .unread
  | _ => True

section Invariant

variable {out : Outside} {foreign : Foreign} {init w w' : AgentWorld} {c c' : Control}

variable {reason : StepEndReason} {vars : TurnVars} {stage stage' : Stage} {data : EventData}
variable {sourceEventSeqs surfaceOp : Option Json}

theorem read_of_ends {track : TurnTrack} (hends : track.ends = some reason)
    (hlooks : ¬track.Overlooked) : track.last ≠ some .unread := by
  intro hlast
  cases hlimited : track.limited with
  | true => exact hlooks ⟨hlimited, hlast⟩
  | false => simp [TurnTrack.ends, hlimited, hlast, StepOutcome.toStepEnd] at hends

theorem turnsRead_concat {history : List Happening} {happening : Happening} :
    TurnsRead (history ++ [happening]) ↔ TurnsRead history ∧ EndsRead history happening :=
  throughout_concat

structure ReadSoFar (c : Control) (w : AgentWorld) : Prop where
  tracks : c.Tracks (turnTrack w.history) w.phase.step
  read : TurnsRead w.history

theorem ReadSoFar.congr (h : ReadSoFar c w) (htrack : turnTrack w'.history = turnTrack w.history)
    (hread : TurnsRead w.history → TurnsRead w'.history) (hstep : w'.phase.step = w.phase.step) :
    ReadSoFar c w' := by
  refine ⟨?_, hread h.read⟩
  rw [htrack, hstep]
  exact h.tracks

theorem Noted.read {latched : Bool} {noted : List Happening} (h : Noted w latched noted) :
    turnTrack (w.history ++ noted) = turnTrack w.history ∧
      (TurnsRead w.history → TurnsRead (w.history ++ noted)) := by
  cases h with
  | nothing => simp
  | sent => exact ⟨turnTrack_concat _, fun h => turnsRead_concat.mpr ⟨h, trivial⟩⟩

theorem OthersStep.read (h : OthersStep foreign w w') :
    turnTrack w'.history = turnTrack w.history ∧ (TurnsRead w.history → TurnsRead w'.history) := by
  cases h with
  | latch _ hnoted _ => exact hnoted.read
  | note _ hnoted _ => exact hnoted.read
  | spliced => exact ⟨turnTrack_concat _, fun h => turnsRead_concat.mpr ⟨h, trivial⟩⟩
  | abort => exact ⟨turnTrack_concat _, fun h => turnsRead_concat.mpr ⟨h, trivial⟩⟩
  | cleared => exact ⟨turnTrack_concat _, fun h => turnsRead_concat.mpr ⟨h, trivial⟩⟩
  | settle => exact ⟨turnTrack_concat _, fun h => turnsRead_concat.mpr ⟨h, trivial⟩⟩
  | _ => exact ⟨rfl, id⟩

theorem ToolWrites.read {point point' : ToolPoint} (h : ToolWrites out point w point' w') :
    turnTrack w'.history = turnTrack w.history ∧ (TurnsRead w.history → TurnsRead w'.history) := by
  cases h with
  | launch => exact ⟨turnTrack_concat _, fun h => turnsRead_concat.mpr ⟨h, trivial⟩⟩
  | _ => exact ⟨rfl, id⟩

theorem tracks_stepDone {history : List Happening} (outcome : StepOutcome)
    (htracks : vars.turnEnds = (turnTrack history).ends) :
    (Stage.through outcome).Tracks (turnTrack (history ++ [.stepDone outcome])) vars := by
  rw [turnTrack_concat]
  refine ⟨rfl, ?_⟩
  rw [htracks]
  exact nextTurnEnds_ends outcome

theorem StepWrites.read
    (h : StepWrites out stage w stage' w') (hread : TurnsRead w.history)
    (htracks : stage.Tracks (turnTrack w.history) vars) :
    stage'.Tracks (turnTrack w'.history) vars ∧ TurnsRead w'.history := by
  cases h with
  | requested =>
    refine ⟨?_, turnsRead_concat.mpr ⟨hread, trivial⟩⟩
    rw [turnTrack_concat]
    exact htracks
  | maxTokens => exact ⟨tracks_stepDone .maxTokens htracks, turnsRead_concat.mpr ⟨hread, trivial⟩⟩
  | noCalls => exact ⟨tracks_stepDone .noCalls htracks, turnsRead_concat.mpr ⟨hread, trivial⟩⟩
  | toolsDone => exact ⟨tracks_stepDone _ htracks, turnsRead_concat.mpr ⟨hread, trivial⟩⟩
  | openTools => exact ⟨htracks, hread⟩
  | toolsReturn => exact ⟨htracks, hread⟩
  | toolsFail => exact ⟨trivial, hread⟩
  | tool h =>
    obtain ⟨htrack, hturns⟩ := h.read
    refine ⟨?_, hturns hread⟩
    rw [htrack]
    exact htracks

theorem StepMoves.read {track : TurnTrack}
    (h : StepMoves out w stage stage') (htracks : stage.Tracks track vars) : stage'.Tracks track vars := by
  cases h with
  | failRequest => trivial
  | failDerived => trivial
  | _ => exact htracks

theorem StepLogs.read {turn step seq : Nat} {track : TurnTrack}
    (h : StepLogs out turn step stage data sourceEventSeqs surfaceOp seq stage')
    (htracks : stage.Tracks track vars) : stage'.Tracks track vars := by
  cases h with
  | interrupted => trivial
  | _ => exact htracks

theorem not_isSuccess {reason : TurnEndReason} (h : isFailure reason) : isSuccess reason = false := by
  cases reason <;> first | rfl | cases h

theorem Logs.read {track : TurnTrack} {step seq : Nat}
    (h : Logs out c data sourceEventSeqs surfaceOp seq c') (htracks : c.Tracks track step) :
    c'.Tracks track step := by
  cases h with
  | turnStart => trivial
  | stepStart => exact htracks
  | inStep h => exact ⟨htracks.1, h.read htracks.2⟩
  | stepEnd => exact ⟨htracks.1, htracks.2.2⟩
  | stepFailed => trivial
  | turnEnd => exact htracks
  | turnFailed hreason =>
    intro hsuccess
    cases (not_isSuccess hreason).symm.trans hsuccess

theorem toTurnEnd_read {track : TurnTrack}
    (hends : vars.turnEnds = some reason) (htracks : vars.turnEnds = track.ends)
    (hlooks : ¬track.Overlooked) : track.last ≠ some .unread :=
  read_of_ends (htracks.symm.trans hends) hlooks

theorem Moves.read {track : TurnTrack} (h : Moves out w c c') (htracks : c.Tracks track w.phase.step) :
    c'.Tracks track w.phase.step := by
  cases h with
  | start => trivial
  | propose => exact ⟨htracks.1, htracks.2, Nat.succ_ne_zero _⟩
  | stop hends =>
    obtain ⟨hvars, -, -, hlooks⟩ := htracks
    exact fun _ => toTurnEnd_read hends hvars (hlooks rfl)
  | empty hstep =>
    obtain ⟨-, hlast, -⟩ := htracks
    intro _ h
    rw [hlast hstep] at h
    cases h
  | enter => exact ⟨htracks.1, htracks.2.2.1⟩
  | inStep h => exact ⟨htracks.1, h.read htracks.2⟩
  | stepEndRefused => trivial
  | continues => exact ⟨htracks.2.1, fun hstep => absurd hstep htracks.1⟩
  | stops hends =>
    obtain ⟨-, hvars, hlooks⟩ := htracks
    exact fun _ => toTurnEnd_read hends hvars (hlooks rfl)
  | fail => trivial

theorem Writes.read (h : Writes out c w c' w') (hrunning : w.phase.isRunning = true)
    (hread : ReadSoFar c w) (hlooks : NothingOverlooked w'.history) : ReadSoFar c' w' := by
  obtain ⟨htracks, hread⟩ := hread
  have hquiet : ∀ {happening : Happening}, EndsRead w.history happening →
      TurnsRead (w.history ++ [happening]) := fun h => turnsRead_concat.mpr ⟨hread, h⟩
  cases h with
  | turnOpened =>
    refine ⟨?_, hquiet trivial⟩
    rw [turnTrack_concat]
    exact ⟨rfl, fun _ => rfl⟩
  | rejected => exact ⟨nofun, hquiet trivial⟩
  | proposed =>
    refine ⟨?_, hquiet trivial⟩
    rw [turnTrack_concat]
    have hlast := (throughout_concat.mp hlooks).2
    refine ⟨htracks.1, htracks.2.1, htracks.2.2, ?_⟩
    rintro rfl hoverlooked
    exact hlast hoverlooked rfl
  | stepOpened =>
    refine ⟨?_, hread⟩
    obtain ⟨hvars, hstep⟩ := htracks
    rw [step_setStep hrunning]
    exact ⟨hstep, hvars⟩
  | inStep h =>
    obtain ⟨hstage, hturns⟩ := h.read hread htracks.2
    refine ⟨⟨?_, hstage⟩, hturns⟩
    rw [h.phase]
    exact htracks.1
  | stopCheck =>
    refine ⟨?_, hquiet trivial⟩
    rw [turnTrack_concat]
    have hlast := (throughout_concat.mp hlooks).2
    refine ⟨htracks.1, htracks.2, ?_⟩
    intro hwaiting hoverlooked
    cases hwaiting.symm.trans (hlast hoverlooked)
  | turnClosed => exact ⟨trivial, hquiet htracks⟩
  | _ => exact ⟨trivial, hquiet trivial⟩

theorem PhaseStep.read (h : PhaseStep c w c' w') (hread : ReadSoFar c w) : ReadSoFar c' w' := by
  cases h with
  | @wake _ _ _ noted _ hnoted =>
    have hwoken : TurnsRead (w.history ++ [.woken]) := turnsRead_concat.mpr ⟨hread.read, trivial⟩
    refine ⟨trivial, ?_⟩
    cases hnoted with
    | nothing => exact hwoken
    | sent =>
      show TurnsRead (w.history ++ ([.woken] ++ [_]))
      rw [← List.append_assoc]
      exact turnsRead_concat.mpr ⟨hwoken, trivial⟩
  | maintain => exact ⟨trivial, hread.read⟩
  | maintained => exact ⟨trivial, turnsRead_concat.mpr ⟨hread.read, trivial⟩⟩
  | undue => exact ⟨trivial, hread.read⟩
  | delivered => exact ⟨trivial, hread.read⟩

theorem AgentStep.read (h : AgentStep out foreign c w c' w') (hruns : AgentRuns out foreign init c w)
    (hread : ReadSoFar c w) (hlooks : NothingOverlooked w'.history) : ReadSoFar c' w' := by
  cases h with
  | others h => exact hread.congr h.read.1 h.read.2 h.phase.2.2.2.2
  | phase h => exact h.read hread
  | moves h => exact ⟨h.read hread.tracks, hread.read⟩
  | logs _ h => exact ⟨h.read hread.tracks, hread.read⟩
  | writes h => exact h.read (hruns.isRunning h.isDriver) hread hlooks

theorem AgentRuns.read (h : AgentRuns out foreign init c w) (hinit : init.history = [])
    (hlooks : NothingOverlooked w.history) : ReadSoFar c w := by
  refine h.invariant (fun c w => NothingOverlooked w.history → ReadSoFar c w) ?_ ?_ hlooks
  · intro _ _
    refine ⟨trivial, ?_⟩
    rw [hinit]
    exact throughout_nil
  · intro c w c' w' hruns hread hstep hlooks
    exact hstep.read hruns (hread (hlooks.of_isPrefix hstep.grows.1)) hlooks

end Invariant

/-- When nothing unread is overlooked, a turn that ends well was read to its end. -/
theorem turns_end_read {out : Outside} {foreign : Foreign} {log : List SessionEvent} {inbox : Inbox}
    {lastTurn : Nat} {s : AgentState}
    (h : LoopReaches (agentLoop out foreign) ⟨initialWorld log inbox lastTurn, [], []⟩ s)
    (hlooks : NothingOverlooked s.world.history) : TurnsRead s.world.history := by
  obtain ⟨c, hruns⟩ := agentLoop_refines rfl rfl h
  exact (hruns.read rfl hlooks).read

section Steered

variable {before history : List Happening} {happening : Happening}

instance : Decidable (EndsRead before happening) :=
  match happening with
  | .turnClosed reason =>
    inferInstanceAs (Decidable (isSuccess reason = true → (turnTrack before).last ≠ some .unread))
  | .sent _ _ | .woken | .withdrawn _ | .cleared | .aborted _ | .settled | .turnExit _ | .turnOpened _
  | .proposed _ | .requested _ | .dispatched _ _ | .bodySettled _ | .stepDone _ | .stopCheck _ =>
    .isTrue trivial

instance (track : TurnTrack) : Decidable track.Overlooked := inferInstanceAs (Decidable (_ ∧ _))

instance : Decidable (LooksOn before happening) :=
  match happening with
  | .stopCheck waiting =>
    inferInstanceAs (Decidable ((turnTrack before).Overlooked → waiting = true))
  | .proposed messages =>
    inferInstanceAs (Decidable ((turnTrack before).Overlooked → messages ≠ some 0))
  | .sent _ _ | .woken | .withdrawn _ | .cleared | .aborted _ | .settled | .turnExit _ | .turnOpened _
  | .requested _ | .dispatched _ _ | .bodySettled _ | .stepDone _ | .turnClosed _ => .isTrue trivial

instance : Decidable (TurnsRead history) := inferInstanceAs (Decidable (Throughout _ _))

instance : Decidable (NothingOverlooked history) := inferInstanceAs (Decidable (Throughout _ _))

def limitedThenCalling : Nat → Option StreamChunk
  | 20 => some (.finish .maxTokens none)
  | 43 => some (.blockEnd 0 (.toolCall "call" "tool" "{}"))
  | 45 => some (.finish .toolCalls none)
  | _ => none

abbrev steeredOutside : Outside := plainOutside limitedThenCalling

def firstStep : AgentState := enterFor steeredOutside (sendText "start" .nextTurn) 143 fresh

def secondStep : AgentState := enterFor steeredOutside (sendText "steer" .nextStep) 300 firstStep

theorem reaches_secondStep : LoopReaches (agentLoop steeredOutside isForeign) fresh secondStep := by
  have hfirst : LoopReaches (agentLoop steeredOutside isForeign) fresh firstStep :=
    reaches_enterFor (.refl _) rfl _ (isEnabled_sendText _ _ _) 143
  exact reaches_enterFor hfirst (by decide) _ (isEnabled_sendText _ _ _) 300

/-- The turn ends at the limit of its first step, with the result of its second one unread. -/
theorem turn_ends_unread :
    ∃ s : AgentState, LoopReaches (agentLoop (plainOutside limitedThenCalling) isForeign)
      ⟨initialWorld [] {} 0, [], []⟩ s ∧ ¬TurnsRead s.world.history := by
  refine ⟨enterFor steeredOutside (bodyReturns 0) 300 secondStep, ?_, by decide⟩
  exact reaches_enterFor reaches_secondStep (by decide) _
    (isEnabled_bodyReturns (by decide) (by decide)) 300

def steeredAgain : AgentState := enterFor steeredOutside (sendText "again" .nextStep) 60 secondStep

/-- When steering arrives before the tool is through, its result is read. -/
theorem turn_ends_read_steered :
    ∃ s : AgentState, LoopReaches (agentLoop (plainOutside limitedThenCalling) isForeign)
      ⟨initialWorld [] {} 0, [], []⟩ s ∧ s.stack = [] ∧ s.tasks = [] ∧ TurnsRead s.world.history := by
  have hwaiting : LoopReaches (agentLoop steeredOutside isForeign) fresh steeredAgain :=
    reaches_enterFor reaches_secondStep (by decide) _ (isEnabled_sendText _ _ _) 60
  have hrun := reaches_enterFor hwaiting (by decide) (bodyReturns 0)
    (isEnabled_bodyReturns (by decide) (by decide)) 500
  exact ⟨_, hrun, by decide, by decide, turns_end_read hrun (by decide)⟩

end Steered

end DshKernel.Agent
