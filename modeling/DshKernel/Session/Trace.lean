import DshKernel.Session.SurfaceFold

/-!
# The trace validator

Turns and steps are numbered and nested, and a tool result answers a call of its step. An event is
validated against the committed trace; its transition is applied when it commits.
-/

namespace DshKernel.Session

open Js

def TOOL_NOT_STARTED : String := "TOOL_NOT_STARTED"

structure TraceScalars where
  lastSeq : Int
  openTurn : Option Number
  openStep : Option Number
  nextTurn : Nat
  nextStep : Nat
  deriving Repr

structure SessionTrace extends TraceScalars where
  pendingCalls : List String
  deriving Repr

inductive PendingCallsChange where
  | none
  | add (callId : String)
  | delete (callId : String)
  | clear
  deriving DecidableEq, Repr

structure SessionTraceTransition where
  scalars : TraceScalars
  pendingCalls : PendingCallsChange := .none
  deriving Repr

/-- What `fail` is called with. -/
inductive TraceFailure where
  | seqNotIncreasing (seq : Nat) (lastSeq : Int)
  | turnStartWhileOpen (turn openTurn : Number)
  | unexpectedTurn (nextTurn : Nat) (turn : Number)
  | turnEndMismatch (turn : Number) (openTurn : Option Number)
  | turnEndWhileStepOpen (turn openStep : Number)
  | stepStartOutsideTurn (turn : Number) (openTurn : Option Number)
  | stepStartWhileOpen (step openStep : Number)
  | unexpectedStep (nextStep : Nat) (turn step : Number)
  | notTheOpenStep (kind : String) (turn step : Number) (openTurn openStep : Option Number)
  | rewriteOutsideTurn
  | resultWithoutCall (callId : String)
  | outsideTurn (kind : String)
  deriving Repr

namespace TraceFailure

def orNull (render : Number → String) : Option Number → String
  | none => "null"
  | some value => render value

def text (render : Number → String) : TraceFailure → String
  | seqNotIncreasing seq lastSeq => s!"seq must strictly increase: saw {seq} after {lastSeq}"
  | turnStartWhileOpen turn openTurn =>
    s!"turn/start {render turn} while turn {render openTurn} is still open"
  | unexpectedTurn nextTurn turn => s!"turn/start expected turn {nextTurn}, got {render turn}"
  | turnEndMismatch turn openTurn =>
    s!"turn/end {render turn} does not match open turn {orNull render openTurn}"
  | turnEndWhileStepOpen turn openStep =>
    s!"turn/end {render turn} while step {render openStep} is still open"
  | stepStartOutsideTurn turn openTurn =>
    s!"step/start in turn {render turn} but open turn is {orNull render openTurn}"
  | stepStartWhileOpen step openStep =>
    s!"step/start {render step} while step {render openStep} is still open"
  | unexpectedStep nextStep turn step =>
    s!"step/start expected step {nextStep} in turn {render turn}, got {render step}"
  | notTheOpenStep kind turn step openTurn openStep =>
    s!"{kind} names turn {render turn}/step {render step} but open is turn "
      ++ s!"{orNull render openTurn}/step {orNull render openStep}"
  | rewriteOutsideTurn => "tool/result surface replacement appended outside any open turn"
  | resultWithoutCall callId =>
    s!"tool/result for {callId} with no prior tool/call in this step"
  | outsideTurn kind =>
    s!"{kind} appended outside any open turn (core execution events must be turn-enclosed)"

end TraceFailure

/-- `openNumber === value`, where nothing open is `null` -/
def isOpen (openNumber : Option Number) (value : Number) : Bool :=
  openNumber.any fun number => number.strictEq value

def requireOpenStep (trace : SessionTrace) (kind : String) (turn step : Number) :
    Except TraceFailure Unit :=
  if isOpen trace.openTurn turn && isOpen trace.openStep step then .ok ()
  else .error (.notTheOpenStep kind turn step trace.openTurn trace.openStep)

def ToolResultData.isSyntheticNotStarted (data : ToolResultData) : Bool :=
  data.message.block.isError == some true &&
    data.error.any fun failure => failure.code == TOOL_NOT_STARTED

def validateEvent (trace : SessionTrace) (event : SessionEvent) :
    Except TraceFailure SessionTraceTransition :=
  if (event.seq : Int) ≤ trace.lastSeq then .error (.seqNotIncreasing event.seq trace.lastSeq)
  else
    let scalars : TraceScalars := { trace.toTraceScalars with lastSeq := event.seq }
    match event.data with
    | .turnStart turn =>
      match trace.openTurn with
      | some openTurn => .error (.turnStartWhileOpen turn openTurn)
      | none =>
        if !turn.strictEq (.ofNat trace.nextTurn) then
          .error (.unexpectedTurn trace.nextTurn turn)
        else .ok { scalars := { scalars with openTurn := some turn, nextStep := 1 } }
    | .turnEnd turn _ =>
      if !isOpen trace.openTurn turn then .error (.turnEndMismatch turn trace.openTurn)
      else
        match trace.openStep with
        | some openStep => .error (.turnEndWhileStepOpen turn openStep)
        | none =>
          .ok { scalars := { scalars with openTurn := none, nextTurn := trace.nextTurn + 1 } }
    | .stepStart turn step =>
      if !isOpen trace.openTurn turn then .error (.stepStartOutsideTurn turn trace.openTurn)
      else
        match trace.openStep with
        | some openStep => .error (.stepStartWhileOpen step openStep)
        | none =>
          if !step.strictEq (.ofNat trace.nextStep) then
            .error (.unexpectedStep trace.nextStep turn step)
          else .ok { scalars := { scalars with openStep := some step } }
    | .stepEnd turn step =>
      match requireOpenStep trace "step/end" turn step with
      | .error failure => .error failure
      | .ok () =>
        .ok
          { scalars := { scalars with openStep := none, nextStep := trace.nextStep + 1 }
            pendingCalls := .clear }
    | .assistantChunk turn step _ =>
      match requireOpenStep trace "assistant/chunk" turn step with
      | .error failure => .error failure
      | .ok () => .ok { scalars }
    | .assistantMessage data =>
      match requireOpenStep trace "assistant/message" data.turn data.step with
      | .error failure => .error failure
      | .ok () => .ok { scalars }
    | .toolCall data =>
      match requireOpenStep trace "tool/call" data.turn data.step with
      | .error failure => .error failure
      | .ok () => .ok { scalars, pendingCalls := .add data.callId }
    | .toolResult data =>
      -- a content rewrite of an older result is work of the turn, not an answer
      if !event.surfaceOp.any isAppendOp then
        if trace.openTurn.isNone then .error .rewriteOutsideTurn else .ok { scalars }
      else
        match requireOpenStep trace "tool/result" data.turn data.step with
        | .error failure => .error failure
        | .ok () =>
          let callId := data.message.source.callId
          if !trace.pendingCalls.contains callId && !data.isSyntheticNotStarted then
            .error (.resultWithoutCall callId)
          else .ok { scalars, pendingCalls := .delete callId }
    | .requestHeader _ | .requestContext _ =>
      if trace.openTurn.isNone then .error (.outsideTurn event.type) else .ok { scalars }
    | .userMessage _ | .endSeed | .extension _ _ => .ok { scalars }

def PendingCallsChange.apply (pendingCalls : List String) : PendingCallsChange → List String
  | .none => pendingCalls
  | .add callId => pendingCalls.insert callId
  | .delete callId => pendingCalls.filter (· ≠ callId)
  | .clear => []

def applyTransition (trace : SessionTrace) (transition : SessionTraceTransition) :
    SessionTrace where
  toTraceScalars := transition.scalars
  pendingCalls := transition.pendingCalls.apply trace.pendingCalls

def freshTrace : SessionTrace := ⟨⟨-1, none, none, 1, 1⟩, []⟩

/-- The loop of `seedSession` from a trace: every event is validated, then applied. -/
def traceEvents (trace : SessionTrace) : List SessionEvent → Except TraceFailure SessionTrace
  | [] => .ok trace
  | event :: rest =>
    match validateEvent trace event with
    | .error failure => .error failure
    | .ok transition => traceEvents (applyTransition trace transition) rest

def seedSession (events : List SessionEvent) : Except TraceFailure SessionTrace :=
  traceEvents freshTrace events

inductive Traces : List SessionEvent → SessionTrace → Prop where
  | nil : Traces [] freshTrace
  | snoc {log : List SessionEvent} {trace : SessionTrace} {event : SessionEvent}
      {transition : SessionTraceTransition} :
      Traces log trace → validateEvent trace event = .ok transition →
      Traces (log ++ [event]) (applyTransition trace transition)

theorem traceEvents_append (events more : List SessionEvent) (trace : SessionTrace) :
    traceEvents trace (events ++ more) =
      match traceEvents trace events with
      | .error failure => .error failure
      | .ok trace' => traceEvents trace' more := by
  induction events generalizing trace with
  | nil => rfl
  | cons event rest ih =>
    simp only [List.cons_append, traceEvents]
    cases validateEvent trace event with
    | error failure => rfl
    | ok transition => exact ih _

variable {next trace : SessionTrace} {step turn : Number} {kind : String} {event : SessionEvent}
variable {transition : SessionTraceTransition}

theorem Traces.of_traceEvents {log rest : List SessionEvent} {last : SessionTrace}
    (h : Traces log trace) (hrest : traceEvents trace rest = .ok last) :
    Traces (log ++ rest) last := by
  induction rest generalizing log trace with
  | nil =>
    cases hrest
    simpa using h
  | cons event rest ih =>
    simp only [traceEvents] at hrest
    cases hvalid : validateEvent trace event with
    | error failure => simp [hvalid] at hrest
    | ok transition =>
      simp only [hvalid] at hrest
      rw [← List.singleton_append, ← List.append_assoc]
      exact ih (h.snoc hvalid) hrest

theorem seedSession_eq_ok {log : List SessionEvent} :
    seedSession log = .ok trace ↔ Traces log trace := by
  constructor
  · exact fun h => Traces.nil.of_traceEvents h
  · intro h
    induction h with
    | nil => rfl
    | snoc _ hvalid ih =>
      unfold seedSession at ih ⊢
      rw [traceEvents_append, ih]
      simp [traceEvents, hvalid]

theorem requireOpenStep_eq_ok :
    requireOpenStep trace kind turn step = .ok () ↔
      isOpen trace.openTurn turn = true ∧ isOpen trace.openStep step = true := by
  unfold requireOpenStep
  rw [← Bool.and_eq_true]
  cases isOpen trace.openTurn turn && isOpen trace.openStep step with
  | true => simp
  | false => simp

inductive TraceStep (trace : SessionTrace) (event : SessionEvent) : SessionTrace → Prop where
  | turnStart {turn : Number} :
      event.data = .turnStart turn → trace.openTurn = none →
      turn.strictEq (.ofNat trace.nextTurn) = true →
      TraceStep trace event
        { trace with lastSeq := event.seq, openTurn := some turn, nextStep := 1 }
  | turnEnd {turn : Number} {reason : TurnEndReason} :
      event.data = .turnEnd turn reason → isOpen trace.openTurn turn = true →
      trace.openStep = none →
      TraceStep trace event
        { trace with lastSeq := event.seq, openTurn := none, nextTurn := trace.nextTurn + 1 }
  | stepStart {turn step : Number} :
      event.data = .stepStart turn step → isOpen trace.openTurn turn = true →
      trace.openStep = none → step.strictEq (.ofNat trace.nextStep) = true →
      TraceStep trace event { trace with lastSeq := event.seq, openStep := some step }
  | stepEnd {turn step : Number} :
      event.data = .stepEnd turn step → isOpen trace.openTurn turn = true →
      isOpen trace.openStep step = true →
      TraceStep trace event
        { trace with
          lastSeq := event.seq, openStep := none, nextStep := trace.nextStep + 1,
          pendingCalls := [] }
  | assistantChunk {turn step : Number} {chunk : Json} :
      event.data = .assistantChunk turn step chunk → isOpen trace.openTurn turn = true →
      isOpen trace.openStep step = true →
      TraceStep trace event { trace with lastSeq := event.seq }
  | assistantMessage {data : AssistantMessageData} :
      event.data = .assistantMessage data → isOpen trace.openTurn data.turn = true →
      isOpen trace.openStep data.step = true →
      TraceStep trace event { trace with lastSeq := event.seq }
  | toolCall {data : ToolCallData} :
      event.data = .toolCall data → isOpen trace.openTurn data.turn = true →
      isOpen trace.openStep data.step = true →
      TraceStep trace event
        { trace with
          lastSeq := event.seq, pendingCalls := trace.pendingCalls.insert data.callId }
  | rewrite {data : ToolResultData} :
      event.data = .toolResult data → event.surfaceOp.any isAppendOp = false →
      trace.openTurn.isSome = true →
      TraceStep trace event { trace with lastSeq := event.seq }
  | toolResult {data : ToolResultData} :
      event.data = .toolResult data → event.surfaceOp.any isAppendOp = true →
      isOpen trace.openTurn data.turn = true → isOpen trace.openStep data.step = true →
      data.message.source.callId ∈ trace.pendingCalls ∨ data.isSyntheticNotStarted = true →
      TraceStep trace event
        { trace with
          lastSeq := event.seq
          pendingCalls := trace.pendingCalls.filter (· ≠ data.message.source.callId) }
  | request :
      (∃ data, event.data = .requestHeader data) ∨ (∃ data, event.data = .requestContext data) →
      trace.openTurn.isSome = true →
      TraceStep trace event { trace with lastSeq := event.seq }
  | unconstrained :
      (∃ message, event.data = .userMessage message) ∨ event.data = .endSeed ∨
        (∃ type data, event.data = .extension type data) →
      TraceStep trace event { trace with lastSeq := event.seq }

/-- An accepted event moves `lastSeq` up to its own sequence number. -/
theorem lt_seq_of_validateEvent (h : validateEvent trace event = .ok transition) :
    trace.lastSeq < event.seq := by
  unfold validateEvent at h
  by_cases hseq : (event.seq : Int) ≤ trace.lastSeq
  · simp [hseq] at h
  · omega

theorem traceStep_of_requireOpenStep {accepted : SessionTraceTransition}
    (happly : applyTransition trace accepted = next)
    (hstep : isOpen trace.openTurn turn = true → isOpen trace.openStep step = true →
      TraceStep trace event next)
    (h : (match requireOpenStep trace kind turn step with
      | .error failure => .error failure
      | .ok () => .ok accepted) = Except.ok transition) :
    TraceStep trace event (applyTransition trace transition) := by
  cases hopen : requireOpenStep trace kind turn step with
  | error failure => simp [hopen] at h
  | ok =>
    simp only [hopen, Except.ok.injEq] at h
    obtain ⟨hturn, hopenStep⟩ := requireOpenStep_eq_ok.mp hopen
    rw [← h, happly]
    exact hstep hturn hopenStep

/-- What `validateEvent` accepts and `applyTransition` applies is a step of the trace. -/
theorem traceStep_of_validateEvent (h : validateEvent trace event = .ok transition) :
    TraceStep trace event (applyTransition trace transition) := by
  have hlt := lt_seq_of_validateEvent h
  have hseq : ¬ (event.seq : Int) ≤ trace.lastSeq := by omega
  unfold validateEvent at h
  rw [if_neg hseq] at h
  cases hdata : event.data with
  | turnStart turn =>
    cases hopen : trace.openTurn with
    | some openTurn => simp [hdata, hopen] at h
    | none =>
      cases hturn : turn.strictEq (.ofNat trace.nextTurn) with
      | false => simp [hdata, hopen, hturn] at h
      | true =>
        simp only [hdata, hopen, hturn, Bool.not_true, Bool.false_eq_true, if_false,
          Except.ok.injEq] at h
        subst h
        exact .turnStart hdata hopen hturn
  | turnEnd turn reason =>
    cases hopen : isOpen trace.openTurn turn with
    | false => simp [hdata, hopen] at h
    | true =>
      cases hstep : trace.openStep with
      | some openStep => simp [hdata, hopen, hstep] at h
      | none =>
        simp only [hdata, hopen, hstep, Bool.not_true, Bool.false_eq_true, if_false,
          Except.ok.injEq] at h
        subst h
        have hnext := TraceStep.turnEnd hdata hopen hstep
        rwa [hstep] at hnext
  | stepStart turn step =>
    cases hopen : isOpen trace.openTurn turn with
    | false => simp [hdata, hopen] at h
    | true =>
      cases hopenStep : trace.openStep with
      | some openStep => simp [hdata, hopen, hopenStep] at h
      | none =>
        cases hstep : step.strictEq (.ofNat trace.nextStep) with
        | false => simp [hdata, hopen, hopenStep, hstep] at h
        | true =>
          simp only [hdata, hopen, hopenStep, hstep, Bool.not_true, Bool.false_eq_true, if_false,
            Except.ok.injEq] at h
          subst h
          exact .stepStart hdata hopen hopenStep hstep
  | stepEnd turn step =>
    rw [hdata] at h
    exact traceStep_of_requireOpenStep rfl (.stepEnd hdata) h
  | userMessage message =>
    simp only [hdata, Except.ok.injEq] at h
    subst h
    exact .unconstrained (.inl ⟨message, hdata⟩)
  | assistantChunk turn step chunk =>
    rw [hdata] at h
    exact traceStep_of_requireOpenStep rfl (.assistantChunk hdata) h
  | assistantMessage data =>
    rw [hdata] at h
    exact traceStep_of_requireOpenStep rfl (.assistantMessage hdata) h
  | toolCall data =>
    rw [hdata] at h
    exact traceStep_of_requireOpenStep rfl (.toolCall hdata) h
  | toolResult data =>
    cases hop : event.surfaceOp.any isAppendOp with
    | false =>
      cases hopen : trace.openTurn with
      | none => simp [hdata, hop, hopen] at h
      | some openTurn =>
        simp only [hdata, hop, hopen, Bool.not_false, if_true, Option.isNone_some,
          Bool.false_eq_true, if_false, Except.ok.injEq] at h
        subst h
        rw [← hopen]
        exact .rewrite hdata hop (by simp [hopen])
    | true =>
      cases hcall : !trace.pendingCalls.contains data.message.source.callId &&
          !data.isSyntheticNotStarted with
      | true =>
        simp only [hdata, hop, hcall] at h
        cases hstep : requireOpenStep trace "tool/result" data.turn data.step with
        | error failure => simp [hstep] at h
        | ok => simp [hstep] at h
      | false =>
        simp only [hdata, hop, hcall, Bool.not_true, Bool.false_eq_true, if_false] at h
        refine traceStep_of_requireOpenStep rfl (fun hturn hstep => ?_) h
        refine .toolResult hdata hop hturn hstep ?_
        simp only [Bool.and_eq_false_iff, Bool.not_eq_false', List.contains_eq_mem,
          decide_eq_true_eq] at hcall
        exact hcall
  | requestHeader data =>
    cases hopen : trace.openTurn with
    | none => simp [hdata, hopen] at h
    | some openTurn =>
      simp only [hdata, hopen, Option.isNone_some, Bool.false_eq_true, if_false,
        Except.ok.injEq] at h
      subst h
      rw [← hopen]
      exact .request (.inl ⟨data, hdata⟩) (by simp [hopen])
  | requestContext data =>
    cases hopen : trace.openTurn with
    | none => simp [hdata, hopen] at h
    | some openTurn =>
      simp only [hdata, hopen, Option.isNone_some, Bool.false_eq_true, if_false,
        Except.ok.injEq] at h
      subst h
      rw [← hopen]
      exact .request (.inr ⟨data, hdata⟩) (by simp [hopen])
  | endSeed =>
    simp only [hdata, Except.ok.injEq] at h
    subst h
    exact .unconstrained (.inr (.inl hdata))
  | extension type data =>
    simp only [hdata, Except.ok.injEq] at h
    subst h
    exact .unconstrained (.inr (.inr ⟨type, data, hdata⟩))

theorem validateEvent_of_traceStep
    (hlt : trace.lastSeq < event.seq) (h : TraceStep trace event next) :
    ∃ transition, validateEvent trace event = .ok transition ∧
      applyTransition trace transition = next := by
  have hseq : ¬ (event.seq : Int) ≤ trace.lastSeq := by omega
  unfold validateEvent
  simp only [hseq, if_false]
  cases h with
  | turnStart hdata hopen hturn =>
    exact ⟨_, by simp only [hdata, hopen, hturn, Bool.not_true, Bool.false_eq_true, if_false]; rfl,
      rfl⟩
  | turnEnd hdata hopen hstep =>
    simp only [hdata, hopen, hstep]
    exact ⟨_, rfl, by simp [applyTransition, PendingCallsChange.apply]⟩
  | stepStart hdata hopen hopenStep hstep =>
    simp only [hdata, hopen, hopenStep, hstep]
    exact ⟨_, rfl, rfl⟩
  | stepEnd hdata hturn hstep =>
    simp only [hdata, requireOpenStep_eq_ok.mpr ⟨hturn, hstep⟩]
    exact ⟨_, rfl, rfl⟩
  | assistantChunk hdata hturn hstep =>
    simp only [hdata, requireOpenStep_eq_ok.mpr ⟨hturn, hstep⟩]
    exact ⟨_, rfl, rfl⟩
  | assistantMessage hdata hturn hstep =>
    simp only [hdata, requireOpenStep_eq_ok.mpr ⟨hturn, hstep⟩]
    exact ⟨_, rfl, rfl⟩
  | toolCall hdata hturn hstep =>
    simp only [hdata, requireOpenStep_eq_ok.mpr ⟨hturn, hstep⟩]
    exact ⟨_, rfl, rfl⟩
  | rewrite hdata hop hopen =>
    have hnone : trace.openTurn.isNone = false := by simpa using hopen
    simp only [hdata, hop, hnone]
    exact ⟨_, rfl, rfl⟩
  | @toolResult data hdata hop hturn hstep hcall =>
    have hcheck : (!trace.pendingCalls.contains data.message.source.callId &&
        !data.isSyntheticNotStarted) = false := by
      simp only [Bool.and_eq_false_iff, Bool.not_eq_false', List.contains_eq_mem,
        decide_eq_true_eq]
      exact hcall
    simp only [hdata, hop, requireOpenStep_eq_ok.mpr ⟨hturn, hstep⟩, hcheck]
    exact ⟨_, rfl, rfl⟩
  | request hdata hopen =>
    have hnone : trace.openTurn.isNone = false := by simpa using hopen
    rcases hdata with ⟨data, hdata⟩ | ⟨data, hdata⟩
    · simp only [hdata, hnone]
      exact ⟨_, rfl, rfl⟩
    · simp only [hdata, hnone]
      exact ⟨_, rfl, rfl⟩
  | unconstrained hdata =>
    rcases hdata with ⟨message, hdata⟩ | hdata | ⟨type, data, hdata⟩
    · simp only [hdata]
      exact ⟨_, rfl, rfl⟩
    · simp only [hdata]
      exact ⟨_, rfl, rfl⟩
    · simp only [hdata]
      exact ⟨_, rfl, rfl⟩

end DshKernel.Session
