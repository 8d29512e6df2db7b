import DshKernel.Agent.RequestRuns
import DshKernel.Session.RepairedLog

/-!
# The traces of an agent

What an agent appends is accepted by the trace validator, as long as the ends of its steps and turns
are not refused and the calls of one message have identities of their own.
-/

namespace DshKernel.Agent

open Js Lib Session Llm
set_option maxRecDepth 4096

def loggedCalls (event : SessionEvent) : List ToolCallBlock :=
  match event.data with
  | .assistantMessage data => toolCallsOf data.message.content
  | _ => []

def DistinctCalls (start : Nat) (log : List SessionEvent) : Prop :=
  ∀ event ∈ log, start ≤ event.seq → ((loggedCalls event).map ToolCallBlock.id).Nodup

section Boundaries

variable {log : List SessionEvent} {trace next : SessionTrace} {event : SessionEvent} {turn step : Nat}

structure Closed (trace : SessionTrace) (lastTurn : Nat) : Prop where
  openTurn : trace.openTurn = none
  openStep : trace.openStep = none
  nextTurn : trace.nextTurn = lastTurn + 1

structure InTurn (trace : SessionTrace) (turn nextStep : Nat) : Prop where
  openTurn : trace.openTurn = some (.ofNat turn)
  openStep : trace.openStep = none
  nextTurn : trace.nextTurn = turn
  nextStep : trace.nextStep = nextStep

structure InStep (trace : SessionTrace) (turn step : Nat) : Prop where
  openTurn : trace.openTurn = some (.ofNat turn)
  openStep : trace.openStep = some (.ofNat step)
  nextTurn : trace.nextTurn = turn
  nextStep : trace.nextStep = step

theorem isOpen_ofNat {openNumber : Option Number} {n : Nat} (h : openNumber = some (.ofNat n)) :
    isOpen openNumber (.ofNat n) = true := by
  rw [h]
  simp [isOpen]

structure Traced (log : List SessionEvent) (trace : SessionTrace) : Prop where
  traces : Traces log trace
  lastSeq : trace.lastSeq < log.length

theorem lastSeq_of_traceStep (h : TraceStep trace event next) : next.lastSeq = event.seq := by
  cases h <;> rfl

theorem Traced.append (h : Traced log trace) (hseq : event.seq = log.length)
    (hstep : TraceStep trace event next) : Traced (log ++ [event]) next := by
  have hlt : trace.lastSeq < event.seq := by
    rw [hseq]
    exact h.lastSeq
  obtain ⟨transition, hvalid, rfl⟩ := validateEvent_of_traceStep hlt hstep
  refine ⟨h.traces.snoc hvalid, ?_⟩
  rw [lastSeq_of_traceStep hstep, List.length_append, hseq, List.length_singleton]
  omega

@[simp] theorem openTurnOf_concat :
    openTurnOf (log ++ [event]) =
      match event.data with
      | .turnStart turn => some turn
      | .turnEnd _ _ => none
      | _ => openTurnOf log := by
  rw [openTurnOf, List.foldl_append]
  rfl

@[simp] theorem lastTurnOf_concat :
    lastTurnOf (log ++ [event]) =
      match event.data with
      | .turnStart turn => turn
      | _ => lastTurnOf log := by
  rw [lastTurnOf, List.foldl_append]
  rfl

theorem openTurnOf_of_traces (h : Traces log trace) : openTurnOf log = trace.openTurn := by
  induction h with
  | nil => rfl
  | snoc _ hvalid ih =>
    rw [openTurnOf_concat]
    have hstep := traceStep_of_validateEvent hvalid
    generalize applyTransition _ _ = next at hstep ⊢
    cases hstep with
    | request hdata =>
      rcases hdata with ⟨data, hdata⟩ | ⟨data, hdata⟩ <;> rw [hdata] <;> exact ih
    | unconstrained hdata =>
      rcases hdata with ⟨message, hdata⟩ | hdata | ⟨type, data, hdata⟩ <;> rw [hdata] <;> exact ih
    | turnStart hdata => rw [hdata]
    | turnEnd hdata => rw [hdata]
    | _ hdata => rw [hdata]; exact ih

theorem lastTurnOf_of_traces (h : Traces log trace) :
    match trace.openTurn with
    | none => (lastTurnOf log).strictEq (.ofNat (trace.nextTurn - 1)) = true ∧ 0 < trace.nextTurn
    | some openTurn =>
      lastTurnOf log = openTurn ∧ openTurn.strictEq (.ofNat trace.nextTurn) = true ∧
        0 < trace.nextTurn := by
  induction h with
  | nil => exact ⟨rfl, Nat.one_pos⟩
  | snoc _ hvalid ih =>
    rw [lastTurnOf_concat]
    have hstep := traceStep_of_validateEvent hvalid
    generalize applyTransition _ _ = next at hstep ⊢
    cases hstep with
    | turnStart hdata hopen hturn =>
      rw [hopen] at ih
      rw [hdata]
      exact ⟨rfl, hturn, ih.2⟩
    | turnEnd hdata hopen =>
      obtain ⟨openTurn, hopen, -⟩ := isOpen_eq_true.mp hopen
      rw [hopen] at ih
      obtain ⟨hlast, hturn, -⟩ := ih
      rw [hdata, hlast]
      exact ⟨hturn, Nat.succ_pos _⟩
    | request hdata =>
      rcases hdata with ⟨data, hdata⟩ | ⟨data, hdata⟩ <;> rw [hdata] <;> exact ih
    | unconstrained hdata =>
      rcases hdata with ⟨message, hdata⟩ | hdata | ⟨type, data, hdata⟩ <;> rw [hdata] <;> exact ih
    | _ hdata => rw [hdata]; exact ih

theorem closed_of_traces {scan : RepairScan} {lastTurn n : Nat} (h : Traces log trace)
    (hrelated : Related trace scan n) (hopen : trace.openTurn = none)
    (hlast : lastTurnOf log = .ofNat lastTurn) : Closed trace lastTurn := by
  have hnext := lastTurnOf_of_traces h
  rw [hopen, hlast, Number.strictEq_ofNat] at hnext
  obtain ⟨hnext, hpos⟩ := hnext
  have heq := beq_iff_eq.mp hnext
  exact ⟨hopen, hrelated.nested hopen, by omega⟩

end Boundaries

section Calls

variable {out : Outside} {w w' : AgentWorld} {group : Group} {pending more : List String}

def Waiting (group : Group) (start : Nat) (pending : List String) : Prop :=
  ∀ index seq call, start ≤ index → group.callSeqs[index]? = some (some seq) →
    group.calls[index]? = some call → call.id ∈ pending

structure Distinct (tools : ToolRun) : Prop where
  planned : (tools.planned.map ToolCallBlock.id).Nodup
  calls : (tools.group.calls.map ToolCallBlock.id).Nodup

def ToolPoint.Called (group : Group) (pending : List String) : ToolPoint → Prop
  | .pool => Waiting group group.committed pending
  | .starting index call =>
    Waiting group group.committed pending ∧ group.calls[index]? = some call
  | .called index _ =>
    Waiting group group.committed pending ∧
      ∀ call, group.calls[index]? = some call → call.id ∈ pending
  | .registered _ => Waiting group group.committed pending
  | .placed => Waiting group group.committed pending
  | .changed => Waiting group group.committed pending
  | .commits _ => Waiting group group.committed pending
  | .committing _ call _ _ =>
    Waiting group group.committed pending ∧ group.calls[group.committed]? = some call ∧
      call.id ∈ pending
  | .resulted _ _ _ => Waiting group (group.committed + 1) pending
  | .accepting _ _ _ => Waiting group (group.committed + 1) pending
  | .skipCalled call _ _ _ => call.id ∈ pending
  | _ => True

def Stage.Called (tools : ToolRun) (pending : List String) : Stage → Prop
  | .answered calls => (calls.map ToolCallBlock.id).Nodup
  | .tools point => Distinct tools ∧ point.Called tools.group pending
  | _ => True

variable {start : Nat} {outcome : Except Failure Slot} {tools : ToolRun}

theorem Waiting.mono (h : Waiting group start pending)
    (hpending : ∀ id ∈ pending, id ∈ more) : Waiting group start more := by
  intro index seq call hindex hseq hcall
  exact hpending _ (h index seq call hindex hseq hcall)

theorem Waiting.answer {call : ToolCallBlock} (h : Waiting group start pending)
    (hnodup : (group.calls.map ToolCallBlock.id).Nodup) (hcall : group.calls[start]? = some call) :
    Waiting group (start + 1) (pending.filter (· ≠ call.id)) := by
  intro index seq other hindex hseq hother
  refine List.mem_filter.mpr ⟨h index seq other (by omega) hseq hother, ?_⟩
  have hne : start ≠ index := by omega
  have hids : ∀ {i : Nat} {block : ToolCallBlock}, group.calls[i]? = some block →
      (group.calls.map ToolCallBlock.id)[i]? = some block.id := by
    intro i block hblock
    rw [List.getElem?_map, hblock]
    rfl
  have hbound : index < (group.calls.map ToolCallBlock.id).length :=
    (List.getElem?_eq_some_iff.mp (hids hother)).1
  rw [decide_eq_true_eq]
  intro heq
  apply hne
  symm
  apply (List.getElem?_inj hbound hnodup).mp
  rw [hids hother, hids hcall, heq]

theorem Waiting.register {index seq : Nat} (h : Waiting group group.committed pending)
    (hcalled : ∀ call, group.calls[index]? = some call → call.id ∈ pending) :
    Waiting (group.register index seq) group.committed pending := by
  intro position found call hposition hseq hcall
  by_cases heq : index = position
  · rw [← heq] at hcall
    exact hcalled call hcall
  · have hseq : (group.callSeqs.set index (some seq))[position]? = some (some found) := hseq
    rw [List.getElem?_set_ne heq] at hseq
    exact h position found call hposition hseq hcall

theorem waiting_openGroup (calls : List ToolCallBlock) (mode : ExecutionMode) (cap start : Nat)
    (aborted : Bool) : Waiting (openGroup calls mode cap aborted) start pending := by
  intro index seq call _ hseq _
  have hseq : (calls.map fun _ => (none : Option Nat))[index]? = some (some seq) := hseq
  rw [List.getElem?_map] at hseq
  cases hcall : calls[index]? with
  | none => simp [hcall] at hseq
  | some call => simp [hcall] at hseq

variable {index : Nat} {point point' : ToolPoint}

theorem distinct_settle
    (h : Distinct tools) : Distinct (tools.settle index outcome) := by
  cases outcome <;> exact ⟨h.planned, h.calls⟩

theorem called_settle (h : point.Called tools.group pending) :
    point.Called (tools.settle index outcome).group pending := by
  cases outcome <;> cases point <;> exact h

theorem Stage.called_settle
    {stage : Stage} (h : stage.Called tools pending) :
    stage.Called (tools.settle index outcome) pending := by
  cases stage with
  | tools point => exact ⟨distinct_settle h.1, Agent.called_settle h.2⟩
  | _ => exact h

theorem ToolMoves.called (hmoves : ToolMoves out w point point')
    (h : point.Called w.tools.group pending) : point'.Called w.tools.group pending := by
  cases hmoves with
  | start hcall => exact ⟨h, hcall⟩
  | recheck => exact h
  | commits => exact h
  | uncommittable => exact h
  | commit _ hcall hseq => exact ⟨h, hcall, h _ _ _ (Nat.le_refl _) hseq hcall⟩
  | _ => trivial

theorem ToolWrites.called (hwrites : ToolWrites out point w point' w')
    (hdistinct : Distinct w.tools) (h : point.Called w.tools.group pending) :
    Distinct w'.tools ∧ point'.Called w'.tools.group pending := by
  obtain ⟨hplanned, hcalls⟩ := hdistinct
  cases hwrites with
  | @openGroup _ first rest mode time hdrop =>
    refine ⟨⟨hplanned, ?_⟩, waiting_openGroup _ _ _ _ _⟩
    have hsub : (first :: rest).Sublist w.tools.planned := hdrop ▸ List.drop_sublist _ _
    have hgroup : (if mode = .parallel then first :: rest else [first]).Sublist (first :: rest) := by
      split
      · exact .refl _
      · exact (List.nil_sublist rest).cons_cons first
    exact hplanned.sublist ((hgroup.trans hsub).map _)
  | register => exact ⟨⟨hplanned, hcalls⟩, h.1.register h.2⟩
  | launch => exact ⟨⟨hplanned, hcalls⟩, h⟩
  | answer => exact ⟨⟨hplanned, hcalls⟩, h⟩
  | advance => exact ⟨⟨hplanned, hcalls⟩, h⟩
  | noteAbort => exact ⟨⟨hplanned, hcalls⟩, h⟩
  | race => exact ⟨⟨hplanned, hcalls⟩, h⟩
  | commit => exact ⟨⟨hplanned, hcalls⟩, h⟩
  | accept => exact ⟨⟨hplanned, hcalls⟩, h⟩
  | committed => exact ⟨⟨hplanned, hcalls⟩, h⟩
  | _ => exact ⟨⟨hplanned, hcalls⟩, trivial⟩

variable {trace : SessionTrace} {event : SessionEvent} {data : EventData} {turn step seq : Nat}
  {sourceEventSeqs surfaceOp : Option Json}

theorem InStep.isOpen (h : InStep trace turn step) :
    isOpen trace.openTurn (.ofNat turn) = true ∧ isOpen trace.openStep (.ofNat step) = true :=
  ⟨isOpen_ofNat h.openTurn, isOpen_ofNat h.openStep⟩

theorem isAppend_appendOp : (some appendOp).any isAppendOp = true := rfl

theorem InStep.call (h : InStep trace turn step) {call : ToolCallBlock}
    (hdata : event.data = toolCallData turn step call) :
    ∃ next : SessionTrace, TraceStep trace event next ∧ InStep next turn step ∧
      next.pendingCalls = trace.pendingCalls.insert call.id :=
  ⟨_, .toolCall hdata h.isOpen.1 h.isOpen.2, ⟨h.openTurn, h.openStep, h.nextTurn, h.nextStep⟩, rfl⟩

theorem InStep.result (h : InStep trace turn step) {id : String} {call : ToolCallBlock}
    {result : ToolExecutionResult} (hdata : event.data = toolResultData turn step id call result)
    (hop : event.surfaceOp = some appendOp) (hcall : call.id ∈ trace.pendingCalls) :
    ∃ next : SessionTrace, TraceStep trace event next ∧ InStep next turn step ∧
      next.pendingCalls = trace.pendingCalls.filter (· ≠ call.id) := by
  have happend : event.surfaceOp.any isAppendOp = true := by
    rw [hop]
    exact isAppend_appendOp
  exact ⟨_, .toolResult hdata happend h.isOpen.1 h.isOpen.2 (.inl hcall),
    ⟨h.openTurn, h.openStep, h.nextTurn, h.nextStep⟩, rfl⟩

theorem ToolLogs.called
    (hlogs : ToolLogs out turn step point data sourceEventSeqs surfaceOp seq point')
    (hdata : event.data = data) (hop : event.surfaceOp = surfaceOp) (hopen : InStep trace turn step)
    (hnodup : (group.calls.map ToolCallBlock.id).Nodup)
    (h : point.Called group trace.pendingCalls) :
    ∃ next : SessionTrace, TraceStep trace event next ∧ InStep next turn step ∧
      point'.Called group next.pendingCalls := by
  cases hlogs with
  | @call index call =>
    obtain ⟨next, hstep, hnext, hpending⟩ := hopen.call hdata
    refine ⟨next, hstep, hnext, ?_⟩
    rw [hpending]
    refine ⟨h.1.mono fun id hid => List.mem_insert_of_mem hid, ?_⟩
    intro found hfound
    obtain rfl := Option.some.inj (h.2.symm.trans hfound)
    exact List.mem_insert_self
  | result =>
    obtain ⟨hwaiting, hcall, hmem⟩ := h
    obtain ⟨next, hstep, hnext, hpending⟩ := hopen.result hdata hop hmem
    refine ⟨next, hstep, hnext, ?_⟩
    rw [hpending]
    exact hwaiting.answer hnodup hcall
  | skippedCall =>
    obtain ⟨next, hstep, hnext, hpending⟩ := hopen.call hdata
    refine ⟨next, hstep, hnext, ?_⟩
    rw [hpending]
    exact List.mem_insert_self
  | skippedResult =>
    obtain ⟨next, hstep, hnext, -⟩ := hopen.result hdata hop h
    exact ⟨next, hstep, hnext, trivial⟩

theorem InStep.keeps (h : InStep trace turn step) (stage : Stage)
    (hstage : stage.Called tools trace.pendingCalls)
    (hstep : TraceStep trace event { trace with lastSeq := event.seq }) :
    ∃ next : SessionTrace, TraceStep trace event next ∧ InStep next turn step ∧
      stage.Called tools next.pendingCalls :=
  ⟨_, hstep, ⟨h.openTurn, h.openStep, h.nextTurn, h.nextStep⟩, hstage⟩

theorem StepLogs.called {stage stage' : Stage}
    (hlogs : StepLogs out turn step stage data sourceEventSeqs surfaceOp seq stage')
    (hdata : event.data = data) (hop : event.surfaceOp = surfaceOp) (hopen : InStep trace turn step)
    (hdistinct : ((loggedCalls event).map ToolCallBlock.id).Nodup)
    (h : stage.Called w.tools trace.pendingCalls) :
    ∃ next : SessionTrace, TraceStep trace event next ∧ InStep next turn step ∧
      stage'.Called w.tools next.pendingCalls := by
  have hturn : trace.openTurn.isSome = true := by rw [hopen.openTurn]; rfl
  cases hlogs with
  | message => exact hopen.keeps _ h (.unconstrained (.inl ⟨_, hdata⟩))
  | chunk => exact hopen.keeps _ h (.assistantChunk hdata hopen.isOpen.1 hopen.isOpen.2)
  | header => exact hopen.keeps _ h (.request (.inl ⟨_, hdata⟩) hturn)
  | context => exact hopen.keeps _ h (.request (.inr ⟨_, hdata⟩) hturn)
  | answer hmessage hmessageStep =>
    simp only [loggedCalls, hdata] at hdistinct
    refine hopen.keeps (.answered _) hdistinct (.assistantMessage hdata ?_ ?_)
    · rw [hmessage]
      exact hopen.isOpen.1
    · rw [hmessageStep]
      exact hopen.isOpen.2
  | interrupted hmessage hmessageStep =>
    refine hopen.keeps .failed trivial (.assistantMessage hdata ?_ ?_)
    · rw [hmessage]
      exact hopen.isOpen.1
    · rw [hmessageStep]
      exact hopen.isOpen.2
  | tool hlogs =>
    obtain ⟨next, hstep, hnext, hcalled⟩ := hlogs.called hdata hop hopen h.1.calls h.2
    exact ⟨next, hstep, hnext, h.1, hcalled⟩

end Calls

section Matching

variable {out : Outside} {foreign : Foreign} {init w w' : AgentWorld} {c c' : Control}
  {trace next : SessionTrace}
  {event : SessionEvent}

def Control.Matches (w : AgentWorld) (trace : SessionTrace) : Control → Prop
  | .reserved => Closed trace w.phase.turn ∧ w.phase.step = 0
  | .starting turn => Closed trace w.phase.turn ∧ w.phase.step = 0 ∧ turn = w.phase.turn + 1
  | .opening turn => InTurn trace turn 1 ∧ w.phase.step = 0
  | .between vars => InTurn trace vars.turn (w.phase.step + 1) ∧ w.phase.turn = vars.turn
  | .proposing vars step =>
    InTurn trace vars.turn (w.phase.step + 1) ∧ w.phase.turn = vars.turn ∧ step = w.phase.step + 1
  | .proposed vars step _ =>
    InTurn trace vars.turn (w.phase.step + 1) ∧ w.phase.turn = vars.turn ∧ step = w.phase.step + 1
  | .entering vars step =>
    InTurn trace vars.turn (w.phase.step + 1) ∧ w.phase.turn = vars.turn ∧ step = w.phase.step + 1
  | .stepOpening vars step => InStep trace vars.turn step ∧ w.phase.turn = vars.turn
  | .inStep vars step stage =>
    InStep trace vars.turn step ∧ w.phase.turn = vars.turn ∧ w.phase.step = step ∧
      stage.Called w.tools trace.pendingCalls
  | .checking vars => InTurn trace vars.turn (w.phase.step + 1) ∧ w.phase.turn = vars.turn
  | .checked vars _ => InTurn trace vars.turn (w.phase.step + 1) ∧ w.phase.turn = vars.turn
  | .ending turn _ => (∃ nextStep, InTurn trace turn nextStep) ∧ w.phase.turn = turn
  | _ => Closed trace w.phase.turn

theorem Control.Matches.relast (h : c.Matches w trace) (lastSeq : Int) :
    c.Matches w { trace with lastSeq } := by
  have hclosed : ∀ {turn : Nat}, Closed trace turn → Closed { trace with lastSeq } turn :=
    fun h => ⟨h.openTurn, h.openStep, h.nextTurn⟩
  have hturn : ∀ {turn nextStep : Nat}, InTurn trace turn nextStep →
      InTurn { trace with lastSeq } turn nextStep :=
    fun h => ⟨h.openTurn, h.openStep, h.nextTurn, h.nextStep⟩
  have hstep : ∀ {turn step : Nat}, InStep trace turn step → InStep { trace with lastSeq } turn step :=
    fun h => ⟨h.openTurn, h.openStep, h.nextTurn, h.nextStep⟩
  cases c with
  | reserved => exact ⟨hclosed h.1, h.2⟩
  | starting turn => exact ⟨hclosed h.1, h.2⟩
  | opening turn => exact ⟨hturn h.1, h.2⟩
  | between vars => exact ⟨hturn h.1, h.2⟩
  | proposing vars step => exact ⟨hturn h.1, h.2⟩
  | proposed vars step messages => exact ⟨hturn h.1, h.2⟩
  | entering vars step => exact ⟨hturn h.1, h.2⟩
  | stepOpening vars step => exact ⟨hstep h.1, h.2⟩
  | inStep vars step stage => exact ⟨hstep h.1, h.2⟩
  | checking vars => exact ⟨hturn h.1, h.2⟩
  | checked vars waiting => exact ⟨hturn h.1, h.2⟩
  | ending turn ending => exact ⟨h.1.imp fun _ h => hturn h, h.2⟩
  | _ => exact hclosed h

theorem Control.Matches.congr (h : c.Matches w trace) (hturn : w'.phase.turn = w.phase.turn)
    (hstep : w'.phase.step = w.phase.step)
    (htools : ∀ stage : Stage, stage.Called w.tools trace.pendingCalls →
      stage.Called w'.tools trace.pendingCalls) : c.Matches w' trace := by
  cases c with
  | inStep vars step stage =>
    obtain ⟨hopen, hphase, hphaseStep, hcalled⟩ := h
    exact ⟨hopen, hturn.trans hphase, hstep.trans hphaseStep, htools _ hcalled⟩
  | _ => simpa only [Control.Matches, hturn, hstep] using h

def Valid (c : Control) (w : AgentWorld) : Prop := ∃ trace, Traced w.log trace ∧ c.Matches w trace

theorem Valid.congr (h : Valid c w) (hlog : w'.log = w.log) (hturn : w'.phase.turn = w.phase.turn)
    (hstep : w'.phase.step = w.phase.step)
    (htools : ∀ pending, ∀ stage : Stage, stage.Called w.tools pending →
      stage.Called w'.tools pending) : Valid c w' := by
  obtain ⟨trace, htraced, hmatches⟩ := h
  rw [← hlog] at htraced
  exact ⟨trace, htraced, hmatches.congr hturn hstep (htools _)⟩

theorem Valid.appendForeign (h : Valid c w) (hseq : event.seq = w.log.length)
    (hstep : ∀ trace, Traced w.log trace → TraceStep trace event { trace with lastSeq := event.seq }) :
    Valid c { w with log := w.log ++ [event] } := by
  obtain ⟨trace, htraced, hmatches⟩ := h
  refine ⟨_, htraced.append hseq (hstep trace htraced), ?_⟩
  exact (hmatches.relast event.seq).congr rfl rfl fun _ h => h

theorem traceStep_of_isForeign {log : List SessionEvent} (htraced : Traced log trace)
    (h : isForeign log event.data event.sourceEventSeqs event.surfaceOp) :
    TraceStep trace event { trace with lastSeq := event.seq } := by
  cases hdata : event.data with
  | extension type data => exact .unconstrained (.inr (.inr ⟨type, data, hdata⟩))
  | userMessage message => exact .unconstrained (.inl ⟨message, hdata⟩)
  | toolResult data =>
    rw [hdata] at h
    refine .rewrite hdata h.1 ?_
    rw [← openTurnOf_of_traces htraced.traces]
    exact h.2
  | _ =>
    rw [hdata] at h
    cases h

theorem OthersStep.valid (hstep : OthersStep isForeign w w') (h : Valid c w) : Valid c w' := by
  cases hstep with
  | foreign hseq hforeign =>
    exact h.appendForeign hseq fun _ htraced => traceStep_of_isForeign htraced hforeign
  | inboxSpliced hseq hdata =>
    exact h.appendForeign hseq fun _ _ => .unconstrained (.inr (.inr ⟨_, _, hdata⟩))
  | settle => exact h.congr rfl rfl rfl fun _ _ h => Stage.called_settle h
  | latch => exact h.congr rfl (turn_setWake _ _) (step_setWake _ _) fun _ _ h => h
  | abort => exact h.congr rfl (turn_setReason _ _) (step_setReason _ _) fun _ _ h => h
  | cleared => exact h.congr rfl (turn_setWake _ _) (step_setWake _ _) fun _ _ h => h
  | _ => exact h.congr rfl rfl rfl fun _ _ h => h

theorem PhaseStep.valid (hstep : PhaseStep c w c' w') (h : Valid c w) : Valid c' w' := by
  obtain ⟨trace, htraced, hmatches⟩ := h
  refine ⟨trace, ?_, ?_⟩
  · cases hstep <;> exact htraced
  · cases hstep with
    | wake hphase =>
      have hclosed : Closed trace w.phase.turn := hmatches
      rw [hphase] at hclosed
      exact ⟨hclosed, rfl⟩
    | maintain hphase =>
      have hclosed : Closed trace w.phase.turn := hmatches
      rw [hphase] at hclosed
      exact hclosed
    | maintained => exact hmatches
    | undue => exact hmatches
    | delivered => exact hmatches

structure EndsAccepted (out : Outside) : Prop where
  stepEnd : ∀ turn step : Nat, ¬out.Refuses (.stepEnd (.ofNat turn) (.ofNat step))
  turnEnd : ∀ (turn : Nat) (reason : TurnEndReason), ¬out.Refuses (.turnEnd (.ofNat turn) reason)

theorem matches_ending {turn : Nat} (hturn : c.openTurn = some turn) (h : c.Matches w trace) :
    (∃ nextStep, InTurn trace turn nextStep) ∧ w.phase.turn = turn := by
  cases c with
  | between vars =>
    cases hturn
    exact ⟨⟨_, h.1⟩, h.2⟩
  | proposing vars step =>
    cases hturn
    exact ⟨⟨_, h.1⟩, h.2.1⟩
  | proposed vars step messages =>
    cases hturn
    exact ⟨⟨_, h.1⟩, h.2.1⟩
  | entering vars step =>
    cases hturn
    exact ⟨⟨_, h.1⟩, h.2.1⟩
  | checking vars =>
    cases hturn
    exact ⟨⟨_, h.1⟩, h.2⟩
  | _ => cases hturn

variable {stage stage' : Stage} {start : Nat}

theorem StepMoves.called {pending : List String} (hmoves : StepMoves out w stage stage')
    (h : stage.Called w.tools pending) : stage'.Called w.tools pending := by
  cases hmoves with
  | tool hmoves => exact ⟨h.1, hmoves.called h.2⟩
  | _ => trivial

theorem Moves.valid (hstep : Moves out w c c') (hends : EndsAccepted out) (h : c.Matches w trace) :
    c'.Matches w trace := by
  cases hstep with
  | start => exact ⟨h.1, h.2, rfl⟩
  | propose => exact ⟨h.1, h.2, rfl⟩
  | stop => exact ⟨⟨_, h.1⟩, h.2.1⟩
  | empty => exact ⟨⟨_, h.1⟩, h.2.1⟩
  | enter => exact h
  | inStep hmoves => exact ⟨h.1, h.2.1, h.2.2.1, hmoves.called h.2.2.2⟩
  | stepEndRefused _ hrefused => exact absurd hrefused (hends.stepEnd _ _)
  | continues => exact h
  | stops => exact ⟨⟨_, h.1⟩, h.2⟩
  | fail hturn => exact matches_ending hturn h

theorem StepWrites.called {pending : List String}
    (hwrites : StepWrites out stage w stage' w') (h : stage.Called w.tools pending) :
    stage'.Called w'.tools pending := by
  cases hwrites with
  | openTools => exact ⟨⟨h, List.nodup_nil⟩, trivial⟩
  | tool hwrites => exact hwrites.called h.1 h.2
  | _ => trivial

theorem Writes.valid (hstep : Writes out c w c' w') (hends : EndsAccepted out)
    (hrunning : w.phase.isRunning = true) (h : Valid c w) : Valid c' w' := by
  obtain ⟨trace, htraced, hmatches⟩ := h
  cases hstep with
  | turnOpened =>
    refine ⟨trace, htraced, ?_, turn_setTurn hrunning _⟩
    obtain ⟨hopen, hphase⟩ := hmatches
    show InTurn trace _ ((w.phase.setTurn _).step + 1)
    rw [step_setTurn, hphase]
    exact hopen
  | stepOpened =>
    obtain ⟨hopen, hphase⟩ := hmatches
    exact ⟨trace, htraced, hopen, (turn_setStep _ _).trans hphase, step_setStep hrunning _, trivial⟩
  | inStep hwrites =>
    obtain ⟨hopen, hphase, hphaseStep, hcalled⟩ := hmatches
    have hlog : w'.log = w.log := by
      cases hwrites with
      | tool hwrites => cases hwrites <;> rfl
      | _ => rfl
    refine ⟨trace, hlog ▸ htraced, hopen, ?_, ?_, hwrites.called hcalled⟩
    · rw [hwrites.phase]
      exact hphase
    · rw [hwrites.phase]
      exact hphaseStep
  | again =>
    refine ⟨trace, htraced, ?_⟩
    cases hkind : w.phase with
    | running abort turn step wakeRequested =>
      have hclosed : Closed trace w.phase.turn := hmatches
      rw [hkind] at hclosed
      exact ⟨hclosed, rfl⟩
    | _ =>
      rw [hkind] at hrunning
      cases hrunning
  | turnEndRefused hrefused => exact absurd hrefused (hends.turnEnd _ _)
  | notOpened => exact ⟨trace, htraced, hmatches.1⟩
  | notStarted => exact ⟨trace, htraced, hmatches.1⟩
  | rejected => exact ⟨trace, htraced, ⟨_, hmatches.1⟩, hmatches.2.1⟩
  | _ => exact ⟨trace, htraced, hmatches⟩

theorem Logs.valid {data : EventData} {sourceEventSeqs surfaceOp : Option Json} {seq : Nat}
    (hlogs : Logs out c data sourceEventSeqs surfaceOp seq c') (hdata : event.data = data)
    (hop : event.surfaceOp = surfaceOp)
    (hdistinct : ((loggedCalls event).map ToolCallBlock.id).Nodup) (h : c.Matches w trace) :
    ∃ next : SessionTrace, TraceStep trace event next ∧
      c'.Matches { w with log := w.log ++ [event] } next := by
  cases hlogs with
  | turnStart =>
    obtain ⟨hclosed, hphase, rfl⟩ := h
    refine ⟨_, .turnStart hdata hclosed.openTurn ?_, ⟨rfl, hclosed.openStep, hclosed.nextTurn, rfl⟩, hphase⟩
    rw [hclosed.nextTurn, Number.strictEq_ofNat]
    exact beq_self_eq_true _
  | stepStart =>
    obtain ⟨hopen, hphase, rfl⟩ := h
    refine ⟨_, .stepStart hdata (isOpen_ofNat hopen.openTurn) hopen.openStep ?_,
      ⟨hopen.openTurn, rfl, hopen.nextTurn, hopen.nextStep⟩, hphase⟩
    rw [hopen.nextStep, Number.strictEq_ofNat]
    exact beq_self_eq_true _
  | inStep hlogs =>
    obtain ⟨hopen, hphase, hphaseStep, hcalled⟩ := h
    obtain ⟨next, hstep, hnext, hcalled⟩ := hlogs.called hdata hop hopen hdistinct hcalled
    exact ⟨next, hstep, hnext, hphase, hphaseStep, hcalled⟩
  | stepEnd =>
    obtain ⟨hopen, hphase, hphaseStep, -⟩ := h
    refine ⟨_, .stepEnd hdata hopen.isOpen.1 hopen.isOpen.2,
      ⟨hopen.openTurn, rfl, hopen.nextTurn, ?_⟩, hphase⟩
    show trace.nextStep + 1 = w.phase.step + 1
    rw [hopen.nextStep, hphaseStep]
  | stepFailed =>
    obtain ⟨hopen, hphase, -⟩ := h
    exact ⟨_, .stepEnd hdata hopen.isOpen.1 hopen.isOpen.2,
      ⟨_, hopen.openTurn, rfl, hopen.nextTurn, rfl⟩, hphase⟩
  | turnEnd =>
    obtain ⟨⟨nextStep, hopen⟩, hphase⟩ := h
    refine ⟨_, .turnEnd hdata (isOpen_ofNat hopen.openTurn) hopen.openStep, rfl, hopen.openStep, ?_⟩
    show trace.nextTurn + 1 = w.phase.turn + 1
    rw [hopen.nextTurn, hphase]
  | turnFailed =>
    obtain ⟨⟨nextStep, hopen⟩, hphase⟩ := h
    refine ⟨_, .turnEnd hdata (isOpen_ofNat hopen.openTurn) hopen.openStep, rfl, hopen.openStep, ?_⟩
    show trace.nextTurn + 1 = w.phase.turn + 1
    rw [hopen.nextTurn, hphase]

theorem AgentStep.valid (hstep : AgentStep out isForeign c w c' w') (hends : EndsAccepted out)
    (hruns : AgentRuns out isForeign init c w) (hstart : start ≤ w.log.length)
    (hdistinct : DistinctCalls start w'.log) (h : Valid c w) : Valid c' w' := by
  cases hstep with
  | others hstep => exact hstep.valid h
  | phase hstep => exact hstep.valid h
  | moves hstep =>
    obtain ⟨trace, htraced, hmatches⟩ := h
    exact ⟨trace, htraced, hstep.valid hends hmatches⟩
  | writes hstep => exact hstep.valid hends (hruns.isRunning hstep.isDriver) h
  | @logs _ _ event hseq hlogs =>
    obtain ⟨trace, htraced, hmatches⟩ := h
    have hcalls := hdistinct event (List.mem_append_right _ List.mem_cons_self) (by omega)
    obtain ⟨next, htrace, hnext⟩ := hlogs.valid rfl rfl hcalls hmatches
    exact ⟨next, htraced.append hseq htrace, hnext⟩

theorem AgentRuns.log_prefix (hruns : AgentRuns out foreign init c w) : init.log <+: w.log :=
  hruns.invariant (fun _ w => init.log <+: w.log) (fun _ => List.prefix_refl _)
    fun _ hprefix hstep => hprefix.trans hstep.grows.2

theorem DistinctCalls.of_isPrefix {log more : List SessionEvent}
    (h : DistinctCalls start more) (hlog : log <+: more) : DistinctCalls start log :=
  fun event hevent => h event (hlog.subset hevent)

theorem AgentRuns.valid (hruns : AgentRuns out isForeign init c w) (hends : EndsAccepted out)
    (hinit : Valid (.undriven false) init) (hdistinct : DistinctCalls init.log.length w.log) :
    Valid c w := by
  refine hruns.invariant (fun c w => DistinctCalls init.log.length w.log → Valid c w) ?_ ?_ hdistinct
  · exact fun _ _ => hinit
  · intro c w c' w' hruns hvalid hstep hdistinct
    refine hstep.valid hends hruns hruns.log_prefix.length_le hdistinct ?_
    exact hvalid (hdistinct.of_isPrefix hstep.grows.2)

/-- Whatever an agent appends is accepted, and nothing is open once it is idle. -/
theorem appends_valid_traces {log : List SessionEvent} {inbox : Inbox} {lastTurn : Nat}
    {surface : SurfaceFoldResult} {s : AgentState}
    (h : LoopReaches (agentLoop out isForeign) ⟨initialWorld log inbox lastTurn, [], []⟩ s)
    (hsurface : foldSurface log = .ok surface) (htrace : seedSession log = .ok trace)
    (hopen : trace.openTurn = none) (hlast : lastTurnOf log = .ofNat lastTurn)
    (hends : EndsAccepted out) (hdistinct : DistinctCalls log.length s.world.log) :
    ∃ final : SessionTrace, seedSession s.world.log = .ok final ∧
      (s.world.phase.isIdle = true → final.openTurn = none ∧ final.openStep = none) := by
  obtain ⟨state, hfold, -⟩ := exists_folds_of_foldSurface hsurface
  have htraces := seedSession_eq_ok.mp htrace
  have hrelated := htraces.related hfold.seq_eq
  have hclosed := closed_of_traces htraces hrelated hopen hlast
  have hlt : trace.lastSeq < log.length := by
    rw [hrelated.lastSeq]
    omega
  obtain ⟨c, hruns⟩ := agentLoop_refines rfl rfl h
  obtain ⟨final, htraced, hmatches⟩ := hruns.valid hends ⟨trace, ⟨htraces, hlt⟩, hclosed⟩ hdistinct
  refine ⟨final, seedSession_eq_ok.mpr htraced.traces, ?_⟩
  intro hidle
  obtain ⟨due, rfl⟩ := none_of_fits hruns.fits hidle
  have hclosed : Closed final s.world.phase.turn := hmatches
  exact ⟨hclosed.openTurn, hclosed.openStep⟩

end Matching

section Parallel

instance (start : Nat) (log : List SessionEvent) : Decidable (DistinctCalls start log) :=
  inferInstanceAs (Decidable (∀ event ∈ log, _))

def callingTwice (first second : String) : Nat → Option StreamChunk
  | 20 => some (.blockEnd 0 (.toolCall first "tool" "{}"))
  | 23 => some (.blockEnd 1 (.toolCall second "tool" "{}"))
  | _ => none

def parallelOutside (first second : String) : Outside :=
  { plainOutside (callingTwice first second) with
    executionMode := fun _ _ => .ok .parallel
    maxParallelToolCalls := fun _ => 2 }

def dispatched (first second : String) : AgentState :=
  enterFor (parallelOutside first second) (sendText "start" .nextTurn) 400 fresh

theorem reaches_dispatched (first second : String) :
    LoopReaches (agentLoop (parallelOutside first second) isForeign) fresh (dispatched first second) :=
  reaches_enterFor (.refl _) rfl _ (isEnabled_sendText _ _ _) 400

def answered (first second : String) : AgentState :=
  enterFor (parallelOutside first second) (bodyReturns 0) 100 (dispatched first second)

def refusingOutside : Outside :=
  { plainOutside (fun _ => none) with
    check := fun _ _ event =>
      match event.data with
      | .stepEnd _ _ => .error "refused"
      | _ => .ok () }

/-- The second result of an identity that two calls share has no call left to answer, and behind a
refused end of a step the turn is ended around it. -/
theorem appends_invalid_trace :
    (∃ s : AgentState, LoopReaches (agentLoop (parallelOutside "call" "call") isForeign)
      ⟨initialWorld [] {} 0, [], []⟩ s ∧ (seedSession s.world.log).isOk = false) ∧
    ∃ s : AgentState, LoopReaches (agentLoop refusingOutside isForeign)
      ⟨initialWorld [] {} 0, [], []⟩ s ∧ (seedSession s.world.log).isOk = false := by
  constructor
  · have hanswered : LoopReaches (agentLoop (parallelOutside "call" "call") isForeign) fresh
        (answered "call" "call") :=
      reaches_enterFor (reaches_dispatched _ _) (by decide) _
        (isEnabled_bodyReturns (by decide) (by decide)) 100
    refine ⟨enterFor (parallelOutside "call" "call") (bodyReturns 1) 100 (answered "call" "call"),
      ?_, by decide⟩
    exact reaches_enterFor hanswered (by decide) _
      (isEnabled_bodyReturns (by decide) (by decide)) 100
  · refine ⟨enterFor refusingOutside (sendText "start" .nextTurn) 400 fresh, ?_, by decide⟩
    exact reaches_enterFor (.refl _) rfl _ (isEnabled_sendText _ _ _) 400

theorem endsAccepted_parallelOutside (first second : String) :
    EndsAccepted (parallelOutside first second) where
  stepEnd := by
    rintro turn step ⟨time, log, event, -, ⟨message, h⟩ | h⟩ <;> cases h
  turnEnd := by
    rintro turn reason ⟨time, log, event, -, ⟨message, h⟩ | h⟩ <;> cases h

theorem appends_valid_traces_parallel :
    ∃ s : AgentState, LoopReaches (agentLoop (parallelOutside "one" "two") isForeign)
      ⟨initialWorld [] {} 0, [], []⟩ s ∧ s.tasks = [] ∧
      ∃ final : SessionTrace, seedSession s.world.log = .ok final ∧
        (s.world.phase.isIdle = true → final.openTurn = none ∧ final.openStep = none) := by
  have hanswered : LoopReaches (agentLoop (parallelOutside "one" "two") isForeign) fresh
      (answered "one" "two") :=
    reaches_enterFor (reaches_dispatched _ _) (by decide) _
      (isEnabled_bodyReturns (by decide) (by decide)) 100
  have hrun := reaches_enterFor hanswered (by decide) (bodyReturns 1)
    (isEnabled_bodyReturns (by decide) (by decide)) 400
  exact ⟨_, hrun, by decide, appends_valid_traces hrun rfl rfl rfl rfl
    (endsAccepted_parallelOutside _ _) (by decide)⟩

end Parallel

end DshKernel.Agent
