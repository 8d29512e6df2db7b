import DshKernel.Agent.ToolCalls

/-!
# Model requests

The loop of `step`: a request is built from the log, its stream is recorded chunk by chunk, and
the assembled message ends the step, goes on to its tool calls, or is tried again.
-/

namespace DshKernel.Agent

open Js Lib Session Llm Program

/-- `requestProposal`: the configuration without what the adapter had derived. -/
def requestProposal (header : EpochHeader) : LlmCallConfig :=
  match header.adapterDefaults with
  | none => header.config
  | some defaults =>
    { header.config with
      reasoningEffort := if defaults.reasoningEffort then none else header.config.reasoningEffort
      maxTokens := if defaults.maxTokens then none else header.config.maxTokens }

def declaredConfig (options : AgentOptions) (persisted : Option EpochHeader) : LlmCallConfig :=
  let provider := options.provider.getD ""
  let model := options.model.getD ""
  let persistedEffort := persisted.bind fun header =>
    if header.config.provider = provider ∧ header.config.model = model ∧
        header.adapterDefaults.all (fun defaults => !defaults.reasoningEffort) then
      header.config.reasoningEffort
    else none
  { provider, model
    reasoningEffort := options.reasoningEffort.or persistedEffort
    maxTokens := options.maxTokens }

/-- `===` of optional numbers. -/
def numbersEqual : Option Number → Option Number → Bool
  | none, none => true
  | some a, some b => a.strictEq b
  | none, some _ => false
  | some _, none => false

def callConfigEquals (a b : LlmCallConfig) : Bool :=
  a.provider == b.provider && a.model == b.model && a.reasoningEffort == b.reasoningEffort &&
    numbersEqual a.temperature b.temperature && numbersEqual a.maxTokens b.maxTokens && a.stop == b.stop

/-- `headerEquals`. The schemas compare by their JSON texts. -/
def headerEquals (stringify : Json → String) (a b : EpochHeader) : Bool :=
  callConfigEquals a.config b.config &&
    a.adapterDefaults.any (·.reasoningEffort) == b.adapterDefaults.any (·.reasoningEffort) &&
    a.adapterDefaults.any (·.maxTokens) == b.adapterDefaults.any (·.maxTokens) &&
    a.system == b.system &&
    (a.tools.getD []).map stringify == (b.tools.getD []).map stringify

def deriveMessages (log : List SessionEvent) : Except String (List Message) :=
  match foldSurface log with
  | .error message => .error message
  | .ok surface => .ok (surface.nodes.filterMap (Session.projectNode log))

/-- `surface.replaceGeneration` -/
def replaceGeneration (log : List SessionEvent) : Except String Nat :=
  match foldSurface log with
  | .error message => .error message
  | .ok surface => .ok surface.replacements.length

def noRouteText : String := "agent has no provider/model"

def headerEvent (stringify : Json → String) (logged : Bool) (baseline : Option EpochHeader)
    (header : EpochHeader) (startsSeries : Bool) : Option RequestHeaderData :=
  if !logged then
    some { header, reason := if baseline.isNone then .initial else .resume }
  else if !baseline.any (headerEquals stringify · header) then
    some { header, reason := .change, startsSeries }
  else if startsSeries then some { header, reason := .series }
  else none

def appendHeader (out : Outside) (due : Option RequestHeaderData) : AgentProgram Unit :=
  match due with
  | none => pure ()
  | some data => do
    let _ ← append out .driver (.requestHeader data) none none
    modify fun w => { w with requestHeaderLogged := true }

def contextEvent (previous : Option RequestContext) (config : LlmCallConfig)
    (contextWindow : Option Number) : Option RequestContext :=
  let current : RequestContext := { provider := config.provider, model := config.model, contextWindow }
  match previous with
  | none => some current
  | some previous =>
    if previous.provider ≠ current.provider ∨ previous.model ≠ current.model ∨
        numbersEqual previous.contextWindow current.contextWindow = false then some current
    else none

def appendContext (out : Outside) (due : Option RequestContext) : AgentProgram Unit :=
  match due with
  | none => pure ()
  | some context => do
    let _ ← append out .driver (.requestContext context) none none

/-- `buildRequest` behind the reads of its caller. -/
def buildRequest (out : Outside) (vars : StepVars) (messages : List Message)
    (startsRequestSeries : Bool) (generation : Nat) : AgentProgram Request := do
  let w ← get
  let persisted := foldRequestHeader w.log none
  let seedConfig := match w.requestHeaderLogged, persisted with
    | true, some header => requestProposal header
    | _, _ => declaredConfig out.options persisted
  let question ← ask
  let proposed ← awaiting (fromExcept (out.request question seedConfig))
  throwIfAborted
  if proposed.provider.isEmpty ∨ proposed.model.isEmpty then throw (.other noRouteText)
  else
    let question ← ask
    let prepared ← awaiting (fromExcept (out.prepareCall question proposed))
    throwIfAborted
    let config := (prepared.map PreparedLlmCall.config).getD proposed
    let header := canonicalHeader
      { config, adapterDefaults := prepared.map PreparedLlmCall.adapterDefaults,
        system := some vars.system, tools := some vars.promptTools }
    let w ← get
    let baseline := foldRequestHeader w.log none
    let startsSeries := startsRequestSeries || w.requestSurfaceGeneration != some generation
    appendHeader out (headerEvent out.stringify w.requestHeaderLogged baseline header startsSeries)
    modify fun w => { w with requestSurfaceGeneration := some generation }
    let w ← get
    let contextWindow := prepared.bind PreparedLlmCall.contextWindow
    appendContext out (contextEvent (foldRequestContext w.log none) config contextWindow)
    throwIfAborted
    pure { header, messages }

def makeRequest (out : Outside) (vars : StepVars) (startsRequestSeries : Bool) :
    AgentProgram Request := do
  let w ← get
  match replaceGeneration w.log, deriveMessages w.log with
  | .ok generation, .ok messages =>
    awaiting (buildRequest out vars messages startsRequestSeries generation)
  | .error message, _ => throw (.other message)
  | _, .error message => throw (.other message)

def openStream (out : Outside) (request : Request) : AgentProgram Unit := do
  record (.requested request.messages)
  let question ← ask
  call (.notification .driver)
  fromExcept (out.openStream question)
  throwIfAborted

def request (out : Outside) (vars : StepVars) (startsRequestSeries : Bool) : AgentBlock := do
  match ← (makeRequest out vars startsRequestSeries).attempt with
  | .error failure => stepThrows out vars.toTurnVars vars.step failure
  | .ok request =>
    match ← (openStream out request).attempt with
    -- nothing was streamed that an abort could finalize
    | .error failure => stepThrows out vars.toTurnVars vars.step failure
    | .ok () => pure (some (.stream vars request {} []))

/-- One round of the stream loop: the sequence number of the recorded chunk, unless the stream is
through. -/
def nextChunk (out : Outside) (vars : StepVars) : AgentProgram (Option (StreamChunk × Nat)) := do
  let question ← ask
  let next ← awaiting (fromExcept (out.chunk question))
  match next with
  | none =>
    throwIfAborted
    pure none
  | some chunk =>
    let recorded : AgentProgram Nat := do
      throwIfAborted
      append out .driver (.assistantChunk (.ofNat vars.turn) (.ofNat vars.step) (out.chunkJson chunk))
        none none
    match ← recorded.attempt with
    | .ok seq => pure (some (chunk, seq))
    | .error failure =>
      -- the iterator is closed before the failure leaves the loop
      call (.awaiting .promise)
      throw failure

def sourceSeqs (seqs : List Nat) : Json := .arr (seqs.map Json.ofNat)

def appendAssistant (out : Outside) (vars : StepVars) (request : Request) (assembler : BlockAssembler)
    (chunkSeqs : List Nat) (content : List ContentBlock) (replay : Option ReplayEnvelope)
    (interrupted : Bool) : AgentProgram Unit := do
  let question ← ask
  let source : ModelMessageSource :=
    { provider := request.header.config.provider, model := request.header.config.model,
      replayState := replay.map ReplayEnvelope.toJson }
  let data : AssistantMessageData :=
    { turn := .ofNat vars.turn, step := .ofNat vars.step,
      message := { id := out.messageId question, content, source },
      usage := assembler.usage, interrupted }
  let _ ← append out .driver (.assistantMessage data) (some (sourceSeqs chunkSeqs)) (some appendOp)

/-- The `catch` block of the stream loop. -/
def interruptStream (out : Outside) (vars : StepVars) (request : Request) (assembler : BlockAssembler)
    (chunkSeqs : List Nat) : AgentProgram Unit := do
  let w ← get
  if w.phase.reason.isSome ∧ !assembler.interruptedBlocks.isEmpty then
    appendAssistant out vars request assembler chunkSeqs assembler.interruptedBlocks none true
  else pure ()

def recoverRequest (out : Outside) (failure : Json) : AgentProgram Unit := do
  let question ← ask
  let retry ← awaiting (fromExcept (out.requestError question failure))
  throwIfAborted
  if retry then pure () else throw (.llm failure)

def finishResponse (out : Outside) (vars : StepVars) (request : Request) (assembler : BlockAssembler)
    (chunkSeqs : List Nat) : AgentProgram (List ContentBlock) := do
  match assembler.assembled with
  | .error message => throw (.other message)
  | .ok (content, replay) =>
    appendAssistant out vars request assembler chunkSeqs content replay false
    pure content

def respond (out : Outside) (vars : StepVars) (request : Request) (assembler : BlockAssembler)
    (chunkSeqs : List Nat) : AgentBlock := do
  match assembler.finish with
  | .error failure | .aborted failure =>
    match ← (recoverRequest out failure).attempt with
    | .error failure => stepThrows out vars.toTurnVars vars.step failure
    | .ok () => pure (some (.request vars false))
  | finish =>
    match ← (finishResponse out vars request assembler chunkSeqs).attempt with
    | .error failure => stepThrows out vars.toTurnVars vars.step failure
    | .ok content =>
      match finish, toolCallsOf content with
      | .maxTokens, _ => stepReturns out vars .maxTokens
      | _, [] => stepReturns out vars .noCalls
      | _, calls =>
        openTools calls
        pure (some (.tools vars))

def stream (out : Outside) (vars : StepVars) (request : Request) (assembler : BlockAssembler)
    (chunkSeqs : List Nat) : AgentBlock := do
  match ← (nextChunk out vars).attempt with
  | .ok (some (chunk, seq)) =>
    pure (some (.stream vars request (assembler.push chunk) (chunkSeqs ++ [seq])))
  | .ok none => respond out vars request assembler chunkSeqs
  | .error failure =>
    match ← (interruptStream out vars request assembler chunkSeqs).attempt with
    | .error failure => stepThrows out vars.toTurnVars vars.step failure
    | .ok () => stepThrows out vars.toTurnVars vars.step failure

end DshKernel.Agent
