import DshKernel.Llm.StreamGrammar

/-!
# The translation of DeepSeek payloads

The payloads of a stream become chunks: a block for the reasoning, one for the text and one for each
index of a tool call. Ends of blocks, usage and finish wait for the last payload.
-/

namespace DshKernel.DeepSeek

open Js Lib Session Llm

/-- What translation throws: an `LlmError`, or what the language throws. -/
inductive TranslateError where
  | llm (message code : String)
  | typeError
  | rangeError
  deriving DecidableEq, Repr

/-- The built-in functions that translation calls. `appended` is what `+=` appends for a value
that is no string, and `toNumber` the operand of `-`; without a value the conversion throws. -/
structure Builtins where
  parse : String → Option Json
  quoted : String → String
  display : Option Json → String
  appended : Json → Option String
  toNumber : Option Json → Option Number
  toUpperCase : String → String
  slice : String → Nat → Nat → String
  arithmetic : Arithmetic

/-- A part of a generator's run: the chunks that it yields, then its result or what it throws. -/
structure Yields (α : Type) where
  chunks : List StreamChunk
  result : Except TranslateError α

namespace Yields

variable {α β : Type}

instance : Monad Yields where
  pure value := ⟨[], .ok value⟩
  bind first next :=
    match first.result with
    | .error error => ⟨first.chunks, .error error⟩
    | .ok value => ⟨first.chunks ++ (next value).chunks, (next value).result⟩

def emit (chunk : StreamChunk) : Yields Unit := ⟨[chunk], .ok ()⟩

def lift (result : Except TranslateError α) : Yields α := ⟨[], result⟩

def throws (error : TranslateError) : Yields α := ⟨[], .error error⟩

/-- `for (const item of items)` -/
def forEach {σ : Type} (step : σ → α → Yields σ) : σ → List α → Yields σ
  | state, [] => pure state
  | state, item :: rest => do
    let state ← step state item
    forEach step state rest

variable {chunks : List StreamChunk}

theorem bind_eq_ok {first : Yields α} {next : α → Yields β} {result : β} :
    (first >>= next) = ⟨chunks, .ok result⟩ ↔
      ∃ before value after, first = ⟨before, .ok value⟩ ∧ next value = ⟨after, .ok result⟩ ∧
        chunks = before ++ after := by
  obtain ⟨before, outcome⟩ := first
  cases outcome with
  | error error =>
    refine ⟨fun h => ?_, ?_⟩
    · cases h
    · rintro ⟨found, value, after, heq, -, -⟩
      cases heq
  | ok value =>
    change Yields.mk (before ++ (next value).chunks) (next value).result = _ ↔ _
    constructor
    · intro h
      injection h with hchunks hresult
      refine ⟨before, value, (next value).chunks, rfl, ?_, hchunks.symm⟩
      rw [← hresult]
    · rintro ⟨found, other, rest, heq, hother, rfl⟩
      cases heq
      rw [hother]

theorem pure_eq_ok {value result : α} :
    (pure value : Yields α) = ⟨chunks, .ok result⟩ ↔ chunks = [] ∧ result = value := by
  constructor
  · intro h
    cases h
    exact ⟨rfl, rfl⟩
  · rintro ⟨rfl, rfl⟩
    rfl

theorem lift_eq_ok {outcome : Except TranslateError α} {result : α} :
    lift outcome = ⟨chunks, .ok result⟩ ↔ chunks = [] ∧ outcome = .ok result := by
  rw [lift, mk.injEq, eq_comm]

theorem emit_eq_ok {chunk : StreamChunk} {result : Unit} :
    emit chunk = ⟨chunks, .ok result⟩ ↔ chunks = [chunk] := by
  rw [emit, mk.injEq, eq_comm, and_iff_left rfl]

end Yields

def DONE : String := "[DONE]"

def EMPTY_RESPONSE_CODE : String := "EMPTY_RESPONSE"

inductive BlockKind where
  | text
  | reasoning
  | toolCall
  deriving DecidableEq, Repr

def BlockKind.name : BlockKind → String
  | text => "text"
  | reasoning => "reasoning"
  | toolCall => "tool-call"

/-- A block under assembly. Its index is its place in `order`: one function counts the indices and
pushes the blocks. -/
structure OpenBlock where
  kind : BlockKind
  text : String := ""
  callId : Option String := none
  name : Option String := none
  deriving DecidableEq, Repr

section Wire

/-- `value.key`, which throws on `null`. -/
def member (value : Json) (key : String) : Except TranslateError (Option Json) :=
  match value with
  | .null => .error .typeError
  | value => .ok (value.get? key)

/-- `value?.key` -/
def optionalMember (value : Option Json) (key : String) : Option Json := value.bind (·.get? key)

/-- `value ?? fallback` -/
def coalesce (value : Option Json) (fallback : Option Json) : Option Json :=
  match value with
  | none => fallback
  | some .null => fallback
  | some value => some value

/-- What `for (const item of value ?? [])` goes over. -/
def iterate (value : Option Json) : Except TranslateError (List Json) :=
  match value with
  | none => .ok []
  | some .null => .ok []
  | some (.arr items) => .ok items
  | some (.str text) => .ok (text.toList.map fun char => .str (String.singleton char))
  | some _ => .error .typeError

/-- `typeof value === 'string' && value.length > 0` -/
def nonEmptyText (value : Option Json) : Option String :=
  (value.bind Json.asString).filter (· ≠ "")

def isTruthy (value : Option Json) : Bool :=
  match value with
  | none => false
  | some .null => false
  | some (.bool value) => value
  | some (.num value) => !value.strictEq (.ofNat 0) && value != .nan
  | some (.str text) => text != ""
  | some _ => true

/-- A value as a key of a `Map` that outlives the payload. -/
inductive WireKey where
  | undefined
  | null
  | bool (value : Bool)
  | num (value : Number)
  | str (text : String)
  deriving DecidableEq, Repr

def WireKey.ofJson : Option Json → Option WireKey
  | none => some .undefined
  | some .null => some .null
  | some (.bool value) => some (.bool value)
  | some (.num (.integral .negZero)) => some (.num (.ofNat 0))
  | some (.num value) => some (.num value)
  | some (.str text) => some (.str text)
  | some (.arr _) => none
  | some (.obj _) => none

end Wire

structure TranslateState where
  textBlock : Option Nat := none
  reasoningBlock : Option Nat := none
  toolBlocks : List (WireKey × Nat) := []
  order : List OpenBlock := []
  pendingFinish : Option FinishReason := none
  pendingUsage : Option TokenUsage := none

section Mapping

variable (builtins : Builtins)

def failure (message code : String) : Json := .obj [("message", .str message), ("code", .str code)]

def mapFinishReason (reason : String) : FinishReason :=
  if reason = "stop" then .stop
  else if reason = "tool_calls" then .toolCalls
  else if reason = "length" then .maxTokens
  else .error (failure s!"model stopped: {reason}" (builtins.toUpperCase reason))

def countOf (value : Json) : Number := value.asNumber.getD .nan

def exactTotal (prompt completion total : Option Json) : Option Number :=
  match prompt, completion with
  | some (.num prompt), some (.num completion) =>
    let combined := builtins.arithmetic.add prompt completion
    if prompt.isSafeInteger && decide (0 ≤ prompt.toInt) && completion.isSafeInteger &&
        decide (0 ≤ completion.toInt) && combined.isSafeInteger &&
        total.all (fun total => total.asNumber.any combined.strictEq) then some combined
    else none
  | _, _ => none

def mapUsage (usage : Json) : Except TranslateError TokenUsage :=
  let cacheRead := coalesce (optionalMember (usage.get? "prompt_tokens_details") "cached_tokens")
    (usage.get? "prompt_cache_hit_tokens")
  let reasoning := optionalMember (usage.get? "completion_tokens_details") "reasoning_tokens"
  let prompt := usage.get? "prompt_tokens"
  let completion := usage.get? "completion_tokens"
  match builtins.toNumber prompt, builtins.toNumber (coalesce cacheRead (some (.ofNat 0))) with
  | some whole, some cached =>
    .ok {
      inputTokens := builtins.arithmetic.sub whole cached
      outputTokens := (completion.map countOf).getD .nan
      totalTokens := exactTotal builtins prompt completion (usage.get? "total_tokens")
      cacheReadTokens := cacheRead.map countOf
      reasoningTokens := reasoning.map countOf }
  | _, _ => .error .typeError

def acceptIdentity (current : Option String) (incoming : Option Json) : Option String :=
  match nonEmptyText incoming with
  | some value => some value
  | none => current

def assertIdentityStable (current : Option String) (incoming : Option Json) (index : Option Json)
    (field : String) : Except TranslateError Unit :=
  match nonEmptyText incoming, current with
  | some value, some held =>
    if value ≠ held then
      .error (.llm (s!"tool-call index {builtins.display index} reused with a different {field} " ++
        s!"({builtins.quoted value} after {builtins.quoted held}): " ++
        "the provider is interleaving two calls on one index") "MALFORMED_RESPONSE")
    else .ok ()
  | _, _ => .ok ()

def closeBlock (block : OpenBlock) : ContentBlock :=
  match block.kind with
  | .text => .text block.text
  | .reasoning => .reasoning block.text
  | .toolCall => .toolCall (block.callId.getD "") (block.name.getD "") block.text

def argumentsText (arguments : Option Json) : Except TranslateError String :=
  match coalesce arguments (some (.str "")) with
  | some (.str text) => .ok text
  | some value =>
    match builtins.appended value with
    | some text => .ok text
    | none => .error .typeError
  | none => .ok ""

end Mapping

section Translation

variable (builtins : Builtins)

def maxArrayLength : Nat := 2 ^ 32 - 1

/-- `open`, with the start that is yielded for every block that was opened -/
def openBlock (state : TranslateState) (kind : BlockKind) : Yields TranslateState :=
  if state.order.length < maxArrayLength then do
    Yields.emit (.blockStart state.order.length kind.name)
    pure { state with order := state.order ++ [{ kind }] }
  else Yields.throws .rangeError

def reachReasoning (state : TranslateState) : Yields (Nat × TranslateState) :=
  match state.reasoningBlock with
  | some place => pure (place, state)
  | none => do
    let opened ← openBlock state .reasoning
    pure (state.order.length, { opened with reasoningBlock := some state.order.length })

def reachText (state : TranslateState) : Yields (Nat × TranslateState) :=
  match state.textBlock with
  | some place => pure (place, state)
  | none => do
    let opened ← openBlock state .text
    pure (state.order.length, { opened with textBlock := some state.order.length })

def reachTool (state : TranslateState) (key : Option WireKey) : Yields (Nat × TranslateState) :=
  match key.bind fun key => state.toolBlocks.lookup key with
  | some place => pure (place, state)
  | none => do
    let opened ← openBlock state .toolCall
    let entry := key.map fun key => (key, state.order.length)
    pure (state.order.length, { opened with toolBlocks := opened.toolBlocks ++ entry.toList })

def onReasoning (state : TranslateState) (reasoning : String) : Yields TranslateState := do
  let (place, state) ← reachReasoning state
  Yields.emit (.reasoningDelta place reasoning)
  pure { state with
    order := state.order.modify place fun block => { block with text := block.text ++ reasoning } }

def onContent (state : TranslateState) (content : String) : Yields TranslateState := do
  let (place, state) ← reachText state
  Yields.emit (.textDelta place content)
  pure { state with
    order := state.order.modify place fun block => { block with text := block.text ++ content } }

def onCall (state : TranslateState) (call : Json) : Yields TranslateState := do
  let index ← Yields.lift (member call "index")
  let (place, state) ← reachTool state (WireKey.ofJson index)
  let block := (state.order[place]?).getD { kind := .toolCall }
  let id := call.get? "id"
  let name := optionalMember (call.get? "function") "name"
  Yields.lift (assertIdentityStable builtins block.callId id index "id")
  Yields.lift (assertIdentityStable builtins block.name name index "name")
  let fragment ← Yields.lift
    (argumentsText builtins (optionalMember (call.get? "function") "arguments"))
  let block := { block with
    callId := acceptIdentity block.callId id
    name := acceptIdentity block.name name
    text := block.text ++ fragment }
  Yields.emit (.toolCallDelta place (block.callId.getD "") block.name fragment)
  pure { state with order := state.order.set place block }

def whenText (value : Option Json) (step : TranslateState → String → Yields TranslateState)
    (state : TranslateState) : Yields TranslateState :=
  match nonEmptyText value with
  | some text => step state text
  | none => pure state

def onChoice (state : TranslateState) (choice : Json) : Yields TranslateState := do
  let delta ← Yields.lift (member choice "delta")
  let state ← whenText (optionalMember delta "reasoning_content") onReasoning state
  let state ← whenText (optionalMember delta "content") onContent state
  let calls ← Yields.lift (iterate (optionalMember delta "tool_calls"))
  let state ← Yields.forEach (onCall builtins) state calls
  match (choice.get? "finish_reason").bind Json.asString with
  | some reason => pure { state with pendingFinish := some (mapFinishReason builtins reason) }
  | none => pure state

def onPayload (state : TranslateState) (payload : String) : Yields TranslateState :=
  match builtins.parse payload with
  | none =>
    Yields.throws (.llm s!"malformed SSE payload: {builtins.slice payload 0 120}" "MALFORMED_RESPONSE")
  | some chunk => do
    let choices ← Yields.lift (member chunk "choices")
    let choices ← Yields.lift (iterate choices)
    let state ← Yields.forEach (onChoice builtins) state choices
    match chunk.get? "usage" with
    | some usage =>
      if isTruthy (some usage) then do
        let mapped ← Yields.lift (mapUsage builtins usage)
        pure { state with pendingUsage := some mapped }
      else pure state
    | none => pure state

def blockEnds (place : Nat) (blocks : List OpenBlock) : List StreamChunk :=
  (blocks.zipIdx place).map fun entry => .blockEnd entry.2 (closeBlock entry.1)

def finishReason (state : TranslateState) : FinishReason :=
  match state.pendingFinish.getD .stop with
  | .stop =>
    if state.order.isEmpty then
      .error (failure "model returned a completed response with no content" EMPTY_RESPONSE_CODE)
    else .stop
  | reason => reason

/-- What `[DONE]` makes the generator yield. -/
def lastChunks (state : TranslateState) : List StreamChunk :=
  blockEnds 0 state.order ++ (state.pendingUsage.map StreamChunk.usage).toList ++
    [.finish (finishReason state) none]

def translateFrom : TranslateState → List String → Yields Unit
  | _, [] => Yields.throws (.llm "SSE payload stream ended without [DONE]" "STREAM_CLOSED")
  | state, payload :: rest =>
    if payload = DONE then ⟨lastChunks state, .ok ()⟩
    else do
      let state ← onPayload builtins state payload
      translateFrom state rest

def translate (payloads : List String) : Yields Unit := translateFrom builtins {} payloads

end Translation

end DshKernel.DeepSeek
