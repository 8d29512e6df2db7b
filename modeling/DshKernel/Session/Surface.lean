import DshKernel.Session.Event

/-!
# The surface fold

The ordered view of the message-producing events. One event is first planned against
the current nodes, which is where every rule is checked, and the plan is then applied.
-/

namespace DshKernel.Session

open Js

def surfaceEventTypes : List String := ["user/message", "assistant/message", "tool/result"]

def isSurfaceEligibleType (type : String) : Bool := surfaceEventTypes.contains type

inductive SurfaceOp where
  | append
  | replace (startSeq endSeq : Nat)
  deriving DecidableEq, Repr

/-- `surfaceOp === 'append'` -/
def isAppendOp : Json → Bool
  | .str op => op == "append"
  | _ => false

def isSurfaceEvent (event : SessionEvent) : Bool :=
  isSurfaceEligibleType event.type && event.surfaceOp.isSome

def isAppendSurfaceEvent (event : SessionEvent) : Bool :=
  isSurfaceEvent event && event.surfaceOp.any isAppendOp

def isReplacementSurfaceEvent (event : SessionEvent) : Bool :=
  isSurfaceEvent event && !event.surfaceOp.any isAppendOp

def deriveEventMessage (event : SessionEvent) : Option Message :=
  match event.data with
  | .userMessage message => some (.user message)
  | .assistantMessage data =>
    if data.message.content.length = 0 then none else some (.assistant data.message)
  | .toolResult data => some (.toolResult data.message)
  | _ => none

structure SurfaceFoldReplacement where
  seq : Nat
  startSeq : Nat
  endSeq : Nat
  shadowedSeqs : List Nat
  deriving DecidableEq, Repr

structure SurfaceFoldResult where
  nodes : List Nat
  replacements : List SurfaceFoldReplacement
  deriving DecidableEq, Repr

structure SurfaceFoldState where
  nodes : List Nat
  replaceGeneration : Nat
  deriving DecidableEq, Repr

def createFoldState : SurfaceFoldState := ⟨[], 0⟩

structure SurfaceRange where
  startIdx : Nat
  endIdx : Nat
  shadowedSeqs : List Nat
  deriving DecidableEq, Repr

inductive SurfacePlan where
  | append (seq : Nat)
  | replace (seq startSeq endSeq : Nat) (range : SurfaceRange)
  deriving DecidableEq, Repr

/-- The value as an event sequence, when it is a non-negative safe integer other than `-0`. -/
def isEventSeq : Json → Option Nat
  | .num (.integral (.int z)) =>
    if 0 ≤ z ∧ z.toNat ≤ maxSafeInteger then some z.toNat else none
  | _ => none

def isReplaceOp : Json → Option SurfaceOp
  | .obj fields =>
    if fields.length = 3 then
      match fields.lookup "op", fields.lookup "start", fields.lookup "end" with
      | some (.str op), some startValue, some endValue =>
        if op = "replace" then
          match isEventSeq startValue, isEventSeq endValue with
          | some startSeq, some endSeq => some (.replace startSeq endSeq)
          | _, _ => none
        else none
      | _, _, _ => none
    else none
  | _ => none

def surfaceOpOf (event : SessionEvent) : Except String (Option SurfaceOp) :=
  if isSurfaceEligibleType event.type then
    match event.surfaceOp with
    | none =>
      .error s!"session event \"{event.type}\" is surface-eligible and requires a surfaceOp marker"
    | some op =>
      if isAppendOp op then .ok (some .append)
      else if !op.isObject || op.isArray then
        .error s!"session event \"{event.type}\" carries an invalid surfaceOp"
      else
        match isReplaceOp op with
        | none => .error s!"session event \"{event.type}\" carries an invalid replace surfaceOp"
        | some replaceOp => .ok (some replaceOp)
  else if event.surfaceOp.isSome then
    .error s!"session event \"{event.type}\" is not surface-eligible and cannot carry surfaceOp"
  else if event.sourceEventSeqs.isSome then
    .error s!"session event \"{event.type}\" is not surface-eligible and cannot carry sourceEventSeqs"
  else .ok none

/-- The loop of `assertProvenance` over the cited values. -/
def readSources (type : String) : List Json → Except String (List Nat)
  | [] => .ok []
  | source :: rest =>
    match isEventSeq source with
    | none => .error
        s!"session event \"{type}\" sourceEventSeqs must densely contain non-negative safe integers"
    | some seq =>
      match readSources type rest with
      | .error message => .error message
      | .ok seqs => .ok (seq :: seqs)

/-- The part of `assertProvenance` that reads `sourceEventSeqs`. -/
def citedSources (event : SessionEvent) : Except String (List Nat) :=
  match event.sourceEventSeqs with
  | none => .ok []
  | some (.arr raw) =>
    if raw.isEmpty && event.type != "assistant/message" then
      .error "sourceEventSeqs must not be empty except on assistant/message"
    else
      match readSources event.type raw with
      | .error message => .error message
      | .ok sources =>
        if ¬ sources.Nodup then .error "sourceEventSeqs must not contain duplicates"
        else
          match sources.find? (fun source => decide (event.seq ≤ source)) with
          | some source => .error
              s!"sourceEventSeqs must reference earlier events: {source} >= current seq {event.seq}"
          | none => .ok sources
  | some _ => .error s!"sourceEventSeqs on event at seq {event.seq} must be an array when present"

def assertProvenance (event : SessionEvent) (shadowedSeqs : List Nat) : Except String Unit :=
  match citedSources event with
  | .error message => .error message
  | .ok sources =>
    let missing := shadowedSeqs.filter (fun seq => decide (seq ∉ sources))
    if missing.isEmpty then .ok ()
    else
      let names := ", ".intercalate (missing.map toString)
      .error <| "surface replace: sourceEventSeqs must include every shadowed surface node; "
        ++ s!"missing {names}"

def replacementRange (state : SurfaceFoldState) (startSeq endSeq : Nat) :
    Except String SurfaceRange :=
  match state.nodes.idxOf? startSeq with
  | none => .error s!"surface replace: start seq {startSeq} not found in surface"
  | some startIdx =>
    match state.nodes.idxOf? endSeq with
    | none => .error s!"surface replace: end seq {endSeq} not found in surface"
    | some endIdx =>
      if endIdx < startIdx then
        .error <| s!"surface replace: start seq {startSeq} (index {startIdx}) is after "
          ++ s!"end seq {endSeq} (index {endIdx})"
      else .ok ⟨startIdx, endIdx, (state.nodes.take (endIdx + 1)).drop startIdx⟩

/-- `isDeepEqualJson`: structural equality with `===` on the leaves -/
def isDeepEqualJson : Json → Json → Bool := Json.equalBy Number.strictEq

def ToolResultData.withoutContent (data : ToolResultData) : Json :=
  let block := data.message.block
  data.toJsonWith <| messageToJson data.message.id "user"
    [.obj ([("type", .str "tool-result"), ("toolCallId", .str block.toolCallId),
      ("content", .null)] ++ optional "isError" (block.isError.map .bool))]
    data.message.source.toJson

/-- `events[seq - baseSeq]` -/
def eventAtSeq (events : List SessionEvent) (baseSeq seq : Nat) : Option SessionEvent :=
  if seq < baseSeq then none else events[seq - baseSeq]?

def assertToolResultRewrite (event : SessionEvent) (shadowedSeqs : List Nat)
    (events : List SessionEvent) (baseSeq : Nat) : Except String Unit :=
  match event.data with
  | .toolResult replacement =>
    match shadowedSeqs with
    | [originalSeq] =>
      match (eventAtSeq events baseSeq originalSeq).map SessionEvent.data with
      | some (.toolResult original) =>
        if isDeepEqualJson original.withoutContent replacement.withoutContent then .ok ()
        else .error "tool/result surface replacement may change only content"
      | _ => .error "tool/result surface replacement must target a current tool/result"
    | _ => .error "tool/result surface replacement must rewrite exactly one current node"
  | _ => .ok ()

def planSurfaceEvent (state : SurfaceFoldState) (event : SessionEvent) (expectedSeq : Nat)
    (events : List SessionEvent) (baseSeq : Nat) : Except String (Option SurfacePlan) :=
  if event.seq ≠ expectedSeq then
    .error s!"session event seq {event.seq} is not contiguous; expected {expectedSeq}"
  else
    match surfaceOpOf event with
    | .error message => .error message
    | .ok none => .ok none
    | .ok (some .append) =>
      match assertProvenance event [] with
      | .error message => .error message
      | .ok () => .ok (some (.append event.seq))
    | .ok (some (.replace startSeq endSeq)) =>
      match replacementRange state startSeq endSeq with
      | .error message => .error message
      | .ok range =>
        match assertProvenance event range.shadowedSeqs with
        | .error message => .error message
        | .ok () =>
          match assertToolResultRewrite event range.shadowedSeqs events baseSeq with
          | .error message => .error message
          | .ok () => .ok (some (.replace event.seq startSeq endSeq range))

def applySurfacePlan (state : SurfaceFoldState) :
    Option SurfacePlan → SurfaceFoldState × Option SurfaceFoldReplacement
  | none => (state, none)
  | some (.append seq) => ({ state with nodes := state.nodes ++ [seq] }, none)
  | some (.replace seq startSeq endSeq range) =>
    ({ nodes := state.nodes.take range.startIdx ++ seq :: state.nodes.drop (range.endIdx + 1)
       replaceGeneration := state.replaceGeneration + 1 },
      some ⟨seq, startSeq, endSeq, range.shadowedSeqs⟩)

def applySurfaceEvent (state : SurfaceFoldState) (event : SessionEvent) (expectedSeq : Nat)
    (events : List SessionEvent) (baseSeq : Nat) :
    Except String (SurfaceFoldState × Option SurfaceFoldReplacement) :=
  match planSurfaceEvent state event expectedSeq events baseSeq with
  | .error message => .error message
  | .ok plan => .ok (applySurfacePlan state plan)

/-- The loop of `foldSurface`, at position `index` of `events` with `rest` still to come. -/
def foldSurfaceLoop (events : List SessionEvent) :
    Nat → List SessionEvent → SurfaceFoldState → List SurfaceFoldReplacement →
      Except String (SurfaceFoldState × List SurfaceFoldReplacement)
  | _, [], state, replacements => .ok (state, replacements)
  | index, event :: rest, state, replacements =>
    match SessionSeq index with
    | .error message => .error message
    | .ok expectedSeq =>
      match applySurfaceEvent state event expectedSeq events 0 with
      | .error message => .error message
      | .ok (next, replacement) =>
        foldSurfaceLoop events (index + 1) rest next (replacements ++ replacement.toList)

def foldSurface (events : List SessionEvent) : Except String SurfaceFoldResult :=
  match foldSurfaceLoop events 0 events createFoldState [] with
  | .error message => .error message
  | .ok (state, replacements) => .ok ⟨state.nodes, replacements⟩

end DshKernel.Session
