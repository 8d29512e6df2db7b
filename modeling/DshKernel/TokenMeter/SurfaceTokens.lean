import DshKernel.Session.Derivations

/-!
# Tokens on the surface

The heuristic price of the surface, by position and as a running total in two projections that trust
the price which the event before a replacement declares. Token counts are exact integers.
-/

namespace DshKernel.TokenMeter

open Js Session List

/-- `string.length` -/
def utf16Length (s : String) : Nat :=
  (s.toList.map fun c => if c.val < 0x10000 then 1 else 2).sum

/-- `CHARS_PER_TOKEN` -/
def charsPerToken : Nat := 4

/-- `BLOCK_OVERHEAD` -/
def blockOverhead : Nat := 4

/-- `ROLE_OVERHEAD` -/
def roleOverhead : Nat := 4

/-- `Math.ceil(text.length / CHARS_PER_TOKEN)` -/
def textTokens (text : String) : Nat := (utf16Length text + (charsPerToken - 1)) / charsPerToken

def messageContent : Message → List ContentBlock
  | .user message => message.content
  | .assistant message => message.content
  | .toolResult message =>
    [.toolResult message.block.toolCallId message.block.content message.block.isError]

section Estimate

variable (stringify : Json → String)

def estimateStructuralBlock (block : ContentBlock) : Nat :=
  blockOverhead + textTokens (stringify block.toJson)

mutual

def estimateBlock : ContentBlock → Nat
  | .text text => textTokens text + blockOverhead
  | .reasoning text => textTokens text + blockOverhead
  | .toolCall _ name arguments => textTokens name + textTokens arguments + blockOverhead
  | .toolResult _ content _ => estimateContent content + blockOverhead
  | .image attachment => estimateStructuralBlock stringify (.image attachment)

def estimateContent : List ContentBlock → Nat
  | [] => 0
  | block :: rest => estimateBlock block + estimateContent rest

end

def estimateMessage (message : Message) : Nat :=
  estimateContent stringify (messageContent message) + roleOverhead

def estimateSystemTokens (header : EpochHeader) : Nat :=
  match header.system with
  | none => 0
  | some system => textTokens system + roleOverhead

def estimateToolsTokens (header : EpochHeader) : Nat :=
  match header.tools with
  | none => 0
  | some [] => 0
  | some tools => textTokens (stringify (.arr tools)) + blockOverhead

mutual

/-- `collectImages` on one block: the images and their structural price. -/
def blockImages : ContentBlock → List Json × Nat
  | .image attachment => ([attachment], estimateStructuralBlock stringify (.image attachment))
  | .toolResult _ content _ => collectImages content
  | _ => ([], 0)

def collectImages : List ContentBlock → List Json × Nat
  | [] => ([], 0)
  | block :: rest =>
    ((blockImages block).1 ++ (collectImages rest).1, (blockImages block).2 + (collectImages rest).2)

end

end Estimate

structure MeterSurfaceNode where
  seq : Nat
  heuristicTokens : Nat
  imageFreeTokens : Int
  images : List Json

inductive SurfaceTokenTarget where
  | append
  | range (startIdx endIdx : Nat)

structure SurfaceTokenPlan where
  tokens : Nat
  deltaTokens : Int
  node : MeterSurfaceNode
  target : SurfaceTokenTarget

/-- `surfaceTokens`: the sum over the nodes -/
def surfaceTokens (nodes : List MeterSurfaceNode) : Nat := (nodes.map (·.heuristicTokens)).sum

/-- `candidate.seq === value` -/
def seqIs (value : Option Json) (seq : Nat) : Bool :=
  match value with
  | some (.num n) => (Number.ofNat seq).strictEq n
  | _ => false

/-- A property of `surfaceOp`. -/
def surfaceOpField (event : SessionEvent) (key : String) : Option Json :=
  event.surfaceOp.bind (·.get? key)

/-- The price of the nodes from `startIdx` to `endIdx`. -/
def removedTokens (nodes : List MeterSurfaceNode) (startIdx endIdx : Nat) : Nat :=
  surfaceTokens ((nodes.take (endIdx + 1)).drop startIdx)

structure ShadowPriceClaim where
  start : Nat
  «end» : Nat
  tokens : Int
  deriving DecidableEq

structure SurfaceTokensFold where
  deltaTokens : Int
  claim : Option ShadowPriceClaim

def isMetering (event : SessionEvent) : Bool :=
  event.type == "compaction/summary" || event.type == "compaction/prune"

/-- The claim that a metering event arms; `none` when its payload is not of its declared type. -/
def shadowPriceClaim (data : Json) : Option ShadowPriceClaim :=
  match data.get? "shadowedRange", data.get? "shadowedTokenCount" with
  | some range, some (.num (.integral tokens)) =>
    match (range.get? "start").bind isEventSeq, (range.get? "end").bind isEventSeq with
    | some startSeq, some endSeq => some ⟨startSeq, endSeq, tokens.toInt⟩
    | _, _ => none
  | _, _ => none

structure ContextBreakdownState where
  systemTokens : Nat := 0
  toolsTokens : Nat := 0
  messageTokens : Int := 0
  claim : Option ShadowPriceClaim := none

structure ContextPressureState where
  contextWindow : Option Number := none
  pressureTokens : Option Number := none
  surfaceTokens : Int := 0
  sampledSurfaceTokens : Option Int := none
  claim : Option ShadowPriceClaim := none

/-- What the folds use of the JavaScript runtime: the text of a JSON value, and `+`. -/
structure Runtime where
  stringify : Json → String
  add : Number → Number → Number

section Folds

variable (R : Runtime)

def analyzeNode (seq : Nat) : Option Message → MeterSurfaceNode
  | none => ⟨seq, 0, 0, []⟩
  | some message =>
    let heuristicTokens := estimateMessage R.stringify message
    let images := collectImages R.stringify (messageContent message)
    ⟨seq, heuristicTokens, heuristicTokens - images.2, images.1⟩

def planSurfaceTokens (nodes : List MeterSurfaceNode) (event : SessionEvent) :
    Except String SurfaceTokenPlan :=
  let node := analyzeNode R event.seq (deriveEventMessage event)
  let tokens := node.heuristicTokens
  if event.surfaceOp.any isAppendOp then .ok ⟨tokens, tokens, node, .append⟩
  else
    match nodes.findIdx? fun candidate => seqIs (surfaceOpField event "start") candidate.seq,
      nodes.findIdx? fun candidate => seqIs (surfaceOpField event "end") candidate.seq with
    | some startIdx, some endIdx =>
      if endIdx < startIdx then
        .error s!"token surface: replace at seq {event.seq} has invalid current range"
      else
        .ok ⟨tokens, tokens - removedTokens nodes startIdx endIdx, node, .range startIdx endIdx⟩
    | _, _ => .error s!"token surface: replace at seq {event.seq} has invalid current range"

def commitSurfaceTokens (nodes : List MeterSurfaceNode) (plan : SurfaceTokenPlan) :
    List MeterSurfaceNode :=
  match plan.target with
  | .append => nodes ++ [plan.node]
  | .range startIdx endIdx => nodes.take startIdx ++ plan.node :: nodes.drop (endIdx + 1)

def meterEvent (nodes : List MeterSurfaceNode) (event : SessionEvent) :
    Except String (List MeterSurfaceNode) :=
  if isSurfaceEvent event then
    match planSurfaceTokens R nodes event with
    | .error message => .error message
    | .ok plan => .ok (commitSurfaceTokens nodes plan)
  else .ok nodes

def meterSurface (log : List SessionEvent) : Except String (List MeterSurfaceNode) :=
  log.foldlM (meterEvent R) []

/-- `foldSurfaceProjection` -/
def foldSurfaceProjection (claim : Option ShadowPriceClaim) (event : SessionEvent) :
    Except String SurfaceTokensFold :=
  if isMetering event then
    match shadowPriceClaim event.data.toJson with
    | none => .error "the metering event has no shadow price"
    | some claim => .ok ⟨0, some claim⟩
  else if !isSurfaceEvent event then .ok ⟨0, none⟩
  else
    let tokens := (analyzeNode R event.seq (deriveEventMessage event)).heuristicTokens
    if event.surfaceOp.any isAppendOp then .ok ⟨tokens, none⟩
    else
      match claim with
      | none => .ok ⟨0, none⟩
      | some claim =>
        if seqIs (surfaceOpField event "start") claim.start &&
            seqIs (surfaceOpField event "end") claim.end then .ok ⟨tokens - claim.tokens, none⟩
        else
          .error (s!"token surface: replace at seq {event.seq} has no adjacent shadow price "
            ++ s!"(armed claim covers {claim.start}-{claim.end})")

/-- `contextBreakdownProjectionDefinition.apply` -/
def applyContextBreakdown (state : ContextBreakdownState) (event : SessionEvent) :
    Except String ContextBreakdownState :=
  match foldSurfaceProjection R state.claim event with
  | .error message => .error message
  | .ok fold =>
    let header := match event.data with
      | .requestHeader data => some (canonicalHeader data.header)
      | _ => none
    .ok {
      systemTokens := (header.map estimateSystemTokens).getD state.systemTokens
      toolsTokens := (header.map (estimateToolsTokens R.stringify)).getD state.toolsTokens
      messageTokens := state.messageTokens + fold.deltaTokens
      claim := fold.claim }

/-- `pressureFrom` -/
def pressureFrom (usage : TokenUsage) : Number :=
  R.add (R.add usage.inputTokens (usage.cacheReadTokens.getD (.ofNat 0)))
    (usage.cacheWriteTokens.getD (.ofNat 0))

def chunkUsage (chunk : Json) : Option TokenUsage :=
  match chunk.get? "type", chunk.get? "usage" with
  | some (.str "usage"), some usage =>
    match (usage.get? "inputTokens").bind Json.asNumber,
      (usage.get? "outputTokens").bind Json.asNumber with
    | some inputTokens, some outputTokens =>
      some {
        inputTokens, outputTokens
        totalTokens := (usage.get? "totalTokens").bind Json.asNumber
        cacheReadTokens := (usage.get? "cacheReadTokens").bind Json.asNumber
        cacheWriteTokens := (usage.get? "cacheWriteTokens").bind Json.asNumber
        reasoningTokens := (usage.get? "reasoningTokens").bind Json.asNumber }
    | _, _ => none
  | _, _ => none

def usageOf (event : SessionEvent) : Option TokenUsage :=
  match event.data with
  | .assistantChunk _ _ chunk => chunkUsage chunk
  | .assistantMessage data => data.usage
  | _ => none

def sampleUsage (state : ContextPressureState) (event : SessionEvent) : ContextPressureState :=
  match usageOf event with
  | none => state
  | some usage =>
    { state with
      pressureTokens := some (pressureFrom R usage)
      sampledSurfaceTokens := some state.surfaceTokens }

/-- `contextPressureProjectionDefinition.apply` -/
def applyContextPressure (state : ContextPressureState) (event : SessionEvent) :
    Except String ContextPressureState :=
  match foldSurfaceProjection R state.claim event with
  | .error message => .error message
  | .ok fold =>
    let windowed := match event.data with
      | .requestContext context => { state with contextWindow := context.contextWindow }
      | _ => state
    let sampled := sampleUsage R windowed event
    .ok { sampled with
      surfaceTokens := sampled.surfaceTokens + fold.deltaTokens
      claim := fold.claim }

def foldContextBreakdown (log : List SessionEvent) : Except String ContextBreakdownState :=
  log.foldlM (applyContextBreakdown R) {}

def foldContextPressure (log : List SessionEvent) : Except String ContextPressureState :=
  log.foldlM (applyContextPressure R) {}

def Priced (before : List SessionEvent) (event : SessionEvent) : Prop :=
  ∃ earlier metering claim, before = earlier ++ [metering] ∧ isMetering metering = true ∧
    shadowPriceClaim metering.data.toJson = some claim ∧
    surfaceOpOf event = .ok (some (.replace claim.start claim.end)) ∧
    ∀ nodes startIdx endIdx, meterSurface R before = .ok nodes →
      (nodes.map (·.seq)).idxOf? claim.start = some startIdx →
      (nodes.map (·.seq)).idxOf? claim.end = some endIdx →
      claim.tokens = removedTokens nodes startIdx endIdx

structure Metered (log : List SessionEvent) : Prop where
  declared : ∀ event ∈ log, isMetering event = true →
    (shadowPriceClaim event.data.toJson).isSome = true
  priced : ∀ before event after, log = before ++ event :: after →
    isReplacementSurfaceEvent event = true → Priced R before event

end Folds

def armedClaim (log : List SessionEvent) : Option ShadowPriceClaim :=
  match log.getLast? with
  | some event => if isMetering event then shadowPriceClaim event.data.toJson else none
  | none => none

section Agreement

variable {R : Runtime} {log : List SessionEvent} {event : SessionEvent}
  {nodes : List MeterSurfaceNode}

theorem surfaceTokens_append (left right : List MeterSurfaceNode) :
    surfaceTokens (left ++ right) = surfaceTokens left + surfaceTokens right := by
  simp [surfaceTokens]

theorem surfaceTokens_cons (node : MeterSurfaceNode) (rest : List MeterSurfaceNode) :
    surfaceTokens (node :: rest) = node.heuristicTokens + surfaceTokens rest := by
  simp [surfaceTokens]

theorem surfaceTokens_split {startIdx endIdx : Nat} (h : startIdx ≤ endIdx) :
    surfaceTokens nodes = surfaceTokens (nodes.take startIdx) + removedTokens nodes startIdx endIdx +
      surfaceTokens (nodes.drop (endIdx + 1)) := by
  have htake : nodes.take startIdx ++ (nodes.take (endIdx + 1)).drop startIdx =
      nodes.take (endIdx + 1) := by
    have hsplit := take_append_drop startIdx (nodes.take (endIdx + 1))
    rwa [take_take, Nat.min_eq_left (by omega)] at hsplit
  calc surfaceTokens nodes
      = surfaceTokens (nodes.take (endIdx + 1) ++ nodes.drop (endIdx + 1)) := by
        rw [take_append_drop]
    _ = surfaceTokens (nodes.take (endIdx + 1)) + surfaceTokens (nodes.drop (endIdx + 1)) :=
        surfaceTokens_append _ _
    _ = surfaceTokens (nodes.take startIdx) + removedTokens nodes startIdx endIdx +
          surfaceTokens (nodes.drop (endIdx + 1)) := by
        rw [← htake, surfaceTokens_append, removedTokens]

theorem seq_analyzeNode (seq : Nat) (message : Option Message) : (analyzeNode R seq message).seq = seq := by
  cases message <;> rfl

variable {value : Json} {seq : Nat}

theorem eq_of_isEventSeq (h : isEventSeq value = some seq) : value = .num (.ofNat seq) := by
  unfold isEventSeq at h
  split at h
  · split at h
    · rename_i hz
      cases h
      rw [Number.ofNat, Int.toNat_of_nonneg hz.1]
    · cases h
  · cases h

theorem seqIs_of_isEventSeq (h : isEventSeq value = some seq) : seqIs (some value) seq = true := by
  rw [eq_of_isEventSeq h]
  simp [seqIs]

theorem findIdx?_seqIs (h : isEventSeq value = some seq) :
    (nodes.findIdx? fun candidate => seqIs (some value) candidate.seq) =
      (nodes.map (·.seq)).idxOf? seq := by
  rw [eq_of_isEventSeq h]
  rw [idxOf?, findIdx?_map]
  apply congrFun
  apply congrArg
  funext candidate
  simp [seqIs]

theorem isAppendOp_of_ok_append (h : surfaceOpOf event = .ok (some .append)) :
    isSurfaceEvent event = true ∧ event.surfaceOp.any isAppendOp = true := by
  rcases surfaceOpOf_cases h with ⟨hnone, -⟩ | ⟨helig, raw, hraw, hkind⟩
  · cases hnone
  · rcases hkind with ⟨-, happend⟩ | ⟨_, _, hreplace, -⟩
    · simp [isSurfaceEvent, helig, hraw, happend]
    · cases hreplace

theorem not_isSurfaceEvent_of_ok_none (h : surfaceOpOf event = .ok none) :
    isSurfaceEvent event = false := by
  rcases surfaceOpOf_cases h with ⟨-, helig, -⟩ | ⟨-, raw, -, hkind⟩
  · simp [isSurfaceEvent, helig]
  · rcases hkind with ⟨hcontra, -⟩ | ⟨_, _, hcontra, -⟩ <;> cases hcontra

theorem replace_fields {startSeq endSeq : Nat} (h : surfaceOpOf event = .ok (some (.replace startSeq endSeq))) :
    isSurfaceEvent event = true ∧ event.surfaceOp.any isAppendOp = false ∧
      ∃ startValue endValue, surfaceOpField event "start" = some startValue ∧
        surfaceOpField event "end" = some endValue ∧ isEventSeq startValue = some startSeq ∧
        isEventSeq endValue = some endSeq := by
  rcases surfaceOpOf_cases h with ⟨hnone, -⟩ | ⟨helig, raw, hraw, hkind⟩
  · cases hnone
  rcases hkind with ⟨hcontra, -⟩ | ⟨_, _, heq, happend, hreplace⟩
  · cases hcontra
  cases heq
  refine ⟨by simp [isSurfaceEvent, helig, hraw], by simp [hraw, happend], ?_⟩
  unfold isReplaceOp at hreplace
  split at hreplace
  · split at hreplace
    · split at hreplace
      · rename_i fields _ op startValue endValue hop hstart hend
        split at hreplace
        · split at hreplace
          · rename_i hstartSeq hendSeq
            cases hreplace
            refine ⟨startValue, endValue, ?_, ?_, hstartSeq, hendSeq⟩
            · simp [surfaceOpField, hraw, Json.get?, hstart]
            · simp [surfaceOpField, hraw, Json.get?, hend]
          · cases hreplace
        · cases hreplace
      · cases hreplace
    · cases hreplace
  · cases hreplace

theorem not_isMetering_of_isSurfaceEvent (h : isSurfaceEvent event = true) :
    isMetering event = false := by
  have helig : isSurfaceEligibleType event.type = true := by
    unfold isSurfaceEvent at h
    rw [Bool.and_eq_true] at h
    exact h.1
  unfold isMetering
  rw [Bool.or_eq_false_iff, beq_eq_false_iff_ne, beq_eq_false_iff_ne]
  constructor
  · intro heq
    rw [heq] at helig
    exact absurd helig (by decide)
  · intro heq
    rw [heq] at helig
    exact absurd helig (by decide)

@[simp] theorem armedClaim_nil : armedClaim [] = none := rfl

theorem armedClaim_concat (log : List SessionEvent) (event : SessionEvent) :
    armedClaim (log ++ [event]) =
      if isMetering event then shadowPriceClaim event.data.toJson else none := by
  simp [armedClaim]

theorem Metered.take (h : Metered R log) (n : Nat) : Metered R (log.take n) := by
  constructor
  · intro event hmem
    exact h.declared event (mem_of_mem_take hmem)
  · intro before event after heq
    apply h.priced before event (after ++ log.drop n)
    rw [← cons_append, ← append_assoc, ← heq, take_append_drop]

theorem Metered.of_concat (h : Metered R (log ++ [event])) : Metered R log := by
  have htake := h.take log.length
  rwa [take_left] at htake

variable {state : SurfaceFoldState}

/-- What one accepted event does: the priced surface keeps its seqs, and the bounded fold moves
by the difference of the two sums. -/
def StepAgrees (R : Runtime) (log : List SessionEvent) (nodes : List MeterSurfaceNode)
    (event : SessionEvent) (seqs : List Nat) : Prop :=
  ∃ nodes', meterEvent R nodes event = .ok nodes' ∧ nodes'.map (·.seq) = seqs ∧
    foldSurfaceProjection R (armedClaim log) event =
      .ok ⟨surfaceTokens nodes' - surfaceTokens nodes, armedClaim (log ++ [event])⟩

theorem stepAgrees_offSurface (hdeclared : isMetering event = true →
    (shadowPriceClaim event.data.toJson).isSome = true)
    (hop : surfaceOpOf event = .ok none) (hseqs : nodes.map (·.seq) = state.nodes) :
    StepAgrees R log nodes event state.nodes := by
  have hoff := not_isSurfaceEvent_of_ok_none hop
  refine ⟨nodes, by simp [meterEvent, hoff], hseqs, ?_⟩
  rw [armedClaim_concat, Int.sub_self]
  cases hmetering : isMetering event with
  | false => simp [foldSurfaceProjection, hmetering, hoff]
  | true =>
    obtain ⟨claim, hclaim⟩ := Option.isSome_iff_exists.mp (hdeclared hmetering)
    simp [foldSurfaceProjection, hmetering, hclaim]

theorem stepAgrees_append (hop : surfaceOpOf event = .ok (some .append))
    (hseqs : nodes.map (·.seq) = state.nodes) :
    StepAgrees R log nodes event (state.nodes ++ [event.seq]) := by
  obtain ⟨hsurface, happend⟩ := isAppendOp_of_ok_append hop
  have hmetering := not_isMetering_of_isSurfaceEvent hsurface
  refine ⟨nodes ++ [analyzeNode R event.seq (deriveEventMessage event)], ?_, ?_, ?_⟩
  · simp [meterEvent, hsurface, planSurfaceTokens, happend, commitSurfaceTokens]
  · simp [hseqs, seq_analyzeNode]
  · rw [armedClaim_concat, surfaceTokens_append, surfaceTokens_cons]
    have hdelta : ((surfaceTokens nodes +
        ((analyzeNode R event.seq (deriveEventMessage event)).heuristicTokens + surfaceTokens []) :
        Nat) : Int) - surfaceTokens nodes =
          (analyzeNode R event.seq (deriveEventMessage event)).heuristicTokens := by
      have hnil : surfaceTokens [] = 0 := rfl
      omega
    rw [hdelta]
    simp [foldSurfaceProjection, hmetering, hsurface, happend]

section Replacement

variable {startSeq endSeq : Nat} {range : SurfaceRange}

theorem meterEvent_replace (hseqs : nodes.map (·.seq) = state.nodes)
    (hop : surfaceOpOf event = .ok (some (.replace startSeq endSeq)))
    (hrange : replacementRange state startSeq endSeq = .ok range) :
    ∃ nodes', meterEvent R nodes event = .ok nodes' ∧
      nodes'.map (·.seq) =
        state.nodes.take range.startIdx ++ event.seq :: state.nodes.drop (range.endIdx + 1) ∧
      (surfaceTokens nodes' : Int) - surfaceTokens nodes =
        (analyzeNode R event.seq (deriveEventMessage event)).heuristicTokens -
          removedTokens nodes range.startIdx range.endIdx := by
  obtain ⟨hsurface, happend, startValue, endValue, hstart, hend, hstartSeq, hendSeq⟩ :=
    replace_fields hop
  obtain ⟨hstartIdx, hendIdx, hle, -⟩ := replacementRange_ok hrange
  rw [← hseqs, ← findIdx?_seqIs hstartSeq] at hstartIdx
  rw [← hseqs, ← findIdx?_seqIs hendSeq] at hendIdx
  let node := analyzeNode R event.seq (deriveEventMessage event)
  refine ⟨nodes.take range.startIdx ++ node :: nodes.drop (range.endIdx + 1), ?_, ?_, ?_⟩
  · simp [meterEvent, hsurface, planSurfaceTokens, happend, hstart, hend, hstartIdx, hendIdx,
      Nat.not_lt.mpr hle, commitSurfaceTokens, node]
  · simp [← hseqs, map_take, map_drop, seq_analyzeNode, node]
  · have hsplit := @surfaceTokens_split nodes _ _ hle
    rw [surfaceTokens_append, surfaceTokens_cons]
    show _ = (node.heuristicTokens : Int) - _
    omega

theorem stepAgrees_replace {claim : ShadowPriceClaim} (harmed : armedClaim log = some claim)
    (hseqs : nodes.map (·.seq) = state.nodes)
    (hop : surfaceOpOf event = .ok (some (.replace claim.start claim.end)))
    (hrange : replacementRange state claim.start claim.end = .ok range)
    (htokens : claim.tokens = removedTokens nodes range.startIdx range.endIdx) :
    StepAgrees R log nodes event
      (state.nodes.take range.startIdx ++ event.seq :: state.nodes.drop (range.endIdx + 1)) := by
  obtain ⟨hsurface, happend, startValue, endValue, hstart, hend, hstartSeq, hendSeq⟩ :=
    replace_fields hop
  have hmetering := not_isMetering_of_isSurfaceEvent hsurface
  obtain ⟨nodes', hmeter, hseqs', hdelta⟩ := @meterEvent_replace R _ _ _ _ _ _ hseqs hop hrange
  refine ⟨nodes', hmeter, hseqs', ?_⟩
  rw [hdelta, ← htokens, armedClaim_concat, harmed]
  simp [foldSurfaceProjection, hmetering, hsurface, happend, hstart, hend,
    seqIs_of_isEventSeq hstartSeq, seqIs_of_isEventSeq hendSeq]

theorem stepAgrees_of_priced (hpriced : Priced R log event)
    (hmeter : meterSurface R log = .ok nodes) (hseqs : nodes.map (·.seq) = state.nodes)
    (hop : surfaceOpOf event = .ok (some (.replace startSeq endSeq)))
    (hrange : replacementRange state startSeq endSeq = .ok range) :
    StepAgrees R log nodes event
      (state.nodes.take range.startIdx ++ event.seq :: state.nodes.drop (range.endIdx + 1)) := by
  obtain ⟨earlier, metering, claim, hlog, hisMetering, hclaim, hclaimOp, hprice⟩ := hpriced
  have harmed : armedClaim log = some claim := by
    rw [hlog, armedClaim_concat, hisMetering, if_pos rfl, hclaim]
  obtain ⟨hstartIdx, hendIdx, -, -⟩ := replacementRange_ok hrange
  rw [← hseqs] at hstartIdx hendIdx
  rw [hop] at hclaimOp
  cases hclaimOp
  exact stepAgrees_replace harmed hseqs hop hrange (hprice nodes _ _ hmeter hstartIdx hendIdx)

end Replacement

structure Agrees (R : Runtime) (log : List SessionEvent) (seqs : List Nat)
    (nodes : List MeterSurfaceNode) (breakdown : ContextBreakdownState)
    (pressure : ContextPressureState) : Prop where
  positional : meterSurface R log = .ok nodes
  foldsBreakdown : foldContextBreakdown R log = .ok breakdown
  foldsPressure : foldContextPressure R log = .ok pressure
  nodeSeqs : nodes.map (·.seq) = seqs
  messageTokens : breakdown.messageTokens = surfaceTokens nodes
  pressureTokens : pressure.surfaceTokens = surfaceTokens nodes
  breakdownClaim : breakdown.claim = armedClaim log
  pressureClaim : pressure.claim = armedClaim log

theorem stepAgrees_of_plan (hmetered : Metered R (log ++ [event]))
    (hmeter : meterSurface R log = .ok nodes) (hseqs : nodes.map (·.seq) = state.nodes)
    {plan : Option SurfacePlan} (hplan : planSurfaceEvent state event log.length log 0 = .ok plan) :
    StepAgrees R log nodes event (applySurfacePlan state plan).1.nodes := by
  obtain ⟨hseq, hcases⟩ := planSurfaceEvent_cases hplan
  rcases hcases with ⟨rfl, hop⟩ | ⟨rfl, hop, -⟩ | ⟨startSeq, endSeq, range, rfl, hop, hrange, -, -⟩
  · exact stepAgrees_offSurface (hmetered.declared event (by simp)) hop hseqs
  · rw [← hseq]
    exact stepAgrees_append hop hseqs
  · rw [← hseq]
    have hreplacement : isReplacementSurfaceEvent event = true := by
      obtain ⟨hsurface, happend, -⟩ := replace_fields hop
      simp [isReplacementSurfaceEvent, hsurface, happend]
    exact stepAgrees_of_priced (hmetered.priced log event [] rfl hreplacement) hmeter hseqs hop
      hrange

section Projections

variable {fold : SurfaceTokensFold}

theorem applyContextBreakdown_ok {breakdown : ContextBreakdownState}
    (h : foldSurfaceProjection R breakdown.claim event = .ok fold) :
    ∃ next, applyContextBreakdown R breakdown event = .ok next ∧
      next.messageTokens = breakdown.messageTokens + fold.deltaTokens ∧
      next.claim = fold.claim := by
  unfold applyContextBreakdown
  rw [h]
  exact ⟨_, rfl, rfl, rfl⟩

theorem surfaceTokens_sampleUsage (pressure : ContextPressureState) (event : SessionEvent) :
    (sampleUsage R pressure event).surfaceTokens = pressure.surfaceTokens := by
  unfold sampleUsage
  cases usageOf event <;> rfl

theorem applyContextPressure_ok {pressure : ContextPressureState}
    (h : foldSurfaceProjection R pressure.claim event = .ok fold) :
    ∃ next, applyContextPressure R pressure event = .ok next ∧
      next.surfaceTokens = pressure.surfaceTokens + fold.deltaTokens ∧
      next.claim = fold.claim := by
  unfold applyContextPressure
  rw [h]
  refine ⟨_, rfl, ?_, rfl⟩
  rw [surfaceTokens_sampleUsage]
  cases event.data <;> rfl

theorem foldlM_concat {α β : Type} {step : β → α → Except String β} {items : List α}
    {start state next : β} (h : items.foldlM step start = .ok state) {item : α}
    (hstep : step state item = .ok next) : (items ++ [item]).foldlM step start = .ok next := by
  rw [foldlM_append, h]
  exact (bind_pure (step state item)).trans hstep

end Projections

theorem Agrees.concat {seqs : List Nat} {breakdown : ContextBreakdownState}
    {pressure : ContextPressureState} (h : Agrees R log state.nodes nodes breakdown pressure)
    (hstep : StepAgrees R log nodes event seqs) :
    ∃ nodes breakdown pressure, Agrees R (log ++ [event]) seqs nodes breakdown pressure := by
  obtain ⟨nodes', hmeter, hseqs, hfold⟩ := hstep
  have hbreakdownFold := hfold
  rw [← h.breakdownClaim] at hbreakdownFold
  have hpressureFold := hfold
  rw [← h.pressureClaim] at hpressureFold
  obtain ⟨breakdown', hbreakdown, hmessages, hclaim⟩ := applyContextBreakdown_ok hbreakdownFold
  obtain ⟨pressure', hpressure, htokens, hclaim'⟩ := applyContextPressure_ok hpressureFold
  refine ⟨nodes', breakdown', pressure', {
    positional := foldlM_concat h.positional hmeter
    foldsBreakdown := foldlM_concat h.foldsBreakdown hbreakdown
    foldsPressure := foldlM_concat h.foldsPressure hpressure
    nodeSeqs := hseqs
    messageTokens := ?_
    pressureTokens := ?_
    breakdownClaim := hclaim
    pressureClaim := hclaim' }⟩
  · rw [hmessages, h.messageTokens]
    show (surfaceTokens nodes + (surfaceTokens nodes' - surfaceTokens nodes) : Int) = _
    omega
  · rw [htokens, h.pressureTokens]
    show (surfaceTokens nodes + (surfaceTokens nodes' - surfaceTokens nodes) : Int) = _
    omega

theorem exists_agrees {replacements : List SurfaceFoldReplacement}
    (h : Folds log state replacements) (hmetered : Metered R log) :
    ∃ nodes breakdown pressure, Agrees R log state.nodes nodes breakdown pressure := by
  induction h with
  | nil => exact ⟨[], {}, {}, ⟨rfl, rfl, rfl, rfl, rfl, rfl, rfl, rfl⟩⟩
  | @snoc log state replacements event plan _ _ hplan ih =>
    obtain ⟨nodes, breakdown, pressure, hagrees⟩ := ih hmetered.of_concat
    exact hagrees.concat
      (stepAgrees_of_plan hmetered hagrees.positional hagrees.nodeSeqs hplan)

end Agreement

/-- At every point of a metered log that the surface accepts, the two running totals are the sum
over the positional fold, whose nodes are those of `foldSurface`. -/
theorem metered_surface_agrees (R : Runtime) (log : List SessionEvent) (result : SurfaceFoldResult)
    (haccepted : foldSurface log = .ok result) (hmetered : Metered R log) (n : Nat) :
    ∃ surface nodes breakdown pressure,
      foldSurface (log.take n) = .ok surface ∧
      meterSurface R (log.take n) = .ok nodes ∧
      foldContextBreakdown R (log.take n) = .ok breakdown ∧
      foldContextPressure R (log.take n) = .ok pressure ∧
      nodes.map (·.seq) = surface.nodes ∧
      breakdown.messageTokens = surfaceTokens nodes ∧
      pressure.surfaceTokens = surfaceTokens nodes := by
  obtain ⟨state, hfolds, -⟩ := exists_folds_of_foldSurface haccepted
  obtain ⟨state', replacements', hprefix⟩ := hfolds.take n
  obtain ⟨nodes, breakdown, pressure, h⟩ := exists_agrees hprefix (hmetered.take n)
  exact ⟨_, nodes, breakdown, pressure, hprefix.foldSurface_eq, h.positional, h.foldsBreakdown,
    h.foldsPressure, h.nodeSeqs, h.messageTokens, h.pressureTokens⟩

def saidAt (seq : Nat) (text : String) (op : Json) (sources : Option Json) : SessionEvent where
  seq := seq
  time := .ofNat 0
  data := .userMessage ⟨s!"message-{seq}", [.text text], .user⟩
  surfaceOp := some op
  sourceEventSeqs := sources

def summarizedLog : List SessionEvent :=
  [saidAt 0 "Hello world" (.str "append") none,
    saidAt 1 "How are you?" (.str "append") none,
    { seq := 2
      time := .ofNat 0
      data := .extension ⟨"compaction/summary", by decide⟩ (.obj [
        ("shadowedRange", .obj [("start", .ofNat 0), ("end", .ofNat 1)]),
        ("shadowedTokenCount", .ofNat 22)]) },
    saidAt 3 "A greeting." (.obj [("op", .str "replace"), ("start", .ofNat 0), ("end", .ofNat 1)])
      (some (.arr [.ofNat 0, .ofNat 1]))]

def plainRuntime : Runtime where
  stringify _ := "null"
  add a _ := a

theorem metered_summarizedLog : Metered plainRuntime summarizedLog := by
  constructor
  · decide
  · intro before event after heq hreplacement
    rcases before with _ | ⟨first, _ | ⟨second, _ | ⟨third, before⟩⟩⟩
    · cases heq
      exact absurd hreplacement (by decide)
    · cases heq
      exact absurd hreplacement (by decide)
    · cases heq
      exact absurd hreplacement (by decide)
    · rcases before with _ | ⟨fourth, before⟩
      · cases heq
        refine ⟨[_, _], _, ⟨0, 1, 22⟩, rfl, rfl, rfl, rfl, ?_⟩
        intro nodes startIdx endIdx hmeter hstart hend
        cases hmeter
        cases hstart
        cases hend
        rfl
      · simp [summarizedLog] at heq

theorem metered_surface_agrees_summarizedLog :
    ∃ surface nodes breakdown pressure,
      foldSurface (summarizedLog.take 4) = .ok surface ∧
      meterSurface plainRuntime (summarizedLog.take 4) = .ok nodes ∧
      foldContextBreakdown plainRuntime (summarizedLog.take 4) = .ok breakdown ∧
      foldContextPressure plainRuntime (summarizedLog.take 4) = .ok pressure ∧
      nodes.map (·.seq) = surface.nodes ∧
      breakdown.messageTokens = surfaceTokens nodes ∧
      pressure.surfaceTokens = surfaceTokens nodes :=
  metered_surface_agrees plainRuntime summarizedLog ⟨[3], [⟨3, 0, 1, [0, 1]⟩]⟩ rfl
    metered_summarizedLog 4

end DshKernel.TokenMeter
