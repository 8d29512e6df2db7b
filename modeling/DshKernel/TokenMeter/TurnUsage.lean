import DshKernel.TokenMeter.SurfaceTokens
import DshKernel.Lib.OrderedMap

/-!
# The usage of one turn

The attempts of a completed turn, found by a machine over its durable events, and their exact sum.
An attempt opens with a step or a started retry, and its sample is the last usage before the next
one opens.
-/

namespace DshKernel.TokenMeter

open Js Session List

structure TurnTokenUsageRoute where
  provider : String
  model : String
  deriving DecidableEq, Repr

structure TurnTokenUsage where
  uncachedInputTokens : Integral
  outputTokens : Integral
  totalTokens : Integral
  cacheReadTokens : Option Integral
  cacheWriteTokens : Option Integral
  reasoningTokens : Option Integral
  routes : Option (List TurnTokenUsageRoute)
  deriving DecidableEq, Repr

structure NormalizedAttempt where
  inputTokens : Integral
  outputTokens : Integral
  totalTokens : Integral
  cacheReadTokens : Option Integral
  cacheWriteTokens : Option Integral
  reasoningTokens : Option Integral
  route : Option TurnTokenUsageRoute

inductive SettledBy where
  | message
  | retry
  deriving DecidableEq

inductive AttemptState where
  | idle
  | «open» (turn step : Number) (sample : Option TokenUsage)
  | finishClosed (turn step : Number)
  | settled (turn step : Number) («by» : SettledBy)

/-- `isCount`, with the integer that it narrows a number to. -/
def isCount : Number → Option Integral
  | .integral x => if x.isSafe = true ∧ 0 ≤ x.toInt then some x else none
  | _ => none

/-- `value !== undefined && !isCount(value)` fails the whole attempt. -/
def optionalCount : Option Number → Option (Option Integral)
  | none => some none
  | some value => (isCount value).map some

section Sums

variable (R : Rounding)

def safeSumFrom (total : Integral) : List Integral → Option Integral
  | [] => some total
  | value :: rest =>
    if (Integral.add R total value).isSafe then safeSumFrom (Integral.add R total value) rest
    else none

def safeSum (values : List Integral) : Option Integral := safeSumFrom R (.int 0) values

def messageRoute (message : AssistantMessage) : Option TurnTokenUsageRoute :=
  if message.source.provider ≠ "" ∧ message.source.model ≠ "" then
    some ⟨message.source.provider, message.source.model⟩
  else none

/-- `exactTotal` of an attempt, when the reported numbers do not contradict each other. -/
def exactTotal (totalTokens : Option Number) (outputTokens knownPrompt : Integral)
    (cacheReadTokens cacheWriteTokens : Option Integral) : Option Integral :=
  match totalTokens with
  | some totalTokens =>
    match isCount totalTokens with
    | none => none
    | some total =>
      match isCount (.integral (Integral.sub R total outputTokens)) with
      | none => none
      | some exactPrompt =>
        if exactPrompt.toInt < knownPrompt.toInt then none
        else if cacheReadTokens.isSome ∧ cacheWriteTokens.isSome ∧
            exactPrompt.strictEq knownPrompt = false then none
        else some total
  | none =>
    if cacheReadTokens.isNone ∨ cacheWriteTokens.isNone then none
    else safeSum R [knownPrompt, outputTokens]

def normalizeUsage (usage : TokenUsage) (route : Option TurnTokenUsageRoute) :
    Option NormalizedAttempt := do
  let inputTokens ← isCount usage.inputTokens
  let outputTokens ← isCount usage.outputTokens
  let cacheReadTokens ← optionalCount usage.cacheReadTokens
  let cacheWriteTokens ← optionalCount usage.cacheWriteTokens
  let reasoningTokens ← optionalCount usage.reasoningTokens
  if reasoningTokens.any fun reasoning => outputTokens.toInt < reasoning.toInt then none
  else
    let knownPrompt ←
      safeSum R (inputTokens :: (cacheReadTokens.toList ++ cacheWriteTokens.toList))
    let totalTokens ←
      exactTotal R usage.totalTokens outputTokens knownPrompt cacheReadTokens cacheWriteTokens
    some {
      inputTokens, outputTokens, totalTokens, cacheReadTokens, cacheWriteTokens, reasoningTokens
      route }

def sumIfEvery (bucket : NormalizedAttempt → Option Integral) (attempts : List NormalizedAttempt) :
    Option Integral :=
  match attempts.mapM bucket with
  | some values => safeSum R values
  | none => none

def routeKey (route : TurnTokenUsageRoute) : String := route.provider ++ "\x00" ++ route.model

def uniqueRoutes (routes : List TurnTokenUsageRoute) : List TurnTokenUsageRoute :=
  (routes.foldl (fun unique route => unique.set (routeKey route) route)
    (Lib.OrderedMap.empty : Lib.OrderedMap String TurnTokenUsageRoute)).entries.map Prod.snd

def aggregateAttempts (attempts : List NormalizedAttempt) : Option TurnTokenUsage :=
  if attempts.isEmpty then none
  else
    match safeSum R (attempts.map (·.inputTokens)), safeSum R (attempts.map (·.outputTokens)),
      safeSum R (attempts.map (·.totalTokens)) with
    | some inputTokens, some outputTokens, some totalTokens =>
      some {
        uncachedInputTokens := inputTokens
        outputTokens, totalTokens
        cacheReadTokens := sumIfEvery R (·.cacheReadTokens) attempts
        cacheWriteTokens := sumIfEvery R (·.cacheWriteTokens) attempts
        reasoningTokens := sumIfEvery R (·.reasoningTokens) attempts
        routes := (attempts.mapM NormalizedAttempt.route).map uniqueRoutes }
    | _, _, _ => none

end Sums

/-- `state.kind === 'idle'` -/
def AttemptState.isIdle : AttemptState → Bool
  | .idle => true
  | _ => false

/-- `state.kind === 'open'` -/
def AttemptState.isOpen : AttemptState → Bool
  | .open _ _ _ => true
  | _ => false

def AttemptState.place : AttemptState → Option (Number × Number)
  | .idle => none
  | .open turn step _ | .finishClosed turn step | .settled turn step _ => some (turn, step)

def sameAttempt (state : AttemptState) (turn step : Number) : Bool :=
  state.place.any fun place => place.1.strictEq turn && place.2.strictEq step

/-- The variables of `deriveTurnTokenUsage`; `invalid` has no state. -/
structure TurnFold where
  state : AttemptState := .idle
  attempts : List NormalizedAttempt := []
  turn : Option Number := none
  sawEnd : Bool := false

def retryPlace (data : Json) : Option (Number × Number) :=
  match (data.get? "turn").bind Json.asNumber, (data.get? "step").bind Json.asNumber with
  | some turn, some step => some (turn, step)
  | _, _ => none

def isUsageChunk (chunk : Json) : Bool :=
  match chunk.get? "type" with
  | some (.str "usage") => true
  | _ => false

/-- A `finish` chunk by an error or an abort. -/
def isFailedFinish (chunk : Json) : Bool :=
  match chunk.get? "type", (chunk.get? "reason").bind (·.get? "kind") with
  | some (.str "finish"), some (.str kind) => kind == "error" || kind == "aborted"
  | _, _ => false

section Turn

variable (R : Rounding)

def closeOpen (fold : TurnFold) (route : Option TurnTokenUsageRoute) :
    Option (List NormalizedAttempt) :=
  match fold.state with
  | .open _ _ (some sample) =>
    (normalizeUsage R sample route).map fun normalized => fold.attempts ++ [normalized]
  | _ => none

def attemptEvent (fold : TurnFold) (turn : Number) : EventData → Option TurnFold
  | .stepStart eventTurn step =>
    if eventTurn.strictEq turn && fold.state.isIdle then
      some { fold with state := .open turn step none }
    else none
  | .assistantChunk eventTurn step chunk =>
    if eventTurn.strictEq turn && sameAttempt fold.state eventTurn step then
      match fold.state with
      | .open openTurn openStep _ =>
        if isUsageChunk chunk then
          some { fold with state := .open openTurn openStep (chunkUsage chunk) }
        else if isFailedFinish chunk then
          (closeOpen R fold none).map fun attempts =>
            { fold with attempts, state := .finishClosed turn step }
        else some fold
      | _ => none
    else none
  | .assistantMessage data =>
    if data.turn.strictEq turn && sameAttempt fold.state data.turn data.step then
      match fold.state with
      | .open openTurn openStep sample =>
        let sampled := { fold with state := .open openTurn openStep (data.usage.or sample) }
        (closeOpen R sampled (messageRoute data.message)).map fun attempts =>
          { fold with attempts, state := .settled turn data.step .message }
      | _ => none
    else none
  | .stepEnd eventTurn step =>
    if eventTurn.strictEq turn && sameAttempt fold.state eventTurn step then
      match fold.state with
      | .open _ _ _ => (closeOpen R fold none).map fun attempts => { fold with attempts, state := .idle }
      | _ => some { fold with state := .idle }
    else none
  | .extension type data =>
    if type.val = "llm/retry-started" then
      match retryPlace data, fold.state with
      | some (eventTurn, step), .settled _ _ .retry =>
        if eventTurn.strictEq turn && sameAttempt fold.state eventTurn step then
          some { fold with state := .open turn step none }
        else none
      | _, _ => none
    else if type.val = "llm/retry" then
      match retryPlace data with
      | some (eventTurn, step) =>
        if eventTurn.strictEq turn && sameAttempt fold.state eventTurn step then
          match fold.state with
          | .open _ _ _ => (closeOpen R fold none).map fun attempts =>
            { fold with attempts, state := .settled turn step .retry }
          | .finishClosed _ _ => some { fold with state := .settled turn step .retry }
          | _ => none
        else none
      | none => none
    else some fold
  | _ => some fold

/-- One turn of the loop of `deriveTurnTokenUsage`. -/
def turnEvent (fold : TurnFold) (event : SessionEvent) : Option TurnFold :=
  match event.data, fold.turn with
  | .turnStart turn, none => if fold.state.isIdle then some { fold with turn := some turn } else none
  | .turnStart _, some _ => none
  | _, none => none
  | .turnEnd eventTurn _, some turn =>
    if eventTurn.strictEq turn && fold.state.isIdle && !fold.sawEnd then
      some { fold with sawEnd := true }
    else none
  | data, some turn => if fold.sawEnd then none else attemptEvent R fold turn data

def deriveTurnTokenUsage (events : List SessionEvent) : Option TurnTokenUsage :=
  match events.foldlM (turnEvent R) {} with
  | none => none
  | some fold =>
    if fold.sawEnd && fold.state.isIdle then aggregateAttempts R fold.attempts else none

end Turn

def opensAttempt (event : SessionEvent) : Bool :=
  match event.data with
  | .stepStart _ _ => true
  | .extension type _ => type.val == "llm/retry-started"
  | _ => false

def noteAttempt (samples : List (Option TokenUsage)) (event : SessionEvent) :
    List (Option TokenUsage) :=
  if opensAttempt event then samples ++ [none]
  else
    match usageOf event with
    | none => samples
    | some usage => samples.dropLast ++ [some usage]

def attemptSamples (events : List SessionEvent) : List (Option TokenUsage) :=
  events.foldl noteAttempt []

section Counts

variable {R : Rounding} {value : Number} {count : Integral}

theorem isCount_eq_some :
    isCount value = some count ↔
      value = .integral count ∧ count.isSafe = true ∧ 0 ≤ count.toInt := by
  constructor
  · intro h
    cases value with
    | integral x =>
      rw [isCount] at h
      split at h
      · rename_i hx
        cases h
        exact ⟨rfl, hx⟩
      · cases h
    | _ => cases h
  · rintro ⟨rfl, hcount⟩
    rw [isCount, if_pos hcount]

theorem optionalCount_eq_some {value : Option Number} {count : Option Integral} :
    optionalCount value = some count ↔
      value = count.map .integral ∧ ∀ x, count = some x → x.isSafe = true ∧ 0 ≤ x.toInt := by
  cases value with
  | none =>
    constructor
    · intro h
      cases h
      exact ⟨rfl, nofun⟩
    · rintro ⟨hvalue, -⟩
      rw [optionalCount, Option.map_eq_none_iff.mp hvalue.symm]
  | some value =>
    rw [optionalCount, Option.map_eq_some_iff]
    constructor
    · rintro ⟨x, hx, rfl⟩
      obtain ⟨rfl, hcount⟩ := isCount_eq_some.mp hx
      refine ⟨rfl, ?_⟩
      intro y hy
      cases hy
      exact hcount
    · rintro ⟨hvalue, hcount⟩
      obtain ⟨x, rfl, rfl⟩ := Option.map_eq_some_iff.mp hvalue.symm
      exact ⟨x, isCount_eq_some.mpr ⟨rfl, hcount x rfl⟩, rfl⟩

def total (values : List Integral) : Int := (values.map Integral.toInt).sum

@[simp] theorem total_nil : total [] = 0 := rfl

@[simp] theorem total_cons (value : Integral) (rest : List Integral) :
    total (value :: rest) = value.toInt + total rest := by
  simp [total]

variable {values : List Integral}

theorem total_nonneg (h : ∀ value ∈ values, 0 ≤ value.toInt) : 0 ≤ total values := by
  induction values with
  | nil => exact Int.le_refl 0
  | cons value rest ih =>
    have hvalue := h value mem_cons_self
    have hrest := ih fun other hmem => h other (mem_cons_of_mem _ hmem)
    rw [total_cons]
    omega

theorem safeSumFrom_eq {start : Integral} (hstart : start.isSafe = true) (hpos : 0 ≤ start.toInt)
    (hvalues : ∀ value ∈ values, value.isSafe = true ∧ 0 ≤ value.toInt) :
    ((safeSumFrom R start values).isSome = true ↔ start.toInt + total values ≤ maxSafeInteger) ∧
      ∀ sum, safeSumFrom R start values = some sum →
        sum.isSafe = true ∧ sum.toInt = start.toInt + total values := by
  induction values generalizing start with
  | nil =>
    rw [Integral.isSafe_iff] at hstart
    refine ⟨?_, ?_⟩
    · simp only [safeSumFrom, Option.isSome_some, total_nil, true_iff]
      omega
    · intro sum hsum
      cases hsum
      exact ⟨(Integral.isSafe_iff _).mpr hstart, by simp⟩
  | cons value rest ih =>
    obtain ⟨hsafe, hnonneg⟩ := hvalues value mem_cons_self
    have hrest : ∀ other ∈ rest, other.isSafe = true ∧ 0 ≤ other.toInt :=
      fun other hmem => hvalues other (mem_cons_of_mem _ hmem)
    have hrestNonneg := total_nonneg fun other hmem => (hrest other hmem).2
    have hiff := Integral.isSafe_add_iff R hstart hsafe
    rw [safeSumFrom, total_cons]
    by_cases hadd : (Integral.add R start value).isSafe = true
    · have hexact := Integral.toInt_add_of_isSafe R (hiff.mp hadd)
      rw [if_pos hadd]
      have htail := ih hadd (by omega) hrest
      rw [hexact, Int.add_assoc] at htail
      exact htail
    · rw [if_neg hadd]
      rw [hiff] at hadd
      refine ⟨?_, nofun⟩
      simp only [Option.isSome_none, Bool.false_eq_true, false_iff]
      omega

theorem safeSum_eq
    (hvalues : ∀ value ∈ values, value.isSafe = true ∧ 0 ≤ value.toInt) :
    ((safeSum R values).isSome = true ↔ total values ≤ maxSafeInteger) ∧
      ∀ sum, safeSum R values = some sum → sum.isSafe = true ∧ sum.toInt = total values := by
  have h := @safeSumFrom_eq R values (.int 0) (by decide) (Int.le_refl 0) hvalues
  rw [Integral.toInt_int, Int.zero_add] at h
  exact h

theorem isCount_or_of_mem_toList {first second : Option Integral} {x : Integral}
    (hfirst : ∀ y, first = some y → y.isSafe = true ∧ 0 ≤ y.toInt)
    (hsecond : ∀ y, second = some y → y.isSafe = true ∧ 0 ≤ y.toInt)
    (hmem : x ∈ first.toList ++ second.toList) : x.isSafe = true ∧ 0 ≤ x.toInt := by
  rcases mem_append.mp hmem with h | h
  · exact hfirst x (Option.mem_toList.mp h)
  · exact hsecond x (Option.mem_toList.mp h)

end Counts

def countOr (count : Option Integral) : Int := (count.map Integral.toInt).getD 0

theorem total_toList (count : Option Integral) (rest : List Integral) :
    total (count.toList ++ rest) = countOr count + total rest := by
  cases count with
  | none => simp [countOr]
  | some x => simp [countOr]

theorem countOr_nonneg {count : Option Integral}
    (h : ∀ x, count = some x → x.isSafe = true ∧ 0 ≤ x.toInt) : 0 ≤ countOr count := by
  cases count with
  | none => exact Int.le_refl 0
  | some x => exact (h x rfl).2

def sampleTotal (usage : TokenUsage) : Int :=
  match usage.totalTokens with
  | some totalTokens => totalTokens.toInt
  | none => usage.inputTokens.toInt + ((usage.cacheReadTokens.map Number.toInt).getD 0
      + (usage.cacheWriteTokens.map Number.toInt).getD 0) + usage.outputTokens.toInt

structure Normalizes (usage : TokenUsage) (attempt : NormalizedAttempt) : Prop where
  inputTokens : usage.inputTokens = .integral attempt.inputTokens
  outputTokens : usage.outputTokens = .integral attempt.outputTokens
  cacheReadTokens : usage.cacheReadTokens = attempt.cacheReadTokens.map .integral
  cacheWriteTokens : usage.cacheWriteTokens = attempt.cacheWriteTokens.map .integral
  reasoningTokens : usage.reasoningTokens = attempt.reasoningTokens.map .integral
  inputCount : attempt.inputTokens.isSafe = true ∧ 0 ≤ attempt.inputTokens.toInt
  outputCount : attempt.outputTokens.isSafe = true ∧ 0 ≤ attempt.outputTokens.toInt
  totalCount : attempt.totalTokens.isSafe = true ∧ 0 ≤ attempt.totalTokens.toInt
  cacheReadCount : ∀ x, attempt.cacheReadTokens = some x → x.isSafe = true ∧ 0 ≤ x.toInt
  cacheWriteCount : ∀ x, attempt.cacheWriteTokens = some x → x.isSafe = true ∧ 0 ≤ x.toInt
  reasoningCount : ∀ x, attempt.reasoningTokens = some x → x.isSafe = true ∧ 0 ≤ x.toInt
  reasoningLe : countOr attempt.reasoningTokens ≤ attempt.outputTokens.toInt
  promptLe : attempt.inputTokens.toInt + (countOr attempt.cacheReadTokens +
    countOr attempt.cacheWriteTokens) + attempt.outputTokens.toInt ≤ attempt.totalTokens.toInt
  totalTokens : attempt.totalTokens.toInt = sampleTotal usage

namespace Normalizes

variable {usage : TokenUsage} {attempt : NormalizedAttempt}

theorem cacheRead_le (h : Normalizes usage attempt) :
    countOr attempt.cacheReadTokens ≤ attempt.totalTokens.toInt := by
  have hprompt := h.promptLe
  have hinput := h.inputCount.2
  have houtput := h.outputCount.2
  have hwrite := countOr_nonneg h.cacheWriteCount
  omega

theorem cacheWrite_le (h : Normalizes usage attempt) :
    countOr attempt.cacheWriteTokens ≤ attempt.totalTokens.toInt := by
  have hprompt := h.promptLe
  have hinput := h.inputCount.2
  have houtput := h.outputCount.2
  have hread := countOr_nonneg h.cacheReadCount
  omega

end Normalizes

section Normalize

variable {R : Rounding} {usage : TokenUsage} {attempt : NormalizedAttempt}

theorem exactTotal_eq_some {totalTokens : Option Number} {output prompt sum : Integral}
    {cacheRead cacheWrite : Option Integral} (houtput : output.isSafe = true ∧ 0 ≤ output.toInt)
    (hprompt : prompt.isSafe = true ∧ 0 ≤ prompt.toInt)
    (h : exactTotal R totalTokens output prompt cacheRead cacheWrite = some sum) :
    sum.isSafe = true ∧ prompt.toInt + output.toInt ≤ sum.toInt ∧
      sum.toInt = (totalTokens.map Number.toInt).getD (prompt.toInt + output.toInt) := by
  unfold exactTotal at h
  cases totalTokens with
  | some totalTokens =>
    simp only at h
    cases htotal : isCount totalTokens with
    | none => simp [htotal] at h
    | some stated =>
      obtain ⟨rfl, hstated⟩ := isCount_eq_some.mp htotal
      simp only [htotal] at h
      cases hexact : isCount (.integral (Integral.sub R stated output)) with
      | none => simp [hexact] at h
      | some exactPrompt =>
        simp only [hexact] at h
        obtain ⟨heq, hcount⟩ := isCount_eq_some.mp hexact
        cases heq
        have hsub := Integral.toInt_sub_of_isSafe R
          ((Integral.isSafe_sub_iff R hstated.1 houtput.1).mp hcount.1)
        split at h
        · cases h
        · split at h
          · cases h
          · rename_i hle _
            cases h
            refine ⟨hstated.1, ?_, rfl⟩
            omega
  | none =>
    simp only at h
    split at h
    · cases h
    · have hvalues : ∀ value ∈ [prompt, output], value.isSafe = true ∧ 0 ≤ value.toInt := by
        intro value hmem
        simp only [mem_cons, not_mem_nil, or_false] at hmem
        rcases hmem with rfl | rfl
        · exact hprompt
        · exact houtput
      obtain ⟨hsafe, hsum⟩ := (safeSum_eq hvalues).2 sum h
      simp only [total_cons, total_nil, Int.add_zero] at hsum
      exact ⟨hsafe, by omega, hsum⟩

theorem normalizes_of_normalizeUsage {route : Option TurnTokenUsageRoute}
    (h : normalizeUsage R usage route = some attempt) : Normalizes usage attempt := by
  unfold normalizeUsage at h
  simp only [Option.bind_eq_bind, Option.bind_eq_some_iff] at h
  obtain ⟨input, hinput, output, houtput, cacheRead, hread, cacheWrite, hwrite, reasoning,
    hreasoning, h⟩ := h
  split at h
  · cases h
  rename_i hle
  simp only [Option.bind_eq_some_iff, Option.some.injEq] at h
  obtain ⟨prompt, hprompt, sum, hsum, rfl⟩ := h
  rw [isCount_eq_some] at hinput houtput
  rw [optionalCount_eq_some] at hread hwrite hreasoning
  have hreadNonneg := countOr_nonneg hread.2
  have hwriteNonneg := countOr_nonneg hwrite.2
  have hvalues : ∀ value ∈ input :: (cacheRead.toList ++ cacheWrite.toList),
      value.isSafe = true ∧ 0 ≤ value.toInt := by
    intro value hmem
    rcases mem_cons.mp hmem with rfl | hmem
    · exact hinput.2
    · exact isCount_or_of_mem_toList hread.2 hwrite.2 hmem
  obtain ⟨hpromptSafe, hpromptSum⟩ := (safeSum_eq hvalues).2 prompt hprompt
  have hcache : total (cacheRead.toList ++ cacheWrite.toList) =
      countOr cacheRead + countOr cacheWrite := by
    have hlast := total_toList cacheWrite []
    rw [append_nil] at hlast
    rw [total_toList, hlast, total_nil, Int.add_zero]
  rw [total_cons, hcache] at hpromptSum
  obtain ⟨hsumSafe, hsumLe, hsumEq⟩ :=
    exactTotal_eq_some houtput.2 ⟨hpromptSafe, by omega⟩ hsum
  exact {
    inputTokens := hinput.1
    outputTokens := houtput.1
    cacheReadTokens := hread.1
    cacheWriteTokens := hwrite.1
    reasoningTokens := hreasoning.1
    inputCount := hinput.2
    outputCount := houtput.2
    totalCount := ⟨hsumSafe, by simp only; omega⟩
    cacheReadCount := hread.2
    cacheWriteCount := hwrite.2
    reasoningCount := hreasoning.2
    reasoningLe := by
      cases reasoning with
      | none => exact houtput.2.2
      | some reasoning =>
        simp only [Option.any_some, decide_eq_true_eq] at hle
        simp only [countOr, Option.map_some, Option.getD_some]
        omega
    promptLe := by
      simp only
      omega
    totalTokens := by
      simp only [sampleTotal]
      cases hstated : usage.totalTokens with
      | some stated => simpa [hstated] using hsumEq
      | none =>
        rw [hstated, Option.map_none, Option.getD_none] at hsumEq
        rw [hinput.1, houtput.1, hread.1, hwrite.1, hsumEq, hpromptSum]
        simp [countOr, Number.toInt, Function.comp_def] }

end Normalize

def keepsPlace : EventData → Bool
  | .turnStart _ | .turnEnd _ _ | .stepStart _ _ | .stepEnd _ _ => false
  | _ => true

inductive Leaves (fold : TurnFold) (event : SessionEvent) : AttemptState → Prop where
  | stepEnd {turn step : Number} :
      event.data = .stepEnd turn step → sameAttempt fold.state turn step = true →
      Leaves fold event .idle
  | retry {turn fromTurn step : Number} {type : ExtensionType} {data : Json} :
      event.data = .extension type data → type.val = "llm/retry" → fold.turn = some fromTurn →
      turn.strictEq fromTurn = true → sameAttempt fold.state turn step = true →
      Leaves fold event (.settled fromTurn step .retry)

inductive TurnStep (R : Rounding) (fold : TurnFold) (event : SessionEvent) : TurnFold → Prop where
  | turnStart {turn : Number} :
      event.data = .turnStart turn → fold.turn = none → fold.state = .idle →
      TurnStep R fold event { fold with turn := some turn }
  | turnEnd {turn eventTurn : Number} {reason : TurnEndReason} :
      event.data = .turnEnd eventTurn reason → fold.turn = some turn → fold.state = .idle →
      TurnStep R fold event { fold with sawEnd := true }
  | stepStart {turn eventTurn step : Number} :
      event.data = .stepStart eventTurn step → fold.turn = some turn → fold.sawEnd = false →
      eventTurn.strictEq turn = true → fold.state = .idle →
      TurnStep R fold event { fold with state := .open turn step none }
  | retryStarted {turn eventTurn step openTurn openStep : Number} {type : ExtensionType}
      {data : Json} :
      event.data = .extension type data → type.val = "llm/retry-started" →
      retryPlace data = some (eventTurn, step) → fold.turn = some turn → fold.sawEnd = false →
      eventTurn.strictEq turn = true → fold.state = .settled openTurn openStep .retry →
      openTurn.strictEq eventTurn = true → openStep.strictEq step = true →
      TurnStep R fold event { fold with state := .open turn step none }
  | usageChunk {turn step openTurn openStep : Number} {sample : Option TokenUsage} {chunk : Json} :
      event.data = .assistantChunk turn step chunk → isUsageChunk chunk = true →
      fold.turn.isSome = true → fold.sawEnd = false →
      fold.state = .open openTurn openStep sample →
      TurnStep R fold event { fold with state := .open openTurn openStep (chunkUsage chunk) }
  | failedFinish {turn step openTurn openStep fromTurn : Number} {sample : TokenUsage}
      {chunk : Json} {attempt : NormalizedAttempt} :
      event.data = .assistantChunk turn step chunk → isUsageChunk chunk = false →
      fold.turn = some fromTurn → fold.sawEnd = false → turn.strictEq fromTurn = true →
      fold.state = .open openTurn openStep (some sample) → openTurn.strictEq turn = true →
      openStep.strictEq step = true → normalizeUsage R sample none = some attempt →
      TurnStep R fold event
        { fold with
          attempts := fold.attempts ++ [attempt], state := .finishClosed fromTurn step }
  | message {openTurn openStep fromTurn : Number} {sample : Option TokenUsage} {used : TokenUsage}
      {data : AssistantMessageData} {attempt : NormalizedAttempt} :
      event.data = .assistantMessage data → fold.turn = some fromTurn → fold.sawEnd = false →
      data.turn.strictEq fromTurn = true → fold.state = .open openTurn openStep sample →
      openTurn.strictEq data.turn = true → openStep.strictEq data.step = true →
      data.usage.or sample = some used →
      normalizeUsage R used (messageRoute data.message) = some attempt →
      TurnStep R fold event
        { fold with
          attempts := fold.attempts ++ [attempt]
          state := .settled fromTurn data.step .message }
  | closed {openTurn openStep : Number} {sample : TokenUsage} {attempt : NormalizedAttempt}
      {state : AttemptState} :
      fold.turn.isSome = true → fold.sawEnd = false →
      fold.state = .open openTurn openStep (some sample) →
      normalizeUsage R sample none = some attempt → Leaves fold event state →
      TurnStep R fold event { fold with attempts := fold.attempts ++ [attempt], state }
  | left {state : AttemptState} :
      fold.turn.isSome = true → fold.sawEnd = false →
      fold.state.isOpen = false → Leaves fold event state →
      TurnStep R fold event { fold with state }
  | other :
      fold.turn.isSome = true → fold.sawEnd = false → opensAttempt event = false →
      usageOf event = none → keepsPlace event.data = true →
      TurnStep R fold event fold

section Steps

variable {R : Rounding} {fold next : TurnFold} {event : SessionEvent}

variable {state : AttemptState} {eventTurn step turn : Number} {chunk : Json}

theorem AttemptState.eq_idle_of_isIdle (h : state.isIdle = true) : state = .idle := by
  cases state with
  | idle => rfl
  | _ => cases h

theorem AttemptState.isOpen_eq_false
    (h : ∀ turn step sample, state = .open turn step sample → False) : state.isOpen = false := by
  cases state with
  | «open» turn step sample => exact (h turn step sample rfl).elim
  | _ => rfl

theorem sameAttempt_open {openTurn openStep : Number} {sample : Option TokenUsage}
    (h : sameAttempt (.open openTurn openStep sample) turn step = true) :
    openTurn.strictEq turn = true ∧ openStep.strictEq step = true := by
  simpa [sameAttempt, AttemptState.place] using h

theorem chunkUsage_of_not_isUsageChunk (h : isUsageChunk chunk = false) :
    chunkUsage chunk = none := by
  unfold isUsageChunk at h
  unfold chunkUsage
  split at h
  · cases h
  · split
    · rename_i hne _ _ _ htype _
      exact absurd htype hne
    · rfl

theorem closeOpen_eq_some {route : Option TurnTokenUsageRoute} {attempts : List NormalizedAttempt}
    (h : closeOpen R fold route = some attempts) :
    ∃ turn step sample attempt, fold.state = .open turn step (some sample) ∧
      normalizeUsage R sample route = some attempt ∧ attempts = fold.attempts ++ [attempt] := by
  unfold closeOpen at h
  split at h
  · rename_i turn step sample hstate
    obtain ⟨attempt, hattempt, rfl⟩ := Option.map_eq_some_iff.mp h
    exact ⟨turn, step, sample, attempt, hstate, hattempt, rfl⟩
  · cases h

theorem turnStep_of_stepStart
    (hdata : event.data = .stepStart eventTurn step) (hturn : fold.turn = some turn)
    (hend : fold.sawEnd = false) (h : attemptEvent R fold turn (.stepStart eventTurn step) = some next) :
    TurnStep R fold event next := by
  simp only [attemptEvent] at h
  split at h
  · rename_i hcheck
    rw [Bool.and_eq_true] at hcheck
    cases h
    exact .stepStart hdata hturn hend hcheck.1 (AttemptState.eq_idle_of_isIdle hcheck.2)
  · cases h

theorem turnStep_of_assistantChunk
    (hdata : event.data = .assistantChunk eventTurn step chunk) (hturn : fold.turn = some turn)
    (hend : fold.sawEnd = false)
    (h : attemptEvent R fold turn (.assistantChunk eventTurn step chunk) = some next) :
    TurnStep R fold event next := by
  simp only [attemptEvent] at h
  split at h
  · rename_i hcheck
    rw [Bool.and_eq_true] at hcheck
    split at h
    · rename_i openTurn openStep sample hstate
      split at h
      · rename_i husage
        cases h
        exact .usageChunk hdata husage (by rw [hturn]; rfl) hend hstate
      · rename_i husage
        rw [Bool.not_eq_true] at husage
        split at h
        · obtain ⟨attempts, hclose, rfl⟩ := Option.map_eq_some_iff.mp h
          obtain ⟨openTurn', openStep', used, attempt, hopen, hattempt, rfl⟩ := closeOpen_eq_some hclose
          rw [hopen] at hcheck
          obtain ⟨hsameTurn, hsameStep⟩ := sameAttempt_open hcheck.2
          exact .failedFinish hdata husage hturn hend hcheck.1 hopen hsameTurn hsameStep hattempt
        · cases h
          refine .other (by rw [hturn]; rfl) hend ?_ ?_ ?_
          · rw [opensAttempt, hdata]
          · rw [usageOf, hdata]
            exact chunkUsage_of_not_isUsageChunk husage
          · rw [hdata]
            rfl
    · cases h
  · cases h

theorem turnStep_of_assistantMessage {data : AssistantMessageData}
    (hdata : event.data = .assistantMessage data) (hturn : fold.turn = some turn)
    (hend : fold.sawEnd = false)
    (h : attemptEvent R fold turn (.assistantMessage data) = some next) :
    TurnStep R fold event next := by
  simp only [attemptEvent] at h
  split at h
  · rename_i hcheck
    rw [Bool.and_eq_true] at hcheck
    split at h
    · rename_i openTurn openStep sample hstate
      obtain ⟨attempts, hclose, rfl⟩ := Option.map_eq_some_iff.mp h
      obtain ⟨_, _, used, attempt, hopen, hattempt, rfl⟩ := closeOpen_eq_some hclose
      injection hopen with _ _ hused
      rw [hstate] at hcheck
      obtain ⟨hsameTurn, hsameStep⟩ := sameAttempt_open hcheck.2
      exact .message hdata hturn hend hcheck.1 hstate hsameTurn hsameStep hused hattempt
    · cases h
  · cases h

theorem turnStep_of_stepEnd
    (hdata : event.data = .stepEnd eventTurn step) (hturn : fold.turn = some turn)
    (hend : fold.sawEnd = false) (h : attemptEvent R fold turn (.stepEnd eventTurn step) = some next) :
    TurnStep R fold event next := by
  have hsome : fold.turn.isSome = true := by rw [hturn]; rfl
  simp only [attemptEvent] at h
  split at h
  · rename_i hcheck
    rw [Bool.and_eq_true] at hcheck
    have hleaves : Leaves fold event .idle := .stepEnd hdata hcheck.2
    split at h
    · obtain ⟨attempts, hclose, rfl⟩ := Option.map_eq_some_iff.mp h
      obtain ⟨_, _, _, _, hopen, hattempt, rfl⟩ := closeOpen_eq_some hclose
      exact .closed hsome hend hopen hattempt hleaves
    · rename_i hstate
      cases h
      exact .left hsome hend (AttemptState.isOpen_eq_false hstate) hleaves
  · cases h

theorem turnStep_of_extension {type : ExtensionType} {data : Json}
    (hdata : event.data = .extension type data) (hturn : fold.turn = some turn)
    (hend : fold.sawEnd = false) (h : attemptEvent R fold turn (.extension type data) = some next) :
    TurnStep R fold event next := by
  have hsome : fold.turn.isSome = true := by rw [hturn]; rfl
  simp only [attemptEvent] at h
  split at h
  · rename_i htype
    split at h
    · rename_i eventTurn step openTurn openStep hplace hstate
      split at h
      · rename_i hcheck
        rw [Bool.and_eq_true, hstate] at hcheck
        cases h
        have hsame : openTurn.strictEq eventTurn = true ∧ openStep.strictEq step = true := by
          simpa [sameAttempt, AttemptState.place] using hcheck.2
        exact .retryStarted hdata htype hplace hturn hend hcheck.1 hstate hsame.1 hsame.2
      · cases h
    · cases h
  · rename_i hstarted
    split at h
    · rename_i htype
      split at h
      · rename_i eventTurn step hplace
        split at h
        · rename_i hcheck
          rw [Bool.and_eq_true] at hcheck
          have hleaves : Leaves fold event (.settled turn step .retry) :=
            .retry hdata htype hturn hcheck.1 hcheck.2
          split at h
          · obtain ⟨attempts, hclose, rfl⟩ := Option.map_eq_some_iff.mp h
            obtain ⟨_, _, _, _, hopen, hattempt, rfl⟩ := closeOpen_eq_some hclose
            exact .closed hsome hend hopen hattempt hleaves
          · rename_i hstate
            cases h
            exact .left hsome hend (by rw [hstate]; rfl) hleaves
          · cases h
        · cases h
      · cases h
    · cases h
      refine .other hsome hend ?_ ?_ ?_
      · rw [opensAttempt, hdata]
        simpa using hstarted
      · rw [usageOf, hdata]
      · rw [hdata]
        rfl

theorem turnStep_of_attemptEvent (hturn : fold.turn = some turn)
    (hend : fold.sawEnd = false) (hstart : ∀ started, event.data ≠ .turnStart started)
    (hends : ∀ ended reason, event.data ≠ .turnEnd ended reason)
    (h : attemptEvent R fold turn event.data = some next) : TurnStep R fold event next := by
  have hsome : fold.turn.isSome = true := by rw [hturn]; rfl
  cases hdata : event.data with
  | turnStart started => exact absurd hdata (hstart started)
  | turnEnd ended reason => exact absurd hdata (hends ended reason)
  | stepStart eventTurn step => exact turnStep_of_stepStart hdata hturn hend (hdata ▸ h)
  | stepEnd eventTurn step => exact turnStep_of_stepEnd hdata hturn hend (hdata ▸ h)
  | assistantChunk eventTurn step chunk =>
    exact turnStep_of_assistantChunk hdata hturn hend (hdata ▸ h)
  | assistantMessage data => exact turnStep_of_assistantMessage hdata hturn hend (hdata ▸ h)
  | extension type data => exact turnStep_of_extension hdata hturn hend (hdata ▸ h)
  | _ =>
    rw [hdata] at h
    cases h
    refine .other hsome hend ?_ ?_ ?_
    · rw [opensAttempt, hdata]
    · rw [usageOf, hdata]
    · rw [hdata]
      rfl

theorem turnStep_of_turnEvent (h : turnEvent R fold event = some next) :
    TurnStep R fold event next := by
  unfold turnEvent at h
  split at h
  · rename_i turn hdata hturn
    split at h
    · rename_i hidle
      cases h
      exact .turnStart hdata hturn (AttemptState.eq_idle_of_isIdle hidle)
    · cases h
  · cases h
  · cases h
  · rename_i eventTurn reason turn hdata hturn
    split at h
    · rename_i hcheck
      rw [Bool.and_eq_true, Bool.and_eq_true] at hcheck
      cases h
      exact .turnEnd hdata hturn (AttemptState.eq_idle_of_isIdle hcheck.1.2)
    · cases h
  · rename_i turn hturn hstart hends
    split at h
    · cases h
    · rename_i hend
      rw [Bool.not_eq_true] at hend
      exact turnStep_of_attemptEvent hturn hend hstart hends h

end Steps

section Attempts

variable {R : Rounding}

/-- The attempts that the machine has closed, each with its sample, and the one that it has open
are those of the events it has read. -/
structure Follows (samples : List (Option TokenUsage)) (fold : TurnFold)
    (closed : List (TokenUsage × NormalizedAttempt)) (last : List (Option TokenUsage)) : Prop where
  normalizes : ∀ pair ∈ closed, Normalizes pair.1 pair.2
  attempts : fold.attempts = closed.map Prod.snd
  samples : samples = closed.map (some ∘ Prod.fst) ++ last
  current : match fold.state with
    | .open _ _ sample => ∃ reported, last = [reported] ∧
      ∀ usage, sample = some usage → reported = some usage
    | _ => last = []

variable {samples : List (Option TokenUsage)} {fold next : TurnFold} {event : SessionEvent}
  {closed : List (TokenUsage × NormalizedAttempt)} {last : List (Option TokenUsage)}

theorem noteAttempt_of_opens (h : opensAttempt event = true) :
    noteAttempt samples event = samples ++ [none] := by
  rw [noteAttempt, if_pos h]

theorem noteAttempt_of_usage (hopens : opensAttempt event = false) {usage : TokenUsage}
    (h : usageOf event = some usage) (reported : Option TokenUsage) :
    noteAttempt (samples ++ [reported]) event = samples ++ [some usage] := by
  simp [noteAttempt, hopens, h]

theorem noteAttempt_of_none (hopens : opensAttempt event = false) (h : usageOf event = none) :
    noteAttempt samples event = samples := by
  simp [noteAttempt, hopens, h]

theorem Leaves.note {state : AttemptState} (h : Leaves fold event state) :
    noteAttempt samples event = samples ∧ state.isOpen = false := by
  cases h with
  | stepEnd hdata _ =>
    refine ⟨noteAttempt_of_none ?_ ?_, rfl⟩
    · simp [opensAttempt, hdata]
    · simp [usageOf, hdata]
  | retry hdata htype _ _ _ =>
    refine ⟨noteAttempt_of_none ?_ ?_, rfl⟩
    · simp [opensAttempt, hdata, htype]
    · simp [usageOf, hdata]

namespace Follows

theorem last_eq_nil (h : Follows samples fold closed last)
    (hstate : fold.state.isOpen = false) : last = [] := by
  have hcurrent := h.current
  split at hcurrent
  · rename_i hopen
    rw [hopen] at hstate
    cases hstate
  · exact hcurrent

theorem opens (h : Follows samples fold closed last) (hstate : fold.state.isOpen = false)
    (hopens : opensAttempt event = true) (turn step : Number) :
    Follows (noteAttempt samples event) { fold with state := .open turn step none }
      closed [none] where
  normalizes := h.normalizes
  attempts := h.attempts
  samples := by rw [noteAttempt_of_opens hopens, h.samples, h.last_eq_nil hstate, append_nil]
  current := by
    refine ⟨none, rfl, ?_⟩
    intro usage heq
    cases heq

theorem closes (hattempts : fold.attempts = closed.map Prod.snd)
    (hnormalizes : ∀ pair ∈ closed, Normalizes pair.1 pair.2) {usage : TokenUsage}
    {attempt : NormalizedAttempt} (hattempt : Normalizes usage attempt) {state : AttemptState}
    (hstate : state.isOpen = false) :
    Follows (closed.map (some ∘ Prod.fst) ++ [some usage])
      { fold with attempts := fold.attempts ++ [attempt], state }
      (closed ++ [(usage, attempt)]) [] where
  normalizes pair hmem := by
    rcases mem_append.mp hmem with hmem | hmem
    · exact hnormalizes pair hmem
    · cases mem_singleton.mp hmem
      exact hattempt
  attempts := by simp [hattempts]
  samples := by simp
  current := by
    cases state with
    | «open» turn step sample => cases hstate
    | _ => rfl

end Follows

theorem follows_turnEvent (h : Follows samples fold closed last)
    (hstep : TurnStep R fold event next) :
    ∃ closed last, Follows (noteAttempt samples event) next closed last := by
  cases hstep with
  | turnStart hdata _ _ =>
    rw [noteAttempt_of_none (by simp [opensAttempt, hdata]) (by simp [usageOf, hdata])]
    exact ⟨closed, last, h.normalizes, h.attempts, h.samples, h.current⟩
  | turnEnd hdata _ _ =>
    rw [noteAttempt_of_none (by simp [opensAttempt, hdata]) (by simp [usageOf, hdata])]
    exact ⟨closed, last, h.normalizes, h.attempts, h.samples, h.current⟩
  | stepStart hdata _ _ _ hidle =>
    exact ⟨closed, _, h.opens (by rw [hidle]; rfl) (by simp [opensAttempt, hdata]) _ _⟩
  | retryStarted hdata htype _ _ _ _ hsettled _ _ =>
    exact ⟨closed, _, h.opens (by rw [hsettled]; rfl) (by simp [opensAttempt, hdata, htype]) _ _⟩
  | @usageChunk _ _ _ _ sample chunk hdata _ _ _ hopen =>
    have hcurrent := h.current
    rw [hopen] at hcurrent
    obtain ⟨reported, rfl, -⟩ := hcurrent
    have hopens : opensAttempt event = false := by simp [opensAttempt, hdata]
    have husage : usageOf event = chunkUsage chunk := by simp [usageOf, hdata]
    cases hchunk : chunkUsage chunk with
    | none =>
      rw [noteAttempt_of_none hopens (husage.trans hchunk)]
      refine ⟨closed, _, h.normalizes, h.attempts, h.samples, reported, rfl, ?_⟩
      intro usage heq
      cases heq
    | some usage =>
      rw [h.samples, noteAttempt_of_usage hopens (husage.trans hchunk)]
      exact ⟨closed, _, h.normalizes, h.attempts, rfl, some usage, rfl, fun _ heq => heq⟩
  | failedFinish hdata husage _ _ _ hopen _ _ hattempt =>
    have hcurrent := h.current
    rw [hopen] at hcurrent
    obtain ⟨reported, rfl, hreported⟩ := hcurrent
    have hnone := chunkUsage_of_not_isUsageChunk husage
    rw [noteAttempt_of_none (by simp [opensAttempt, hdata]) (by simp [usageOf, hdata, hnone]),
      h.samples, hreported _ rfl]
    exact ⟨_, _, .closes h.attempts h.normalizes (normalizes_of_normalizeUsage hattempt) rfl⟩
  | @message openTurn openStep fromTurn sample used data attempt hdata _ _ _ hopen _ _ hused
      hattempt =>
    have hcurrent := h.current
    rw [hopen] at hcurrent
    obtain ⟨reported, rfl, hreported⟩ := hcurrent
    have hopens : opensAttempt event = false := by simp [opensAttempt, hdata]
    have husage : usageOf event = data.usage := by simp [usageOf, hdata]
    have hnote : noteAttempt samples event = closed.map (some ∘ Prod.fst) ++ [some used] := by
      cases hmessage : data.usage with
      | none =>
        rw [hmessage, Option.none_or] at hused
        rw [noteAttempt_of_none hopens (husage.trans hmessage), h.samples, hreported _ hused]
      | some usage =>
        rw [hmessage, Option.some_or, Option.some.injEq] at hused
        rw [h.samples, noteAttempt_of_usage hopens (husage.trans hmessage), hused]
    rw [hnote]
    exact ⟨_, _, .closes h.attempts h.normalizes (normalizes_of_normalizeUsage hattempt) rfl⟩
  | closed _ _ hopen hattempt hleaves =>
    have hcurrent := h.current
    rw [hopen] at hcurrent
    obtain ⟨reported, rfl, hreported⟩ := hcurrent
    obtain ⟨hnote, hstate⟩ := @Leaves.note samples _ _ _ hleaves
    rw [hnote, h.samples, hreported _ rfl]
    exact ⟨_, _, .closes h.attempts h.normalizes (normalizes_of_normalizeUsage hattempt) hstate⟩
  | @left state _ _ hstate hleaves =>
    obtain ⟨hnote, hleft⟩ := @Leaves.note samples _ _ _ hleaves
    rw [hnote]
    refine ⟨closed, last, h.normalizes, h.attempts, h.samples, ?_⟩
    cases state with
    | «open» turn step sample => cases hleft
    | _ => exact h.last_eq_nil hstate
  | other _ _ hopens husage _ =>
    rw [noteAttempt_of_none hopens husage]
    exact ⟨closed, last, h⟩

theorem follows_foldlM {events : List SessionEvent} (h : Follows samples fold closed last)
    (hfold : events.foldlM (turnEvent R) fold = some next) :
    ∃ closed last, Follows (events.foldl noteAttempt samples) next closed last := by
  induction events generalizing samples fold closed last with
  | nil =>
    cases hfold
    exact ⟨closed, last, h⟩
  | cons event rest ih =>
    rw [foldlM_cons, Option.bind_eq_bind, Option.bind_eq_some_iff] at hfold
    obtain ⟨mid, hmid, hrest⟩ := hfold
    obtain ⟨closed', last', hmidFollows⟩ := follows_turnEvent h (turnStep_of_turnEvent hmid)
    exact ih hmidFollows hrest

end Attempts

def Exact (sum : Integral) (values : List Int) : Prop := sum.isSafe = true ∧ sum.toInt = values.sum

def ExactBucket (bucket : TokenUsage → Option Number) (samples : List TokenUsage)
    (sum : Option Integral) : Prop :=
  (sum.isSome = true ↔ ∀ sample ∈ samples, (bucket sample).isSome = true) ∧
    ∀ count, sum = some count →
      Exact count (samples.map fun sample => ((bucket sample).map Number.toInt).getD 0)

structure Tallies (samples : List TokenUsage) (usage : TurnTokenUsage) : Prop where
  uncachedInputTokens :
    Exact usage.uncachedInputTokens (samples.map fun sample => sample.inputTokens.toInt)
  outputTokens : Exact usage.outputTokens (samples.map fun sample => sample.outputTokens.toInt)
  totalTokens : Exact usage.totalTokens (samples.map sampleTotal)
  cacheReadTokens : ExactBucket (·.cacheReadTokens) samples usage.cacheReadTokens
  cacheWriteTokens : ExactBucket (·.cacheWriteTokens) samples usage.cacheWriteTokens
  reasoningTokens : ExactBucket (·.reasoningTokens) samples usage.reasoningTokens

section Aggregate

variable {R : Rounding} {closed : List (TokenUsage × NormalizedAttempt)}

variable {α β : Type}

variable {items : List α} {f : α → Option β}

theorem mapM_eq_some_iff {values : List β} :
    items.mapM f = some values ↔ items.map f = values.map some := by
  induction items generalizing values with
  | nil =>
    constructor
    · intro h
      cases h
      rfl
    · intro h
      cases values with
      | nil => rfl
      | cons _ _ => cases h
  | cons item rest ih =>
    rw [mapM_cons]
    simp only [Option.bind_eq_bind, Option.bind_eq_some_iff, Option.pure_def, Option.some.injEq]
    constructor
    · rintro ⟨value, hvalue, tail, htail, rfl⟩
      rw [map_cons, map_cons, hvalue, ih.mp htail]
    · intro h
      cases values with
      | nil => cases h
      | cons value tail =>
        rw [map_cons, map_cons, cons.injEq] at h
        exact ⟨value, h.1, tail, ih.mpr h.2, rfl⟩

theorem mapM_isSome_iff :
    (items.mapM f).isSome = true ↔ ∀ item ∈ items, (f item).isSome = true := by
  induction items with
  | nil => simp
  | cons item rest ih =>
    rw [mapM_cons, forall_mem_cons, ← ih]
    cases f item with
    | none => simp
    | some value =>
      cases rest.mapM f with
      | none => simp
      | some values => simp

theorem exact_of_safeSum {count : NormalizedAttempt → Integral} (value : TokenUsage → Int)
    (hcount : ∀ pair ∈ closed, ((count pair.2).isSafe = true ∧ 0 ≤ (count pair.2).toInt) ∧
      (count pair.2).toInt = value pair.1) {sum : Integral}
    (h : safeSum R ((closed.map Prod.snd).map count) = some sum) :
    Exact sum ((closed.map Prod.fst).map value) ∧
      (closed.map fun pair => (count pair.2).toInt).sum ≤ maxSafeInteger := by
  have hvalues : ∀ x ∈ (closed.map Prod.snd).map count, x.isSafe = true ∧ 0 ≤ x.toInt := by
    intro x hmem
    simp only [map_map, mem_map] at hmem
    obtain ⟨pair, hpair, rfl⟩ := hmem
    exact (hcount pair hpair).1
  obtain ⟨hsome, hexact⟩ := @safeSum_eq R _ hvalues
  have htotal : total ((closed.map Prod.snd).map count) =
      (closed.map fun pair => (count pair.2).toInt).sum := by
    simp [total, Function.comp_def]
  have hle := hsome.mp (by rw [h]; rfl)
  obtain ⟨hsafe, hsum⟩ := hexact sum h
  rw [htotal] at hle hsum
  refine ⟨⟨hsafe, ?_⟩, hle⟩
  rw [hsum, map_map]
  congr 1
  apply map_congr_left
  intro pair hpair
  exact (hcount pair hpair).2

theorem sum_map_le {f g : α → Int} (h : ∀ item ∈ items, f item ≤ g item) :
    (items.map f).sum ≤ (items.map g).sum := by
  induction items with
  | nil => exact Int.le_refl _
  | cons item rest ih =>
    have hhead := h item mem_cons_self
    have htail := ih fun other hmem => h other (mem_cons_of_mem _ hmem)
    rw [map_cons, map_cons, sum_cons, sum_cons]
    omega

theorem exactBucket_of_sumIfEvery {count : NormalizedAttempt → Option Integral}
    {bucket : TokenUsage → Option Number} (bound : NormalizedAttempt → Int)
    (hbucket : ∀ pair ∈ closed, bucket pair.1 = (count pair.2).map .integral ∧
      (∀ x, count pair.2 = some x → x.isSafe = true ∧ 0 ≤ x.toInt) ∧
      countOr (count pair.2) ≤ bound pair.2)
    (hbound : (closed.map fun pair => bound pair.2).sum ≤ maxSafeInteger) :
    ExactBucket bucket (closed.map Prod.fst) (sumIfEvery R count (closed.map Prod.snd)) := by
  have hevery : ((closed.map Prod.snd).mapM count).isSome = true ↔
      ∀ sample ∈ closed.map Prod.fst, (bucket sample).isSome = true := by
    rw [mapM_isSome_iff, forall_mem_map, forall_mem_map]
    constructor
    · intro h pair hpair
      rw [(hbucket pair hpair).1, Option.isSome_map]
      exact h pair hpair
    · intro h pair hpair
      have hsome := h pair hpair
      rwa [(hbucket pair hpair).1, Option.isSome_map] at hsome
  unfold sumIfEvery
  cases hmap : (closed.map Prod.snd).mapM count with
  | none =>
    rw [hmap] at hevery
    refine ⟨hevery, ?_⟩
    intro x hx
    cases hx
  | some values =>
    rw [hmap] at hevery
    rw [mapM_eq_some_iff, map_map] at hmap
    have hvalues : ∀ x ∈ values, x.isSafe = true ∧ 0 ≤ x.toInt := by
      intro x hx
      have hmem : some x ∈ closed.map (count ∘ Prod.snd) := by
        rw [hmap]
        exact mem_map_of_mem hx
      obtain ⟨pair, hpair, heq⟩ := mem_map.mp hmem
      exact (hbucket pair hpair).2.1 x heq
    have htotal : total values = (closed.map fun pair => countOr (count pair.2)).sum := by
      have hcountOr := congrArg (map countOr) hmap
      rw [map_map, map_map] at hcountOr
      rw [total]
      exact congrArg sum hcountOr.symm
    have hle := sum_map_le fun pair hpair => (hbucket pair hpair).2.2
    obtain ⟨hsome, hexact⟩ := @safeSum_eq R _ hvalues
    refine ⟨?_, ?_⟩
    · rw [hsome, htotal, ← hevery]
      simp only [Option.isSome_some, iff_true]
      omega
    · intro x hx
      obtain ⟨hsafe, hsum⟩ := hexact x hx
      refine ⟨hsafe, ?_⟩
      rw [hsum, htotal, map_map]
      congr 1
      apply map_congr_left
      intro pair hpair
      rw [Function.comp_apply, (hbucket pair hpair).1, Option.map_map]
      rfl

theorem tallies_of_aggregateAttempts (hnormalizes : ∀ pair ∈ closed, Normalizes pair.1 pair.2)
    {usage : TurnTokenUsage} (h : aggregateAttempts R (closed.map Prod.snd) = some usage) :
    Tallies (closed.map Prod.fst) usage ∧ closed ≠ [] := by
  unfold aggregateAttempts at h
  split at h
  · cases h
  rename_i hne
  split at h
  · rename_i input output sum hinput houtput hsum
    cases h
    have hexactInput := exact_of_safeSum (fun sample => sample.inputTokens.toInt)
      (fun pair hpair => ⟨(hnormalizes pair hpair).inputCount,
        by rw [(hnormalizes pair hpair).inputTokens]; rfl⟩) hinput
    have hexactOutput := exact_of_safeSum (fun sample => sample.outputTokens.toInt)
      (fun pair hpair => ⟨(hnormalizes pair hpair).outputCount,
        by rw [(hnormalizes pair hpair).outputTokens]; rfl⟩) houtput
    have hexactTotal := exact_of_safeSum sampleTotal
      (fun pair hpair => ⟨(hnormalizes pair hpair).totalCount,
        (hnormalizes pair hpair).totalTokens⟩) hsum
    refine ⟨?_, by rintro rfl; exact hne rfl⟩
    exact {
      uncachedInputTokens := hexactInput.1
      outputTokens := hexactOutput.1
      totalTokens := hexactTotal.1
      cacheReadTokens := exactBucket_of_sumIfEvery (fun attempt => attempt.totalTokens.toInt)
        (fun pair hpair => ⟨(hnormalizes pair hpair).cacheReadTokens,
          (hnormalizes pair hpair).cacheReadCount, (hnormalizes pair hpair).cacheRead_le⟩)
        hexactTotal.2
      cacheWriteTokens := exactBucket_of_sumIfEvery (fun attempt => attempt.totalTokens.toInt)
        (fun pair hpair => ⟨(hnormalizes pair hpair).cacheWriteTokens,
          (hnormalizes pair hpair).cacheWriteCount, (hnormalizes pair hpair).cacheWrite_le⟩)
        hexactTotal.2
      reasoningTokens := exactBucket_of_sumIfEvery (fun attempt => attempt.outputTokens.toInt)
        (fun pair hpair => ⟨(hnormalizes pair hpair).reasoningTokens,
          (hnormalizes pair hpair).reasoningCount, (hnormalizes pair hpair).reasoningLe⟩)
        hexactOutput.2 }
  · cases h

theorem exists_closed_of_deriveTurnTokenUsage {events : List SessionEvent} {usage : TurnTokenUsage}
    (h : deriveTurnTokenUsage R events = some usage) :
    ∃ fold closed, events.foldlM (turnEvent R) {} = some fold ∧ fold.state = .idle ∧
      Follows (attemptSamples events) fold closed [] ∧
      aggregateAttempts R (closed.map Prod.snd) = some usage := by
  unfold deriveTurnTokenUsage at h
  cases hfold : events.foldlM (turnEvent R) {} with
  | none => simp [hfold] at h
  | some fold =>
    simp only [hfold] at h
    split at h
    · rename_i hend
      rw [Bool.and_eq_true] at hend
      have hidle := AttemptState.eq_idle_of_isIdle hend.2
      have hstart : Follows [] {} [] [] := ⟨by simp, rfl, rfl, rfl⟩
      obtain ⟨closed, last, hfollows⟩ := follows_foldlM hstart hfold
      have hlast := hfollows.last_eq_nil (by rw [hidle]; rfl)
      subst hlast
      refine ⟨fold, closed, rfl, hidle, hfollows, ?_⟩
      rw [← hfollows.attempts]
      exact h
    · cases h

end Aggregate

end DshKernel.TokenMeter
