import DshKernel.Lib.OrderedMap
import DshKernel.Session.Trace

/-!
# Crash repair

An interrupted log is closed with synthetic results for its unanswered calls and the missing step
and turn ends. The scan that finds them is not the trace validator; `Related` is what the two agree
on.
-/

namespace DshKernel.Session

open Js Lib List

def TOOL_OUTCOME_UNKNOWN : String := "TOOL_OUTCOME_UNKNOWN"

structure PendingCall where
  step : Number
  callSeq : Option Nat := none
  deriving Repr

/-- The locals of the scan of `interruptedTurnClosers`. -/
structure RepairScan where
  openTurn : Option Number
  openStep : Option Number
  pendingCalls : OrderedMap String PendingCall
  deriving Repr

def registerCalls (step : Number) :
    List ContentBlock → OrderedMap String PendingCall → OrderedMap String PendingCall
  | [], calls => calls
  | .toolCall id _ _ :: rest, calls => registerCalls step rest (calls.set id { step })
  | _ :: rest, calls => registerCalls step rest calls

def scanEvent (scan : RepairScan) (event : SessionEvent) : RepairScan :=
  match event.data with
  | .turnStart turn => ⟨some turn, none, .empty⟩
  | .turnEnd _ _ => ⟨none, none, .empty⟩
  | .stepStart _ step => { scan with openStep := some step }
  | .stepEnd _ _ => { scan with openStep := none, pendingCalls := .empty }
  | .assistantMessage data =>
    { scan with pendingCalls := registerCalls data.step data.message.content scan.pendingCalls }
  | .toolCall data =>
    match scan.pendingCalls.get? data.callId with
    | some call =>
      { scan with
        pendingCalls := scan.pendingCalls.set data.callId { call with callSeq := some event.seq } }
    | none => scan
  | .toolResult data =>
    { scan with pendingCalls := scan.pendingCalls.delete data.message.source.callId }
  | _ => scan

def scanEvents (events : List SessionEvent) : RepairScan :=
  events.foldl scanEvent ⟨none, none, .empty⟩

def interruptedText (started : Bool) : String :=
  if started then
    "The tool call was interrupted after it was recorded, but no result was durably recorded. "
      ++ "Its outcome is unknown. Decide whether to retry from the tool semantics: retry only if "
      ++ "the operation is read-only or idempotent; if it may have side effects, first verify "
      ++ "external state or ask the user. Do not retry blindly."
  else
    "The tool call was interrupted before the Harness recorded it as started. Retry it if it is "
      ++ "still needed."

def interruptedResult (openTurn time : Number) (entry : String × PendingCall) (seq : Nat) :
    SessionEvent where
  seq
  time
  data := .toolResult
    { turn := openTurn
      step := entry.2.step
      message :=
        { id := s!"interrupted-tool-result-{entry.1}-{seq}"
          block := ⟨entry.1, [.text (interruptedText entry.2.callSeq.isSome)], some true⟩
          source := ⟨entry.1⟩ }
      error := some <|
        if entry.2.callSeq.isSome then ⟨"ToolOutcomeUnknownError", TOOL_OUTCOME_UNKNOWN⟩
        else ⟨"ToolNotStartedError", TOOL_NOT_STARTED⟩ }
  surfaceOp := some (.str "append")
  sourceEventSeqs := entry.2.callSeq.map fun callSeq => .arr [.ofNat callSeq]

def stepCloser (openTurn time openStep : Number) (seq : Nat) : SessionEvent where
  seq
  time
  data := .stepEnd openTurn openStep

def turnCloser (openTurn time : Number) (seq : Nat) : SessionEvent where
  seq
  time
  data := .turnEnd openTurn .interrupted

def closerDrafts (openTurn time : Number) (scan : RepairScan) : List (Nat → SessionEvent) :=
  scan.pendingCalls.entries.map (interruptedResult openTurn time)
    ++ (scan.openStep.map (stepCloser openTurn time)).toList ++ [turnCloser openTurn time]

def pushClosers : Nat → List (Nat → SessionEvent) → Except String (List SessionEvent)
  | _, [] => .ok []
  | seq, draft :: rest =>
    match SessionSeq seq with
    | .error message => .error message
    | .ok closerSeq =>
      match pushClosers (seq + 1) rest with
      | .error message => .error message
      | .ok closers => .ok (draft closerSeq :: closers)

def interruptedTurnClosers (events : List SessionEvent) : Except String (List SessionEvent) :=
  let scan := scanEvents events
  match scan.openTurn, events.getLast? with
  | some openTurn, some last =>
    pushClosers (last.seq + 1) (closerDrafts openTurn last.time scan)
  | _, _ => .ok []

section Numbering

variable {seq : Nat} {drafts : List (Nat → SessionEvent)}

def numbered : Nat → List (Nat → SessionEvent) → List SessionEvent
  | _, [] => []
  | seq, draft :: rest => draft seq :: numbered (seq + 1) rest

theorem eq_numbered_of_pushClosers {closers : List SessionEvent}
    (h : pushClosers seq drafts = .ok closers) :
    closers = numbered seq drafts ∧ (drafts = [] ∨ seq + drafts.length ≤ maxSafeInteger + 1) := by
  induction drafts generalizing seq closers with
  | nil =>
    cases h
    exact ⟨rfl, Or.inl rfl⟩
  | cons draft rest ih =>
    simp only [pushClosers] at h
    by_cases hseq : seq ≤ maxSafeInteger
    · cases hrest : pushClosers (seq + 1) rest with
      | error message => simp [SessionSeq, hseq, hrest] at h
      | ok closers' =>
        simp only [SessionSeq, hseq, if_true, hrest, Except.ok.injEq] at h
        subst h
        obtain ⟨rfl, hroom⟩ := ih hrest
        refine ⟨rfl, Or.inr ?_⟩
        rcases hroom with rfl | hroom
        · simpa using hseq
        · rw [length_cons]
          omega
    · simp [SessionSeq, hseq] at h

theorem numbered_append (more : List (Nat → SessionEvent)) :
    numbered seq (drafts ++ more) = numbered seq drafts ++ numbered (seq + drafts.length) more := by
  induction drafts generalizing seq with
  | nil => simp [numbered]
  | cons draft rest ih =>
    simp only [cons_append, numbered, ih, length_cons]
    rw [Nat.add_right_comm, Nat.add_assoc seq]

end Numbering

section Agreement

/-- What the scan and the validator agree on after `n` accepted events: the boundaries, and
that a pending call belongs to the open step and was recorded if it has a sequence number. -/
structure Related (trace : SessionTrace) (scan : RepairScan) (n : Nat) : Prop where
  openTurn : scan.openTurn = trace.openTurn
  openStep : scan.openStep = trace.openStep
  lastSeq : trace.lastSeq = (n : Int) - 1
  turn : ∀ turn ∈ trace.openTurn, turn.strictEq turn = true
  step : ∀ step ∈ trace.openStep, step.strictEq step = true
  nested : trace.openTurn = none → trace.openStep = none
  pending : ∀ entry ∈ scan.pendingCalls.entries, isOpen trace.openStep entry.2.step = true ∧
    ∀ seq ∈ entry.2.callSeq, seq < n ∧ entry.1 ∈ trace.pendingCalls

variable {trace next : SessionTrace} {scan : RepairScan} {n : Nat} {event : SessionEvent}

theorem strictEq_self_of_strictEq {x y : Number} (h : x.strictEq y = true) :
    x.strictEq x = true := by
  apply Number.strictEq_self_of_ne_nan
  rintro rfl
  simp [Number.strictEq] at h

theorem related_nil : Related freshTrace (scanEvents []) 0 where
  openTurn := rfl
  openStep := rfl
  lastSeq := rfl
  turn := by simp [freshTrace]
  step := by simp [freshTrace]
  nested := fun _ => rfl
  pending := by simp [scanEvents]

theorem mem_registerCalls {step : Number} {content : List ContentBlock} :
    ∀ {calls : OrderedMap String PendingCall} {entry : String × PendingCall},
      entry ∈ (registerCalls step content calls).entries →
        entry.2 = { step } ∨ entry ∈ calls.entries := by
  induction content with
  | nil => exact fun h => Or.inr h
  | cons block rest ih =>
    intro calls entry h
    cases block with
    | toolCall id name arguments =>
      rcases ih h with hnew | hold
      · exact Or.inl hnew
      · rcases OrderedMap.mem_entries_set.mp hold with rfl | ⟨hold, -⟩
        · exact Or.inl rfl
        · exact Or.inr hold
    | text _ => exact ih h
    | reasoning _ => exact ih h
    | image _ => exact ih h
    | toolResult _ _ _ => exact ih h

theorem Related.keep (h : Related trace scan n) {pendingCalls : List String}
    (hpending : ∀ callId ∈ trace.pendingCalls, callId ∈ pendingCalls) :
    Related ⟨{ trace.toTraceScalars with lastSeq := n }, pendingCalls⟩ scan (n + 1) where
  openTurn := h.openTurn
  openStep := h.openStep
  lastSeq := by simp
  turn := h.turn
  step := h.step
  nested := h.nested
  pending := by
    intro entry hentry
    obtain ⟨hstep, hcalled⟩ := h.pending entry hentry
    refine ⟨hstep, ?_⟩
    intro seq hseq
    obtain ⟨hlt, hmem⟩ := hcalled seq hseq
    exact ⟨Nat.lt_succ_of_lt hlt, hpending _ hmem⟩

theorem isOpen_eq_true {openNumber : Option Number} {value : Number} :
    isOpen openNumber value = true ↔
      ∃ number, openNumber = some number ∧ number.strictEq value = true := by
  cases openNumber with
  | none => simp [isOpen]
  | some number => simp [isOpen]

theorem Related.scanEvent (h : Related trace scan n) (hseq : event.seq = n)
    (hstep : TraceStep trace event next) : Related next (scanEvent scan event) (n + 1) := by
  cases hstep with
  | @turnStart turn hdata hopen hturn =>
    simp only [Session.scanEvent, hdata, hseq]
    refine ⟨rfl, (h.nested hopen).symm, by simp, ?_, h.step, by simp, by simp⟩
    intro turn' hturn'
    cases hturn'
    exact strictEq_self_of_strictEq hturn
  | turnEnd hdata hopen hnone =>
    simp only [Session.scanEvent, hdata, hseq]
    exact ⟨rfl, hnone.symm, by simp, by simp, h.step, fun _ => hnone, by simp⟩
  | @stepStart turn step hdata hopen hnone hstep =>
    simp only [Session.scanEvent, hdata, hseq]
    refine ⟨h.openTurn, rfl, by simp, h.turn, ?_, ?_, ?_⟩
    · intro step' hstep'
      cases hstep'
      exact strictEq_self_of_strictEq hstep
    · intro hclosed
      have hclosed' : trace.openTurn = none := hclosed
      simp [isOpen, hclosed'] at hopen
    · intro entry hentry
      have hpending := (h.pending entry hentry).1
      simp [isOpen, hnone] at hpending
  | stepEnd hdata hturn hstep =>
    simp only [Session.scanEvent, hdata, hseq]
    exact ⟨h.openTurn, rfl, by simp, h.turn, by simp, fun _ => rfl, by simp⟩
  | assistantChunk hdata hturn hstep =>
    simp only [Session.scanEvent, hdata, hseq]
    exact h.keep fun _ hmem => hmem
  | @assistantMessage data hdata hturn hstep =>
    simp only [Session.scanEvent, hdata, hseq]
    refine { h.keep fun _ hmem => hmem with pending := ?_ }
    intro entry hentry
    rcases mem_registerCalls hentry with hnew | hold
    · rw [hnew]
      exact ⟨hstep, by simp⟩
    · exact (h.keep fun _ hmem => hmem).pending entry hold
  | @toolCall data hdata hturn hstep =>
    have hkeep : Related
        ⟨{ trace.toTraceScalars with lastSeq := n }, trace.pendingCalls.insert data.callId⟩
        scan (n + 1) := h.keep fun _ hmem => mem_insert_of_mem hmem
    simp only [Session.scanEvent, hdata, hseq]
    cases hget : scan.pendingCalls.get? data.callId with
    | none => exact hkeep
    | some call =>
      refine { hkeep with pending := ?_ }
      intro entry hentry
      rcases OrderedMap.mem_entries_set.mp hentry with rfl | ⟨hold, -⟩
      · obtain ⟨hcall, -⟩ := h.pending _ (OrderedMap.get?_eq_some.mp hget)
        refine ⟨hcall, ?_⟩
        intro seq hcallSeq
        cases hcallSeq
        exact ⟨Nat.lt_succ_self n, mem_insert_self⟩
      · exact hkeep.pending entry hold
  | rewrite hdata hop hopen =>
    have hkeep := h.keep fun _ hmem => hmem
    simp only [Session.scanEvent, hdata, hseq]
    refine { hkeep with pending := ?_ }
    intro entry hentry
    exact hkeep.pending entry (OrderedMap.mem_entries_delete.mp hentry).1
  | toolResult hdata hop hturn hstep hcall =>
    simp only [Session.scanEvent, hdata, hseq]
    refine ⟨h.openTurn, h.openStep, by simp, h.turn, h.step, h.nested, ?_⟩
    intro entry hentry
    obtain ⟨hold, hne⟩ := OrderedMap.mem_entries_delete.mp hentry
    obtain ⟨hpending, hcalled⟩ := h.pending entry hold
    refine ⟨hpending, ?_⟩
    intro seq hcallSeq
    obtain ⟨hlt, hmem⟩ := hcalled seq hcallSeq
    exact ⟨Nat.lt_succ_of_lt hlt, mem_filter.mpr ⟨hmem, by simpa using hne⟩⟩
  | request hdata hopen =>
    have hkeep := h.keep fun _ hmem => hmem
    rcases hdata with ⟨data, hdata⟩ | ⟨data, hdata⟩
    · simpa only [Session.scanEvent, hdata, hseq] using hkeep
    · simpa only [Session.scanEvent, hdata, hseq] using hkeep
  | unconstrained hdata =>
    have hkeep := h.keep fun _ hmem => hmem
    rcases hdata with ⟨message, hdata⟩ | hdata | ⟨type, data, hdata⟩
    · simpa only [Session.scanEvent, hdata, hseq] using hkeep
    · simpa only [Session.scanEvent, hdata, hseq] using hkeep
    · simpa only [Session.scanEvent, hdata, hseq] using hkeep

theorem scanEvents_snoc (log : List SessionEvent) (event : SessionEvent) :
    scanEvents (log ++ [event]) = scanEvent (scanEvents log) event := by
  simp [scanEvents]

theorem Traces.related {log : List SessionEvent} (h : Traces log trace) :
    (∀ i (hi : i < log.length), log[i].seq = i) →
      Related trace (scanEvents log) log.length := by
  induction h with
  | nil => exact fun _ => related_nil
  | @snoc log trace event transition _ hvalid ih =>
    intro hseq
    have hbefore : ∀ i (hi : i < log.length), log[i].seq = i := by
      intro i hi
      have hi' := hseq i (by rw [length_append]; omega)
      rwa [getElem_append_left hi] at hi'
    have hlast : event.seq = log.length := by
      simpa using hseq log.length (by simp)
    rw [scanEvents_snoc, length_append, length_singleton]
    exact (ih hbefore).scanEvent hlast (traceStep_of_validateEvent hvalid)

end Agreement

end DshKernel.Session
