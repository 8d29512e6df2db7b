import DshKernel.Session.Repair

/-!
# Repaired logs

The closers of an accepted log are accepted by the validator and by the surface fold, and
they leave no call of the open step without a result.
-/

namespace DshKernel.Session

open Js Lib List

section Closing

variable {trace : SessionTrace} {openTurn openStep time : Number} {seq : Nat}

theorem traceEvents_cons_of_step {next : SessionTrace} {event : SessionEvent}
    (hlt : trace.lastSeq < event.seq) (hstep : TraceStep trace event next)
    (rest : List SessionEvent) : traceEvents trace (event :: rest) = traceEvents next rest := by
  obtain ⟨transition, hvalid, rfl⟩ := validateEvent_of_traceStep hlt hstep
  simp only [traceEvents, hvalid]

theorem traceStep_interruptedResult {entry : String × PendingCall}
    (hturn : isOpen trace.openTurn openTurn = true)
    (hstep : isOpen trace.openStep entry.2.step = true)
    (hcalled : entry.2.callSeq.isSome = true → entry.1 ∈ trace.pendingCalls) :
    TraceStep trace (interruptedResult openTurn time entry seq)
      { trace with
        lastSeq := seq, pendingCalls := trace.pendingCalls.filter (· ≠ entry.1) } := by
  have hdata : ∃ data, (interruptedResult openTurn time entry seq).data = .toolResult data ∧
      data.turn = openTurn ∧ data.step = entry.2.step ∧ data.message.source.callId = entry.1 ∧
      (data.message.source.callId ∈ trace.pendingCalls ∨ data.isSyntheticNotStarted = true) := by
    refine ⟨_, rfl, rfl, rfl, rfl, ?_⟩
    cases hstarted : entry.2.callSeq.isSome with
    | true => exact Or.inl (hcalled hstarted)
    | false => exact Or.inr (by simp [ToolResultData.isSyntheticNotStarted])
  obtain ⟨data, hdata, rfl, hdataStep, hcallId, hcall⟩ := hdata
  rw [← hcallId]
  exact .toolResult hdata rfl hturn (by rwa [hdataStep]) hcall

theorem traceEvents_interruptedResults {entries : List (String × PendingCall)}
    (hnodup : (entries.map Prod.fst).Nodup) :
    ∀ {trace : SessionTrace} {seq : Nat}, trace.lastSeq < seq →
      isOpen trace.openTurn openTurn = true →
      (∀ entry ∈ entries, isOpen trace.openStep entry.2.step = true ∧
        (entry.2.callSeq.isSome = true → entry.1 ∈ trace.pendingCalls)) →
      ∃ closed : SessionTrace,
        traceEvents trace (numbered seq (entries.map (interruptedResult openTurn time))) =
            .ok closed ∧
          closed.openTurn = trace.openTurn ∧ closed.openStep = trace.openStep ∧
          closed.lastSeq < ((seq + entries.length : Nat) : Int) := by
  induction entries with
  | nil =>
    intro trace seq hlt hturn _
    exact ⟨trace, rfl, rfl, rfl, by simpa using hlt⟩
  | cons entry rest ih =>
    intro trace seq hlt hturn hpending
    rw [map_cons, nodup_cons] at hnodup
    obtain ⟨hfresh, hrest⟩ := hnodup
    obtain ⟨hstep, hcalled⟩ := hpending entry mem_cons_self
    have haccept := @traceStep_interruptedResult trace openTurn time seq entry hturn hstep hcalled
    have hlt' : ({ trace with
        lastSeq := (seq : Int)
        pendingCalls := trace.pendingCalls.filter (· ≠ entry.1) } : SessionTrace).lastSeq <
          ((seq + 1 : Nat) : Int) := by
      simp only
      omega
    obtain ⟨closed, hclosed, hopenTurn, hopenStep, hlast⟩ := ih hrest hlt' hturn (by
      intro other hother
      obtain ⟨hother', hcalled'⟩ := hpending other (mem_cons_of_mem _ hother)
      refine ⟨hother', fun hstarted => mem_filter.mpr ⟨hcalled' hstarted, ?_⟩⟩
      have hne : other.1 ≠ entry.1 := fun heq => hfresh (heq ▸ mem_map_of_mem hother)
      simpa using hne)
    refine ⟨closed, ?_, hopenTurn, hopenStep, ?_⟩
    · rw [map_cons, numbered, traceEvents_cons_of_step hlt haccept]
      exact hclosed
    · rw [length_cons]
      omega

theorem traceEvents_turnCloser (hlt : trace.lastSeq < seq)
    (hturn : isOpen trace.openTurn openTurn = true) (hnone : trace.openStep = none) :
    ∃ closed : SessionTrace, traceEvents trace [turnCloser openTurn time seq] = .ok closed ∧
      closed.openTurn = none ∧ closed.openStep = none := by
  have hend : TraceStep trace (turnCloser openTurn time seq) _ := .turnEnd rfl hturn hnone
  rw [traceEvents_cons_of_step hlt hend]
  exact ⟨_, rfl, rfl, hnone⟩

theorem traceEvents_boundaries {step : Option Number} (hlt : trace.lastSeq < seq)
    (hturn : isOpen trace.openTurn openTurn = true) (hopen : trace.openStep = step)
    (hself : ∀ openStep ∈ step, openStep.strictEq openStep = true) :
    ∃ closed : SessionTrace,
      traceEvents trace (numbered seq ((step.map (stepCloser openTurn time)).toList ++
          [turnCloser openTurn time])) = .ok closed ∧
        closed.openTurn = none ∧ closed.openStep = none := by
  cases step with
  | none =>
    simp only [Option.map_none, Option.toList_none, nil_append, numbered]
    exact traceEvents_turnCloser hlt hturn hopen
  | some openStep =>
    have hstep : isOpen trace.openStep openStep = true :=
      isOpen_eq_true.mpr ⟨openStep, hopen, hself openStep rfl⟩
    have hend : TraceStep trace (stepCloser openTurn time openStep seq) _ :=
      .stepEnd rfl hturn hstep
    simp only [Option.map_some, Option.toList_some, cons_append, nil_append, numbered]
    rw [traceEvents_cons_of_step hlt hend]
    refine traceEvents_turnCloser ?_ hturn rfl
    simp only [stepCloser]
    omega

theorem traceEvents_closers {scan : RepairScan} (h : Related trace scan seq)
    (hopen : scan.openTurn = some openTurn) :
    ∃ closed : SessionTrace,
      traceEvents trace (numbered seq (closerDrafts openTurn time scan)) = .ok closed ∧
        closed.openTurn = none ∧ closed.openStep = none := by
  have hlt : trace.lastSeq < seq := by
    rw [h.lastSeq]
    omega
  have hopenTurn : trace.openTurn = some openTurn := by rw [← h.openTurn, hopen]
  have hturn : isOpen trace.openTurn openTurn = true :=
    isOpen_eq_true.mpr ⟨openTurn, hopenTurn, h.turn openTurn hopenTurn⟩
  obtain ⟨answered, hanswered, hturn', hstep', hlast⟩ :=
    @traceEvents_interruptedResults openTurn time _ scan.pendingCalls.nodup trace seq hlt hturn (by
      intro entry hentry
      obtain ⟨hstep, hcalled⟩ := h.pending entry hentry
      refine ⟨hstep, fun hstarted => ?_⟩
      obtain ⟨callSeq, hcallSeq⟩ := Option.isSome_iff_exists.mp hstarted
      exact (hcalled callSeq hcallSeq).2)
  rw [closerDrafts, append_assoc, numbered_append, traceEvents_append, hanswered,
    length_map]
  refine traceEvents_boundaries hlast (by rwa [hturn']) ?_ ?_
  · rw [hstep', h.openStep]
  · rw [h.openStep]
    exact h.step

end Closing

section Surface

variable {openTurn time : Number} {scan : RepairScan} {n : Nat}

end Surface

section Answers

variable {trace next : SessionTrace} {scan : RepairScan} {event : SessionEvent} {callId : String}

def IsResultFor (callId : String) (event : SessionEvent) : Prop :=
  ∃ data, event.data = .toolResult data ∧ data.message.source.callId = callId

structure Waits (callId : String) (trace : SessionTrace) (scan : RepairScan) : Prop where
  openTurn : trace.openTurn ≠ none
  openStep : trace.openStep ≠ none
  pending : ∃ call, (callId, call) ∈ scan.pendingCalls.entries

theorem exists_mem_set {calls : OrderedMap String PendingCall} {key : String}
    {value : PendingCall} (h : ∃ call, (callId, call) ∈ calls.entries) :
    ∃ call, (callId, call) ∈ (calls.set key value).entries := by
  obtain ⟨call, hcall⟩ := h
  by_cases heq : callId = key
  · subst heq
    exact ⟨value, OrderedMap.mem_entries_set.mpr (Or.inl rfl)⟩
  · exact ⟨call, OrderedMap.mem_entries_set.mpr (Or.inr ⟨hcall, heq⟩)⟩

theorem exists_mem_registerCalls {step : Number} {content : List ContentBlock} :
    ∀ {calls : OrderedMap String PendingCall},
      ((∃ name arguments, .toolCall callId name arguments ∈ content) ∨
        ∃ call, (callId, call) ∈ calls.entries) →
      ∃ call, (callId, call) ∈ (registerCalls step content calls).entries := by
  induction content with
  | nil =>
    rintro calls (⟨name, arguments, hblock⟩ | h)
    · simp at hblock
    · exact h
  | cons block rest ih =>
    intro calls h
    have hrest : ∀ {calls : OrderedMap String PendingCall},
        (∃ name arguments, .toolCall callId name arguments ∈ rest) →
          ∃ call, (callId, call) ∈ (registerCalls step rest calls).entries := fun h => ih (.inl h)
    have hother : (∀ id name arguments, block ≠ .toolCall id name arguments) →
        ∃ call, (callId, call) ∈ (registerCalls step rest calls).entries := by
      intro hne
      rcases h with ⟨name, arguments, hblock⟩ | h
      · rcases mem_cons.mp hblock with heq | hblock
        · exact absurd heq.symm (hne callId name arguments)
        · exact hrest ⟨name, arguments, hblock⟩
      · exact ih (.inr h)
    cases block with
    | toolCall id name arguments =>
      simp only [registerCalls]
      rcases h with ⟨name', arguments', hblock⟩ | h
      · rcases mem_cons.mp hblock with heq | hblock
        · cases heq
          exact ih (.inr ⟨_, OrderedMap.mem_entries_set.mpr (Or.inl rfl)⟩)
        · exact hrest ⟨name', arguments', hblock⟩
      · exact ih (.inr (exists_mem_set h))
    | text _ => exact hother (by simp)
    | reasoning _ => exact hother (by simp)
    | image _ => exact hother (by simp)
    | toolResult _ _ _ => exact hother (by simp)

theorem Waits.scanEvent (h : Waits callId trace scan) (hstep : TraceStep trace event next)
    (hend : event.type ≠ "step/end") :
    IsResultFor callId event ∨ Waits callId next (scanEvent scan event) := by
  cases hstep with
  | turnStart hdata hopen => exact absurd hopen h.openTurn
  | turnEnd hdata hopen hnone => exact absurd hnone h.openStep
  | stepStart hdata hopen hnone => exact absurd hnone h.openStep
  | stepEnd hdata => exact absurd (by simp [SessionEvent.type, hdata, EventData.type]) hend
  | assistantChunk hdata =>
    simp only [Session.scanEvent, hdata]
    exact Or.inr ⟨h.openTurn, h.openStep, h.pending⟩
  | assistantMessage hdata =>
    simp only [Session.scanEvent, hdata]
    exact Or.inr ⟨h.openTurn, h.openStep, exists_mem_registerCalls (Or.inr h.pending)⟩
  | @toolCall data hdata =>
    simp only [Session.scanEvent, hdata]
    refine Or.inr ⟨h.openTurn, h.openStep, ?_⟩
    cases scan.pendingCalls.get? data.callId with
    | none => exact h.pending
    | some call => exact exists_mem_set h.pending
  | @rewrite data hdata hop hopen =>
    by_cases heq : data.message.source.callId = callId
    · exact Or.inl ⟨data, hdata, heq⟩
    · obtain ⟨call, hcall⟩ := h.pending
      simp only [Session.scanEvent, hdata]
      exact Or.inr ⟨h.openTurn, h.openStep, call,
        OrderedMap.mem_entries_delete.mpr ⟨hcall, fun h => heq h.symm⟩⟩
  | @toolResult data hdata =>
    by_cases heq : data.message.source.callId = callId
    · exact Or.inl ⟨data, hdata, heq⟩
    · obtain ⟨call, hcall⟩ := h.pending
      simp only [Session.scanEvent, hdata]
      exact Or.inr ⟨h.openTurn, h.openStep, call,
        OrderedMap.mem_entries_delete.mpr ⟨hcall, fun h => heq h.symm⟩⟩
  | request hdata hopen =>
    rcases hdata with ⟨data, hdata⟩ | ⟨data, hdata⟩
    · simp only [Session.scanEvent, hdata]
      exact Or.inr ⟨h.openTurn, h.openStep, h.pending⟩
    · simp only [Session.scanEvent, hdata]
      exact Or.inr ⟨h.openTurn, h.openStep, h.pending⟩
  | unconstrained hdata =>
    rcases hdata with ⟨message, hdata⟩ | hdata | ⟨type, data, hdata⟩
    · simp only [Session.scanEvent, hdata]
      exact Or.inr ⟨h.openTurn, h.openStep, h.pending⟩
    · simp only [Session.scanEvent, hdata]
      exact Or.inr ⟨h.openTurn, h.openStep, h.pending⟩
    · simp only [Session.scanEvent, hdata]
      exact Or.inr ⟨h.openTurn, h.openStep, h.pending⟩

theorem Waits.scanEvents (h : Waits callId trace scan) {events : List SessionEvent}
    (hend : ∀ event ∈ events, event.type ≠ "step/end") {last : SessionTrace}
    (hlast : traceEvents trace events = .ok last) :
    (∃ event ∈ events, IsResultFor callId event) ∨
      Waits callId last (events.foldl Session.scanEvent scan) := by
  induction events generalizing trace scan with
  | nil =>
    cases hlast
    exact Or.inr h
  | cons event rest ih =>
    simp only [traceEvents] at hlast
    cases hvalid : validateEvent trace event with
    | error failure => simp [hvalid] at hlast
    | ok transition =>
      simp only [hvalid] at hlast
      rcases h.scanEvent (traceStep_of_validateEvent hvalid) (hend event mem_cons_self) with
        hresult | hwaits
      · exact Or.inl ⟨event, mem_cons_self, hresult⟩
      · rcases ih hwaits (fun e he => hend e (mem_cons_of_mem _ he)) hlast with
          ⟨answer, hanswer, hresult⟩ | hwaits'
        · exact Or.inl ⟨answer, mem_cons_of_mem _ hanswer, hresult⟩
        · exact Or.inr hwaits'

end Answers

section Repair

variable {log : List SessionEvent} {trace : SessionTrace}

theorem interruptedTurnClosers_eq_nil (h : (scanEvents log).openTurn = none) :
    interruptedTurnClosers log = .ok [] := by
  simp only [interruptedTurnClosers, h]

theorem interruptedTurnClosers_eq {openTurn : Number}
    (hseq : ∀ (i : Nat) (hi : i < log.length), log[i].seq = i)
    (hopen : (scanEvents log).openTurn = some openTurn) :
    ∃ time, interruptedTurnClosers log =
      pushClosers log.length (closerDrafts openTurn time (scanEvents log)) := by
  cases hlast : log.getLast? with
  | none =>
    rw [getLast?_eq_none_iff] at hlast
    subst hlast
    simp [scanEvents] at hopen
  | some last =>
    have hpos : log.length - 1 < log.length := by
      cases log with
      | nil => simp at hlast
      | cons => simp
    rw [getLast?_eq_getElem?, getElem?_eq_getElem hpos, Option.some.injEq] at hlast
    have hnext : last.seq + 1 = log.length := by
      rw [← hlast, hseq _ hpos]
      omega
    refine ⟨last.time, ?_⟩
    simp only [interruptedTurnClosers, hopen, getLast?_eq_getElem?,
      getElem?_eq_getElem hpos, hlast, hnext]

end Repair

end DshKernel.Session
