import DshKernel.Agent.ToolPool
import DshKernel.Agent.ValidTraces

/-!
# The order of tool calls

The calls and results that a batch of tool calls logs stand in the order of the model, each result
with the sequence number of its own call; once the batch has returned, every call has both.
-/

namespace DshKernel.Agent

open Js Lib Session Llm Option ToolRun
set_option maxRecDepth 4096

def callOf (event : SessionEvent) : Option (Nat × ToolCallData) :=
  match event.data with
  | .toolCall data => some (event.seq, data)
  | _ => none

def resultOf (event : SessionEvent) : Option (ToolResultData × Option Json) :=
  match event.data with
  | .toolResult data =>
    if event.surfaceOp.any isAppendOp then some (data, event.sourceEventSeqs) else none
  | _ => none

namespace ToolRun

def calls (tools : ToolRun) (log : List SessionEvent) : List (Nat × ToolCallData) :=
  (log.drop tools.start).filterMap callOf

def results (tools : ToolRun) (log : List SessionEvent) : List (ToolResultData × Option Json) :=
  (log.drop tools.start).filterMap resultOf

def added (tools : ToolRun) : List UserMessage :=
  tools.commits.flatMap fun commit => commit.result.additionalContexts

end ToolRun

def callData (turn step : Nat) (call : ToolCallBlock) : ToolCallData :=
  ⟨.ofNat turn, .ofNat step, call.id, call.name, call.arguments⟩

section Ledgers

variable (out : Outside) (turn step : Nat) (tools : ToolRun) (callLog : List (Nat × ToolCallData))
  (resultLog : List (ToolResultData × Option Json))

def AnswersCall (index : Nat) (result : ToolExecutionResult)
    (record : ToolResultData × Option Json) : Prop :=
  ∃ call seq data id, tools.planned[index]? = some call ∧ callLog[index]? = some (seq, data) ∧
    EventData.toolResult record.1 = toolResultData turn step id call result ∧
    record.2 = some (.arr [.ofNat seq])

def IsMade (index : Nat) (commit : Commit) : Prop :=
  match commit.slot with
  | some slot => (index, slot) ∈ tools.answers ∧ out.Finalizes slot commit.result
  | none => commit.result = abortedBeforeDispatch ∧ index ∉ tools.dispatched

structure Ledger : Prop where
  calls : callLog.map Prod.snd = (tools.planned.take callLog.length).map (callData turn step)
  results : ∀ index record commit, resultLog[index]? = some record →
    tools.commits[index]? = some commit →
    AnswersCall turn step tools callLog index commit.result record
  made : ∀ index commit, tools.commits[index]? = some commit → IsMade out tools index commit
  contexts : tools.contexts <+: tools.added

structure Complete : Prop where
  calls : callLog.length = tools.planned.length
  results : resultLog.length = tools.planned.length
  commits : tools.commits.length = tools.planned.length
  contexts : tools.contexts = tools.added

structure Counts (called resulted committed : Nat) : Prop where
  calls : callLog.length = called
  results : resultLog.length = resulted
  commits : tools.commits.length = committed
  dispatched : ∀ position ∈ tools.dispatched, position < called

structure InGroup : Prop where
  planned : ∃ rest, tools.planned.drop tools.next = tools.group.calls ++ rest
  seqs : ∀ index seq, tools.group.callSeqs[index]? = some (some seq) →
    ∃ data, callLog[tools.next + index]? = some (seq, data)
  answers : ∀ index slot, tools.group.slots[index]? = some (some slot) →
    (tools.next + index, slot) ∈ tools.answers

structure Abreast : Prop where
  group : InGroup tools callLog
  counts : Counts tools callLog resultLog (tools.next + tools.group.started)
    (tools.next + tools.group.committed) (tools.next + tools.group.committed)
  contexts : tools.contexts = tools.added

def SkipRest.Follows (rest : SkipRest) (place : Nat) (skipped : List ToolCallBlock) : Prop :=
  match rest with
  | .group next _ later =>
    next = place + skipped.length ∧ tools.planned.drop place = skipped ++ later
  | .planned _ => tools.planned.drop place = skipped

def Reached (place : Nat) : Prop := ∀ position ∈ tools.dispatched, position < place

def ToolPoint.Orders : ToolPoint → Prop
  | .between =>
    Counts tools callLog resultLog tools.next tools.next tools.next ∧ tools.contexts = tools.added
  | .pool => Abreast tools callLog resultLog
  | .starting _ _ => Abreast tools callLog resultLog
  | .called index seq =>
    InGroup tools callLog ∧
      Counts tools callLog resultLog (tools.next + tools.group.started + 1)
        (tools.next + tools.group.committed) (tools.next + tools.group.committed) ∧
      tools.contexts = tools.added ∧ ∃ data, callLog[tools.next + index]? = some (seq, data)
  | .registered index => Abreast tools callLog resultLog ∧ tools.group.committed ≤ index
  | .placed => Abreast tools callLog resultLog
  | .changed => Abreast tools callLog resultLog
  | .commits _ => Abreast tools callLog resultLog
  | .committing _ call slot seq =>
    Abreast tools callLog resultLog ∧ tools.group.calls[tools.group.committed]? = some call ∧
      tools.group.callSeqs[tools.group.committed]? = some (some seq) ∧
      (tools.next + tools.group.committed, slot) ∈ tools.answers
  | .resulted _ slot result =>
    InGroup tools callLog ∧
      Counts tools callLog resultLog (tools.next + tools.group.started)
        (tools.next + tools.group.committed + 1) (tools.next + tools.group.committed) ∧
      tools.contexts = tools.added ∧ out.Finalizes slot result ∧
      (tools.next + tools.group.committed, slot) ∈ tools.answers ∧
      ∀ record, resultLog[tools.next + tools.group.committed]? = some record →
        AnswersCall turn step tools callLog (tools.next + tools.group.committed) result record
  | .accepting _ _ contexts =>
    InGroup tools callLog ∧
      Counts tools callLog resultLog (tools.next + tools.group.started)
        (tools.next + tools.group.committed + 1) (tools.next + tools.group.committed + 1) ∧
      tools.contexts ++ contexts = tools.added
  | .finishing started _ =>
    Counts tools callLog resultLog (tools.next + started) (tools.next + started) (tools.next + started) ∧
      tools.contexts = tools.added
  | .skipping skipped rest =>
    ∃ place, Counts tools callLog resultLog place place place ∧ Reached tools place ∧
      tools.contexts = tools.added ∧ rest.Follows tools place skipped
  | .skipCalled call seq skipped rest =>
    ∃ place, Counts tools callLog resultLog (place + 1) place place ∧ Reached tools place ∧
      tools.contexts = tools.added ∧ rest.Follows tools place (call :: skipped) ∧
      ∃ data, callLog[place]? = some (seq, data)
  | .skipResulted skipped rest =>
    ∃ place, Counts tools callLog resultLog (place + 1) (place + 1) place ∧ Reached tools place ∧
      tools.contexts = tools.added ∧ rest.Follows tools (place + 1) skipped ∧
      ∀ record, resultLog[place]? = some record →
        AnswersCall turn step tools callLog place abortedBeforeDispatch record
  | .failing _ => InGroup tools callLog ∧ resultLog.length = tools.commits.length
  | .leaving (.returned _) => Complete tools callLog resultLog
  | .leaving .failed => resultLog.length = tools.commits.length

structure Left : Prop where
  ledger : ∃ turn step, Ledger out turn step tools callLog resultLog
  commits : resultLog.length = tools.commits.length
  complete : ∀ concluded, tools.exit = some (.returned concluded) → Complete tools callLog resultLog

def Control.Orders : Control → Prop
  | .inStep vars step (.tools point) =>
    tools.exit = none ∧ Ledger out vars.turn step tools callLog resultLog ∧
      point.Orders out vars.turn step tools callLog resultLog
  | _ => Left out tools callLog resultLog

end Ledgers

section Keeping

variable {out : Outside} {turn step : Nat} {tools tools' : ToolRun}
  {callLog : List (Nat × ToolCallData)} {resultLog : List (ToolResultData × Option Json)}

structure KeepsOrder (tools tools' : ToolRun) : Prop where
  planned : tools'.planned = tools.planned
  next : tools'.next = tools.next
  commits : tools'.commits = tools.commits
  contexts : tools'.contexts = tools.contexts
  dispatched : tools'.dispatched = tools.dispatched
  answers : ∀ answer ∈ tools.answers, answer ∈ tools'.answers
  calls : tools'.group.calls = tools.group.calls
  seqs : tools'.group.callSeqs = tools.group.callSeqs
  started : tools'.group.started = tools.group.started
  committed : tools'.group.committed = tools.group.committed
  slots : ∀ index slot, tools'.group.slots[index]? = some (some slot) →
    tools.group.slots[index]? = some (some slot) ∨ (tools.next + index, slot) ∈ tools'.answers

theorem KeepsOrder.added (h : KeepsOrder tools tools') : tools'.added = tools.added := by
  rw [ToolRun.added, h.commits]
  rfl

theorem keepsOrder_answer (index : Nat) (slot : Slot) : KeepsOrder tools (tools.answer index slot) := by
  refine ⟨rfl, rfl, rfl, rfl, rfl, fun _ h => List.mem_append_left _ h, rfl, rfl, rfl, rfl, ?_⟩
  intro position found hfound
  have hfound : (tools.group.slots.set index (some slot))[position]? = some (some found) := hfound
  by_cases heq : index = position
  · subst heq
    obtain ⟨hlt, hset⟩ := List.getElem?_eq_some_iff.mp hfound
    rw [List.getElem_set_self] at hset
    cases hset
    exact .inr (List.mem_append_right _ List.mem_cons_self)
  · rw [List.getElem?_set_ne heq] at hfound
    exact .inl hfound

theorem keepsOrder_settle (index : Nat) (outcome : Except Failure Slot) :
    KeepsOrder tools (tools.settle index outcome) := by
  cases outcome with
  | ok slot =>
    have hanswer := @keepsOrder_answer tools index slot
    exact ⟨rfl, rfl, rfl, rfl, rfl, hanswer.answers, rfl, rfl, rfl, rfl, hanswer.slots⟩
  | error failure => exact ⟨rfl, rfl, rfl, rfl, rfl, fun _ h => h, rfl, rfl, rfl, rfl, fun _ _ h => .inl h⟩

theorem AnswersCall.keeps {index : Nat} {result : ToolExecutionResult}
    {record : ToolResultData × Option Json} (hkeeps : KeepsOrder tools tools')
    (h : AnswersCall turn step tools callLog index result record) :
    AnswersCall turn step tools' callLog index result record := by
  unfold AnswersCall at h ⊢
  rw [hkeeps.planned]
  exact h

theorem IsMade.keeps {index : Nat} {commit : Commit} (hkeeps : KeepsOrder tools tools')
    (h : IsMade out tools index commit) : IsMade out tools' index commit := by
  unfold IsMade at h ⊢
  cases hslot : commit.slot with
  | some slot =>
    rw [hslot] at h
    exact ⟨hkeeps.answers _ h.1, h.2⟩
  | none =>
    rw [hslot] at h
    rw [hkeeps.dispatched]
    exact h

theorem Ledger.keeps (hkeeps : KeepsOrder tools tools') (h : Ledger out turn step tools callLog resultLog) :
    Ledger out turn step tools' callLog resultLog where
  calls := by rw [hkeeps.planned]; exact h.calls
  results := by
    intro index record commit hrecord hcommit
    rw [hkeeps.commits] at hcommit
    exact (h.results index record commit hrecord hcommit).keeps hkeeps
  made := by
    intro index commit hcommit
    rw [hkeeps.commits] at hcommit
    exact (h.made index commit hcommit).keeps hkeeps
  contexts := by rw [hkeeps.contexts, hkeeps.added]; exact h.contexts

theorem Counts.keeps {called resulted committed : Nat} (hkeeps : KeepsOrder tools tools')
    (h : Counts tools callLog resultLog called resulted committed) :
    Counts tools' callLog resultLog called resulted committed where
  calls := h.calls
  results := h.results
  commits := by rw [hkeeps.commits]; exact h.commits
  dispatched := by rw [hkeeps.dispatched]; exact h.dispatched

theorem InGroup.keeps (hkeeps : KeepsOrder tools tools') (h : InGroup tools callLog) :
    InGroup tools' callLog where
  planned := by rw [hkeeps.planned, hkeeps.next, hkeeps.calls]; exact h.planned
  seqs := by rw [hkeeps.seqs, hkeeps.next]; exact h.seqs
  answers := by
    intro index slot hslot
    rw [hkeeps.next]
    exact (hkeeps.slots index slot hslot).elim (fun hslot => hkeeps.answers _ (h.answers _ _ hslot)) id

theorem Complete.keeps (hkeeps : KeepsOrder tools tools') (h : Complete tools callLog resultLog) :
    Complete tools' callLog resultLog where
  calls := by rw [hkeeps.planned]; exact h.calls
  results := by rw [hkeeps.planned]; exact h.results
  commits := by rw [hkeeps.planned, hkeeps.commits]; exact h.commits
  contexts := by rw [hkeeps.contexts, hkeeps.added]; exact h.contexts

theorem Abreast.keeps (hkeeps : KeepsOrder tools tools') (h : Abreast tools callLog resultLog) :
    Abreast tools' callLog resultLog where
  group := h.group.keeps hkeeps
  counts := by rw [hkeeps.next, hkeeps.started, hkeeps.committed]; exact h.counts.keeps hkeeps
  contexts := by rw [hkeeps.contexts, hkeeps.added]; exact h.contexts

variable {place : Nat}

theorem Reached.keeps (hkeeps : KeepsOrder tools tools') (h : Reached tools place) :
    Reached tools' place := by
  unfold Reached at h ⊢
  rw [hkeeps.dispatched]
  exact h

theorem SkipRest.Follows.keeps {rest : SkipRest} {skipped : List ToolCallBlock}
    (hkeeps : KeepsOrder tools tools') (h : rest.Follows tools place skipped) :
    rest.Follows tools' place skipped := by
  unfold SkipRest.Follows at h ⊢
  rw [hkeeps.planned]
  exact h

theorem ToolPoint.Orders.keeps {point : ToolPoint} (hkeeps : KeepsOrder tools tools')
    (h : point.Orders out turn step tools callLog resultLog) :
    point.Orders out turn step tools' callLog resultLog := by
  cases point with
  | between =>
    simp only [Orders, hkeeps.next, hkeeps.contexts, hkeeps.added]
    exact ⟨h.1.keeps hkeeps, h.2⟩
  | pool => exact Abreast.keeps hkeeps h
  | starting index call => exact Abreast.keeps hkeeps h
  | called index seq =>
    simp only [Orders, hkeeps.next, hkeeps.started, hkeeps.committed, hkeeps.contexts, hkeeps.added]
    exact ⟨h.1.keeps hkeeps, h.2.1.keeps hkeeps, h.2.2⟩
  | registered index =>
    simp only [Orders, hkeeps.committed]
    exact ⟨h.1.keeps hkeeps, h.2⟩
  | placed => exact Abreast.keeps hkeeps h
  | changed => exact Abreast.keeps hkeeps h
  | commits left => exact Abreast.keeps hkeeps h
  | committing left call slot seq =>
    simp only [Orders, hkeeps.calls, hkeeps.seqs, hkeeps.next, hkeeps.committed]
    obtain ⟨habreast, hcall, hseq, hanswer⟩ := h
    exact ⟨habreast.keeps hkeeps, hcall, hseq, hkeeps.answers _ hanswer⟩
  | resulted left slot result =>
    simp only [Orders, hkeeps.next, hkeeps.started, hkeeps.committed, hkeeps.contexts, hkeeps.added]
    obtain ⟨hgroup, hcounts, hcontexts, hfinalizes, hanswer, hanswers⟩ := h
    exact ⟨hgroup.keeps hkeeps, hcounts.keeps hkeeps, hcontexts, hfinalizes, hkeeps.answers _ hanswer,
      fun record hrecord => (hanswers record hrecord).keeps hkeeps⟩
  | accepting left result contexts =>
    simp only [Orders, hkeeps.next, hkeeps.started, hkeeps.committed, hkeeps.contexts, hkeeps.added]
    exact ⟨h.1.keeps hkeeps, h.2.1.keeps hkeeps, h.2.2⟩
  | finishing started concluded =>
    simp only [Orders, hkeeps.next, hkeeps.contexts, hkeeps.added]
    exact ⟨h.1.keeps hkeeps, h.2⟩
  | skipping skipped rest =>
    simp only [Orders, hkeeps.contexts, hkeeps.added]
    obtain ⟨place, hcounts, hreached, hcontexts, hfollows⟩ := h
    exact ⟨place, hcounts.keeps hkeeps, hreached.keeps hkeeps, hcontexts, hfollows.keeps hkeeps⟩
  | skipCalled call seq skipped rest =>
    simp only [Orders, hkeeps.contexts, hkeeps.added]
    obtain ⟨place, hcounts, hreached, hcontexts, hfollows, hdata⟩ := h
    exact ⟨place, hcounts.keeps hkeeps, hreached.keeps hkeeps, hcontexts, hfollows.keeps hkeeps, hdata⟩
  | skipResulted skipped rest =>
    simp only [Orders, hkeeps.contexts, hkeeps.added]
    obtain ⟨place, hcounts, hreached, hcontexts, hfollows, hanswers⟩ := h
    exact ⟨place, hcounts.keeps hkeeps, hreached.keeps hkeeps, hcontexts, hfollows.keeps hkeeps,
      fun record hrecord => (hanswers record hrecord).keeps hkeeps⟩
  | failing failure =>
    simp only [Orders, hkeeps.commits]
    exact ⟨h.1.keeps hkeeps, h.2⟩
  | leaving exit =>
    cases exit with
    | returned concluded => exact Complete.keeps hkeeps h
    | failed =>
      simp only [Orders, hkeeps.commits]
      exact h

end Keeping

section Logging

variable {out : Outside} {turn step : Nat} {tools : ToolRun}
  {callLog : List (Nat × ToolCallData)} {resultLog : List (ToolResultData × Option Json)}
  {index : Nat}

theorem getElem?_append_of_eq_some {α : Type} {entries more : List α} {found : α}
    (h : entries[index]? = some found) : (entries ++ more)[index]? = some found := by
  rw [List.getElem?_append_left (List.getElem?_eq_some_iff.mp h).1]
  exact h

variable {more : List (Nat × ToolCallData)} {place : Nat} {skipped : List ToolCallBlock}
variable {rest : SkipRest}

theorem AnswersCall.logged {result : ToolExecutionResult} {record : ToolResultData × Option Json}
    (h : AnswersCall turn step tools callLog index result record) :
    AnswersCall turn step tools (callLog ++ more) index result record := by
  obtain ⟨call, seq, data, id, hplanned, hcall, hrecord⟩ := h
  exact ⟨call, seq, data, id, hplanned, getElem?_append_of_eq_some hcall, hrecord⟩

theorem InGroup.logged (h : InGroup tools callLog) :
    InGroup tools (callLog ++ more) where
  planned := h.planned
  seqs := by
    intro index seq hseq
    obtain ⟨data, hdata⟩ := h.seqs index seq hseq
    exact ⟨data, getElem?_append_of_eq_some hdata⟩
  answers := h.answers

theorem Ledger.call (h : Ledger out turn step tools callLog resultLog) {call : ToolCallBlock} {seq : Nat}
    (hcall : tools.planned[callLog.length]? = some call) :
    Ledger out turn step tools (callLog ++ [(seq, callData turn step call)]) resultLog where
  calls := by
    rw [List.map_append, h.calls, List.length_append, List.length_singleton, List.take_add_one, hcall,
      List.map_append]
    rfl
  results := fun index record commit hrecord hcommit =>
    (h.results index record commit hrecord hcommit).logged
  made := h.made
  contexts := h.contexts

theorem Ledger.result (h : Ledger out turn step tools callLog resultLog)
    (hcommits : tools.commits.length = resultLog.length) (record : ToolResultData × Option Json) :
    Ledger out turn step tools callLog (resultLog ++ [record]) where
  calls := h.calls
  results := by
    intro index found commit hfound hcommit
    have hlt := (List.getElem?_eq_some_iff.mp hcommit).1
    rw [List.getElem?_append_left (by omega)] at hfound
    exact h.results index found commit hfound hcommit
  made := h.made
  contexts := h.contexts

def ToolRun.commit (tools : ToolRun) (commit : Commit) : ToolRun :=
  { tools with commits := tools.commits ++ [commit] }

theorem added_commit (commit : Commit) :
    (tools.commit commit).added = tools.added ++ commit.result.additionalContexts := by
  simp [ToolRun.added, ToolRun.commit]

theorem getElem?_concat_cases {α : Type} {entries : List α} {entry found : α}
    (h : (entries ++ [entry])[index]? = some found) :
    entries[index]? = some found ∨ index = entries.length ∧ entry = found := by
  rcases Nat.lt_or_ge index entries.length with hlt | hle
  · rw [List.getElem?_append_left hlt] at h
    exact .inl h
  · rw [List.getElem?_append_right hle] at h
    obtain ⟨hlt, hfound⟩ := List.getElem?_eq_some_iff.mp h
    rw [List.length_singleton] at hlt
    refine .inr ⟨by omega, ?_⟩
    rw [← hfound]
    simp

theorem Ledger.commit (h : Ledger out turn step tools callLog resultLog) {commit : Commit}
    (hmade : IsMade out tools tools.commits.length commit)
    (hanswers : ∀ record, resultLog[tools.commits.length]? = some record →
      AnswersCall turn step tools callLog tools.commits.length commit.result record) :
    Ledger out turn step (tools.commit commit) callLog resultLog where
  calls := h.calls
  results := by
    intro index record found hrecord hfound
    rcases getElem?_concat_cases hfound with hfound | ⟨rfl, rfl⟩
    · exact h.results index record found hrecord hfound
    · exact hanswers record hrecord
  made := by
    intro index found hfound
    rcases getElem?_concat_cases hfound with hfound | ⟨rfl, rfl⟩
    · exact h.made index found hfound
    · exact hmade
  contexts := by
    rw [added_commit]
    exact h.contexts.trans (List.prefix_append _ _)

theorem complete_of_drop (h : Ledger out turn step tools callLog resultLog)
    (hcounts : Counts tools callLog resultLog place place place) (hcontexts : tools.contexts = tools.added)
    (hdrop : tools.planned.drop place = []) : Complete tools callLog resultLog := by
  have hlength := congrArg List.length h.calls
  rw [List.length_map, List.length_map, List.length_take, hcounts.calls] at hlength
  have hle := List.drop_eq_nil_iff.mp hdrop
  have heq : place = tools.planned.length := by omega
  exact ⟨hcounts.calls.trans heq, hcounts.results.trans heq, hcounts.commits.trans heq, hcontexts⟩

theorem SkipRest.Follows.drop
    (h : rest.Follows tools place skipped) :
    ∃ later, tools.planned.drop place = skipped ++ later := by
  cases rest with
  | group next concluded later => exact ⟨later, h.2⟩
  | planned concluded =>
    refine ⟨[], ?_⟩
    rw [List.append_nil]
    exact h

theorem SkipRest.Follows.next {call : ToolCallBlock}
    (h : rest.Follows tools place (call :: skipped)) :
    tools.planned[place]? = some call ∧ rest.Follows tools (place + 1) skipped := by
  obtain ⟨later, hdrop⟩ := h.drop
  have htail : ∀ {later : List ToolCallBlock}, tools.planned.drop place = (call :: skipped) ++ later →
      tools.planned.drop (place + 1) = skipped ++ later := by
    intro later hdrop
    rw [← List.tail_drop, hdrop]
    rfl
  constructor
  · rw [← List.head?_drop, hdrop]
    rfl
  · cases rest with
    | group next concluded later =>
      obtain ⟨hnext, hdrop⟩ := h
      refine ⟨?_, htail hdrop⟩
      rw [hnext, List.length_cons]
      omega
    | planned concluded =>
      have hdrop : tools.planned.drop place = call :: skipped := h
      show tools.planned.drop (place + 1) = skipped
      rw [← List.tail_drop, hdrop]
      rfl

theorem InGroup.planned_eq (h : InGroup tools callLog) {call : ToolCallBlock}
    (hcall : tools.group.calls[index]? = some call) :
    tools.planned[tools.next + index]? = some call := by
  obtain ⟨rest, hplanned⟩ := h.planned
  rw [← List.getElem?_drop, hplanned]
  exact getElem?_append_of_eq_some hcall

end Logging

section Moving

variable {out : Outside} {turn step : Nat} {w w' : AgentWorld} {point point' : ToolPoint}
  {callLog : List (Nat × ToolCallData)} {resultLog : List (ToolResultData × Option Json)}

theorem follows_of_group {tools : ToolRun} (h : InGroup tools callLog)
    (hstarted : tools.group.started ≤ tools.group.calls.length) (concluded : Bool) :
    (SkipRest.group (tools.next + tools.group.calls.length) concluded
      (tools.planned.drop (tools.next + tools.group.calls.length))).Follows tools
        (tools.next + tools.group.started) (tools.group.calls.drop tools.group.started) := by
  obtain ⟨rest, hplanned⟩ := h.planned
  constructor
  · rw [List.length_drop]
    omega
  · rw [← List.drop_drop, ← List.drop_drop, hplanned, List.drop_append_of_le_length hstarted,
      List.drop_left]

theorem ToolMoves.orders (hmoves : ToolMoves out w point point')
    (hledger : Ledger out turn step w.tools callLog resultLog) (hok : w.tools.group.Ok out)
    (hpools : point.Pools out w.tools.group)
    (h : point.Orders out turn step w.tools callLog resultLog) :
    point'.Orders out turn step w.tools callLog resultLog := by
  cases hmoves with
  | done hdrop => exact complete_of_drop hledger h.1 h.2 hdrop
  | unclassified => exact h.1.results.trans h.1.commits.symm
  | start => exact h
  | recheck => exact h
  | commits => exact h
  | uncommittable => exact h
  | commit hslot hcall hseq => exact ⟨h, hcall, hseq, h.group.answers _ _ hslot⟩
  | finish _ _ hcommitted =>
    have hcounts := h.counts
    rw [hcommitted] at hcounts
    exact ⟨hcounts, h.contexts⟩
  | uncommitted => exact h.counts.results.trans h.counts.commits.symm
  | skip hflight =>
    have hcounts := h.counts
    rw [committed_of_empty hok hpools hflight] at hcounts
    exact ⟨_, hcounts, hcounts.dispatched, h.contexts, follows_of_group h.group hok.started _⟩
  | skipped =>
    obtain ⟨place, hcounts, -, hcontexts, hdrop⟩ := h
    exact complete_of_drop hledger hcounts hcontexts hdrop
  | unskipped =>
    obtain ⟨place, hcounts, -⟩ := h
    exact hcounts.results.trans hcounts.commits.symm
  | unanswered =>
    obtain ⟨place, hcounts, -⟩ := h
    exact hcounts.results.trans hcounts.commits.symm
  | drained => exact h.2

theorem Abreast.even {tools : ToolRun} (h : Abreast tools callLog resultLog) :
    resultLog.length = tools.commits.length :=
  h.counts.results.trans h.counts.commits.symm

theorem ToolPoint.Orders.even {tools : ToolRun}
    (h : point.Orders out turn step tools callLog resultLog) (hguarded : point.isGuarded = true) :
    InGroup tools callLog ∧ resultLog.length = tools.commits.length := by
  have habreast : ∀ h : Abreast tools callLog resultLog,
      InGroup tools callLog ∧ resultLog.length = tools.commits.length := fun h => ⟨h.group, h.even⟩
  cases point with
  | pool => exact habreast h
  | starting index call => exact habreast h
  | registered index => exact habreast h.1
  | placed => exact habreast h
  | changed => exact habreast h
  | committing left call slot seq => exact habreast h.1
  | accepting left result contexts =>
    obtain ⟨hgroup, hcounts, -⟩ := h
    exact ⟨hgroup, hcounts.results.trans hcounts.commits.symm⟩
  | _ => cases hguarded

theorem Ledger.setGroup {tools : ToolRun} (h : Ledger out turn step tools callLog resultLog)
    (group : Group) : Ledger out turn step { tools with group } callLog resultLog :=
  ⟨h.calls, h.results, h.made, h.contexts⟩

theorem inGroup_openGroup {tools : ToolRun} {first : ToolCallBlock} {rest : List ToolCallBlock}
    {mode : ExecutionMode} {cap : Nat} {aborted : Bool}
    (hdrop : tools.planned.drop tools.next = first :: rest) :
    InGroup { tools with
      group := openGroup (if mode = .parallel then first :: rest else [first]) mode cap aborted } callLog := by
  refine ⟨?_, ?_, ?_⟩
  · rw [hdrop]
    by_cases hmode : mode = .parallel
    · refine ⟨[], ?_⟩
      simp [openGroup, hmode]
    · refine ⟨rest, ?_⟩
      simp [openGroup, hmode]
  · intro index seq hseq
    obtain ⟨call, -, hnone⟩ := map_eq_some_iff.mp (List.getElem?_map .. ▸ hseq)
    cases hnone
  · intro index slot hslot
    obtain ⟨call, -, hnone⟩ := map_eq_some_iff.mp (List.getElem?_map .. ▸ hslot)
    cases hnone

theorem InGroup.register {tools : ToolRun} (h : InGroup tools callLog) {index seq : Nat}
    {data : ToolCallData} (hdata : callLog[tools.next + index]? = some (seq, data)) :
    InGroup { tools with group := tools.group.register index seq } callLog := by
  refine ⟨h.planned, ?_, h.answers⟩
  intro position found hfound
  have hfound : (tools.group.callSeqs.set index (some seq))[position]? = some (some found) := hfound
  by_cases heq : index = position
  · subst heq
    obtain ⟨hlt, hset⟩ := List.getElem?_eq_some_iff.mp hfound
    rw [List.getElem_set_self] at hset
    cases hset
    exact ⟨data, hdata⟩
  · rw [List.getElem?_set_ne heq] at hfound
    exact h.seqs position found hfound

theorem Ledger.launch {tools : ToolRun} (h : Ledger out turn step tools callLog resultLog) {index : Nat}
    (hcommits : tools.commits.length ≤ tools.next + index) :
    Ledger out turn step (tools.launch index) callLog resultLog where
  calls := h.calls
  results := h.results
  made := by
    intro position commit hcommit
    have hmade := h.made position commit hcommit
    have hlt := (List.getElem?_eq_some_iff.mp hcommit).1
    unfold IsMade at hmade ⊢
    cases hslot : commit.slot with
    | some slot =>
      rw [hslot] at hmade
      exact hmade
    | none =>
      rw [hslot] at hmade
      refine ⟨hmade.1, fun hmem => ?_⟩
      rcases List.mem_append.mp hmem with hmem | hmem
      · exact hmade.2 hmem
      · have heq := List.mem_singleton.mp hmem
        have hlt : position < tools.commits.length := hlt
        omega
  contexts := h.contexts

theorem ToolWrites.orders (hwrites : ToolWrites out point w point' w')
    (hledger : Ledger out turn step w.tools callLog resultLog) (hok : w.tools.group.Ok out)
    (hpools : point.Pools out w.tools.group)
    (h : point.Orders out turn step w.tools callLog resultLog) :
    Ledger out turn step w'.tools callLog resultLog ∧
      point'.Orders out turn step w'.tools callLog resultLog := by
  cases hwrites with
  | openGroup hdrop =>
    obtain ⟨⟨hcalls, hresults, hcommits, hdispatched⟩, hcontexts⟩ := h
    exact ⟨hledger.setGroup _, inGroup_openGroup hdrop, ⟨hcalls, hresults, hcommits, hdispatched⟩, hcontexts⟩
  | register =>
    obtain ⟨hgroup, ⟨hcalls, hresults, hcommits, hdispatched⟩, hcontexts, data, hdata⟩ := h
    obtain ⟨-, -, -, rfl, -⟩ := hpools
    refine ⟨hledger.setGroup _, ⟨hgroup.register hdata, ?_, hcontexts⟩, hok.committed⟩
    exact ⟨hcalls, hresults, hcommits, hdispatched⟩
  | @launch _ index =>
    obtain ⟨⟨hgroup, ⟨hcalls, hresults, hcommits, hdispatched⟩, hcontexts⟩, hcommitted⟩ := h
    obtain ⟨-, -, -, hindex, -⟩ := hpools
    refine ⟨hledger.launch (by omega), ⟨hgroup.planned, hgroup.seqs, hgroup.answers⟩, ?_, hcontexts⟩
    refine ⟨hcalls, hresults, hcommits, ?_⟩
    intro position hposition
    rcases List.mem_append.mp hposition with hposition | hposition
    · exact hdispatched position hposition
    · rw [List.mem_singleton.mp hposition]
      show w.tools.next + index < w.tools.next + w.tools.group.started
      omega
  | @answer _ index slot =>
    have hkeeps := @keepsOrder_answer w.tools index slot
    exact ⟨hledger.keeps hkeeps, h.1.keeps hkeeps⟩
  | advance =>
    have hkeeps : KeepsOrder w.tools { w.tools with
        group := { w.tools.group with nextToStart := w.tools.group.nextToStart + 1 } } :=
      ⟨rfl, rfl, rfl, rfl, rfl, fun _ h => h, rfl, rfl, rfl, rfl, fun _ _ h => .inl h⟩
    exact ⟨hledger.keeps hkeeps, Abreast.keeps hkeeps h⟩
  | noteAbort =>
    have hkeeps : KeepsOrder w.tools { w.tools with
        group := { w.tools.group with aborted := true } } :=
      ⟨rfl, rfl, rfl, rfl, rfl, fun _ h => h, rfl, rfl, rfl, rfl, fun _ _ h => .inl h⟩
    exact ⟨hledger.keeps hkeeps, Abreast.keeps hkeeps h⟩
  | @race _ index =>
    have hkeeps : KeepsOrder w.tools { w.tools with
        group := { w.tools.group with inFlight := w.tools.group.inFlight.erase index } } :=
      ⟨rfl, rfl, rfl, rfl, rfl, fun _ h => h, rfl, rfl, rfl, rfl, fun _ _ h => .inl h⟩
    exact ⟨hledger.keeps hkeeps, Abreast.keeps hkeeps h⟩
  | commit =>
    obtain ⟨hgroup, ⟨hcalls, hresults, hcommits, hdispatched⟩, hcontexts, hfinalizes, hanswer, hanswers⟩ := h
    rw [← hcommits] at hanswer hanswers
    refine ⟨hledger.commit ⟨hanswer, hfinalizes⟩ hanswers,
      ⟨hgroup.planned, hgroup.seqs, hgroup.answers⟩, ⟨hcalls, hresults, ?_, hdispatched⟩, ?_⟩
    · show (w.tools.commits ++ [_]).length = _
      rw [List.length_append, hcommits]
      rfl
    · show w.tools.contexts ++ _ = (w.tools.commit _).added
      rw [added_commit, hcontexts]
  | accept =>
    obtain ⟨hgroup, ⟨hcalls, hresults, hcommits, hdispatched⟩, hcontexts⟩ := h
    rw [List.append_cons] at hcontexts
    refine ⟨⟨hledger.calls, hledger.results, hledger.made, ⟨_, hcontexts⟩⟩, ?_⟩
    exact ⟨⟨hgroup.planned, hgroup.seqs, hgroup.answers⟩, ⟨hcalls, hresults, hcommits, hdispatched⟩, hcontexts⟩
  | committed =>
    obtain ⟨hgroup, ⟨hcalls, hresults, hcommits, hdispatched⟩, hcontexts⟩ := h
    rw [List.append_nil] at hcontexts
    refine ⟨hledger.setGroup _, ⟨hgroup.planned, hgroup.seqs, hgroup.answers⟩, ?_, hcontexts⟩
    exact ⟨hcalls, hresults, hcommits, hdispatched⟩
  | fail hguarded =>
    obtain ⟨hgroup, heven⟩ := h.even hguarded
    exact ⟨hledger.setGroup _, ⟨hgroup.planned, hgroup.seqs, hgroup.answers⟩, heven⟩
  | finish =>
    obtain ⟨⟨hcalls, hresults, hcommits, hdispatched⟩, hcontexts⟩ := h
    exact ⟨⟨hledger.calls, hledger.results, hledger.made, hledger.contexts⟩,
      ⟨hcalls, hresults, hcommits, hdispatched⟩, hcontexts⟩
  | skip =>
    obtain ⟨place, ⟨hcalls, hresults, rfl, hdispatched⟩, hreached, hcontexts, hfollows, hanswers⟩ := h
    have hmade : IsMade out w.tools w.tools.commits.length ⟨none, abortedBeforeDispatch⟩ :=
      ⟨rfl, fun hmem => Nat.lt_irrefl _ (hreached _ hmem)⟩
    refine ⟨hledger.commit hmade hanswers, w.tools.commits.length + 1,
      ⟨hcalls, hresults, List.length_append, hdispatched⟩, ?_, ?_, hfollows⟩
    · exact fun position hposition => Nat.lt_succ_of_lt (hreached position hposition)
    · show w.tools.contexts = (w.tools.commit _).added
      rw [added_commit, hcontexts]
      exact (List.append_nil _).symm
  | skipGroup =>
    obtain ⟨place, ⟨hcalls, hresults, hcommits, hdispatched⟩, hreached, hcontexts, -, hdrop⟩ := h
    exact ⟨⟨hledger.calls, hledger.results, hledger.made, hledger.contexts⟩, place,
      ⟨hcalls, hresults, hcommits, hdispatched⟩, hreached, hcontexts, hdrop⟩

end Moving

section Recording

variable {out : Outside} {turn step : Nat} {tools tools' : ToolRun} {log : List SessionEvent}
  {event : SessionEvent} {point point' : ToolPoint} {w w' : AgentWorld} {c c' : Control}
  {callLog : List (Nat × ToolCallData)} {resultLog : List (ToolResultData × Option Json)}

theorem calls_concat (h : tools.start ≤ log.length) :
    tools.calls (log ++ [event]) = tools.calls log ++ (callOf event).toList := by
  rw [calls, List.drop_append_of_le_length h, List.filterMap_append]
  cases hcall : callOf event <;> simp [calls, hcall]

theorem results_concat (h : tools.start ≤ log.length) :
    tools.results (log ++ [event]) = tools.results log ++ (resultOf event).toList := by
  rw [results, List.drop_append_of_le_length h, List.filterMap_append]
  cases hresult : resultOf event <;> simp [results, hresult]

def IsUnrecorded (event : SessionEvent) : Prop := callOf event = none ∧ resultOf event = none

def isRecord : EventData → Bool
  | .toolCall _ => true
  | .toolResult _ => true
  | _ => false

theorem isUnrecorded_of_data {data : EventData} (hdata : event.data = data)
    (h : isRecord data = false) : IsUnrecorded event := by
  unfold IsUnrecorded callOf resultOf
  rw [hdata]
  cases data <;> first | exact ⟨rfl, rfl⟩ | cases h

theorem isUnrecorded_of_isForeign
    (h : isForeign log event.data event.sourceEventSeqs event.surfaceOp) : IsUnrecorded event := by
  unfold isForeign at h
  unfold IsUnrecorded callOf resultOf
  cases hdata : event.data with
  | toolResult data =>
    rw [hdata] at h
    simp [h.1]
  | extension type data => exact ⟨rfl, rfl⟩
  | userMessage message => exact ⟨rfl, rfl⟩
  | _ =>
    rw [hdata] at h
    cases h

theorem recorded_call {call : ToolCallBlock} (hdata : event.data = toolCallData turn step call) :
    callOf event = some (event.seq, callData turn step call) ∧ resultOf event = none := by
  unfold callOf resultOf
  rw [hdata]
  exact ⟨rfl, rfl⟩

theorem recorded_result {id : String} {call : ToolCallBlock} {result : ToolExecutionResult}
    (hdata : event.data = toolResultData turn step id call result)
    (hop : event.surfaceOp = some appendOp) :
    callOf event = none ∧ ∃ data, resultOf event = some (data, event.sourceEventSeqs) ∧
      EventData.toolResult data = toolResultData turn step id call result := by
  unfold callOf resultOf
  rw [hdata, hop]
  exact ⟨rfl, _, rfl, rfl⟩

theorem getElem?_concat_length {α : Type} {entries : List α} {entry : α} {index : Nat}
    (h : entries.length = index) : (entries ++ [entry])[index]? = some entry := by
  rw [← h]
  exact List.getElem?_concat_length

theorem ToolLogs.orders
    (hlogs : ToolLogs out turn step point event.data event.sourceEventSeqs event.surfaceOp event.seq point')
    (hledger : Ledger out turn step tools callLog resultLog) (hpools : point.Pools out tools.group)
    (h : point.Orders out turn step tools callLog resultLog) :
    Ledger out turn step tools (callLog ++ (callOf event).toList) (resultLog ++ (resultOf event).toList) ∧
      point'.Orders out turn step tools (callLog ++ (callOf event).toList)
        (resultLog ++ (resultOf event).toList) := by
  generalize hdata : event.data = data at hlogs
  generalize hsources : event.sourceEventSeqs = sources at hlogs
  generalize hop : event.surfaceOp = surfaceOp at hlogs
  generalize hseq : event.seq = seq at hlogs
  cases hlogs with
  | @call index call =>
    obtain ⟨hcallOf, hresultOf⟩ := recorded_call hdata
    obtain ⟨hgroup, ⟨hcalls, hresults, hcommits, hdispatched⟩, hcontexts⟩ := h
    obtain ⟨-, -, -, rfl, -, hcall, -⟩ := hpools
    have hplanned := hgroup.planned_eq hcall
    rw [hcallOf, hresultOf, hseq, toList_none, List.append_nil, toList_some]
    refine ⟨hledger.call (hcalls ▸ hplanned), hgroup.logged, ⟨?_, hresults, hcommits, ?_⟩, hcontexts, _,
      getElem?_concat_length hcalls⟩
    · rw [List.length_append, hcalls]
      rfl
    · exact fun position hposition => Nat.lt_succ_of_lt (hdispatched position hposition)
  | @result id call slot left callSeq _ result hfinalizes =>
    obtain ⟨hcallOf, data, hresultOf, hresult⟩ := recorded_result hdata hop
    obtain ⟨⟨hgroup, ⟨hcalls, hresults, hcommits, hdispatched⟩, hcontexts⟩, hcall, hcallSeq, hanswer⟩ := h
    rw [hcallOf, hresultOf, hsources, toList_none, List.append_nil, toList_some]
    refine ⟨hledger.result (hcommits.trans hresults.symm) _, hgroup, ⟨hcalls, ?_, hcommits, hdispatched⟩,
      hcontexts, hfinalizes, hanswer, ?_⟩
    · rw [List.length_append, hresults]
      rfl
    · intro record hrecord
      rw [getElem?_concat_length hresults] at hrecord
      obtain rfl := some.inj hrecord
      obtain ⟨callRecord, hcallRecord⟩ := hgroup.seqs _ _ hcallSeq
      exact ⟨call, callSeq, callRecord, id, hgroup.planned_eq hcall, hcallRecord, hresult, rfl⟩
  | @skippedCall call skipped rest =>
    obtain ⟨hcallOf, hresultOf⟩ := recorded_call hdata
    obtain ⟨place, ⟨hcalls, hresults, hcommits, hdispatched⟩, hreached, hcontexts, hfollows⟩ := h
    rw [hcallOf, hresultOf, hseq, toList_none, List.append_nil, toList_some]
    refine ⟨hledger.call (hcalls ▸ hfollows.next.1), place, ⟨?_, hresults, hcommits, ?_⟩, hreached,
      hcontexts, hfollows, _, getElem?_concat_length hcalls⟩
    · rw [List.length_append, hcalls]
      rfl
    · exact fun position hposition => Nat.lt_succ_of_lt (hdispatched position hposition)
  | @skippedResult id call skipped rest callSeq =>
    obtain ⟨hcallOf, data, hresultOf, hresult⟩ := recorded_result hdata hop
    obtain ⟨place, ⟨hcalls, hresults, hcommits, hdispatched⟩, hreached, hcontexts, hfollows,
      callRecord, hcallRecord⟩ := h
    rw [hcallOf, hresultOf, hsources, toList_none, List.append_nil, toList_some]
    refine ⟨hledger.result (hcommits.trans hresults.symm) _, place, ⟨hcalls, ?_, hcommits, hdispatched⟩,
      hreached, hcontexts, hfollows.next.2, ?_⟩
    · rw [List.length_append, hresults]
      rfl
    · intro record hrecord
      rw [getElem?_concat_length hresults] at hrecord
      obtain rfl := some.inj hrecord
      exact ⟨call, callSeq, callRecord, id, hfollows.next.1, hcallRecord, hresult, rfl⟩

structure InOrder (out : Outside) (c : Control) (w : AgentWorld) : Prop where
  start : w.tools.start ≤ w.log.length
  orders : c.Orders out w.tools (w.tools.calls w.log) (w.tools.results w.log)

theorem Left.keeps (hkeeps : KeepsOrder tools tools') (hexit : tools'.exit = tools.exit)
    (h : Left out tools callLog resultLog) : Left out tools' callLog resultLog := by
  obtain ⟨⟨turn, step, hledger⟩, hcommits, hcomplete⟩ := h
  refine ⟨⟨turn, step, hledger.keeps hkeeps⟩, by rw [hkeeps.commits]; exact hcommits, ?_⟩
  intro concluded hreturned
  rw [hexit] at hreturned
  exact (hcomplete concluded hreturned).keeps hkeeps

theorem Control.Orders.keeps (hkeeps : KeepsOrder tools tools') (hexit : tools'.exit = tools.exit)
    (h : c.Orders out tools callLog resultLog) : c.Orders out tools' callLog resultLog := by
  cases c with
  | inStep vars step stage =>
    cases stage with
    | tools point =>
      obtain ⟨hnone, hledger, horders⟩ := h
      exact ⟨hexit.trans hnone, hledger.keeps hkeeps, horders.keeps hkeeps⟩
    | _ => exact Left.keeps hkeeps hexit h
  | _ => exact Left.keeps hkeeps hexit h

theorem InOrder.unrecorded (h : InOrder out c w) (hevent : IsUnrecorded event) :
    InOrder out c { w with log := w.log ++ [event] } := by
  refine ⟨?_, ?_⟩
  · show w.tools.start ≤ (w.log ++ [event]).length
    rw [List.length_append]
    exact Nat.le_add_right_of_le h.start
  · show c.Orders out w.tools (w.tools.calls (w.log ++ [event])) (w.tools.results (w.log ++ [event]))
    rw [calls_concat h.start, results_concat h.start, hevent.1, hevent.2, toList_none,
      List.append_nil, toList_none, List.append_nil]
    exact h.orders

theorem OthersStep.inOrder (hstep : OthersStep isForeign w w') (h : InOrder out c w) :
    InOrder out c w' := by
  cases hstep with
  | foreign _ hforeign => exact h.unrecorded (isUnrecorded_of_isForeign hforeign)
  | inboxSpliced _ hdata => exact h.unrecorded (isUnrecorded_of_data hdata rfl)
  | @settle index outcome =>
    have hkeeps := @keepsOrder_settle w.tools index outcome
    have hstart : (w.tools.settle index outcome).start = w.tools.start := by cases outcome <;> rfl
    have hexit : (w.tools.settle index outcome).exit = w.tools.exit := by cases outcome <;> rfl
    refine ⟨hstart ▸ h.start, ?_⟩
    have horders := h.orders.keeps hkeeps hexit
    simp only [calls, results, hstart]
    exact horders
  | _ => exact ⟨h.start, h.orders⟩

theorem PhaseStep.inOrder (hstep : PhaseStep c w c' w') (h : InOrder out c w) : InOrder out c' w' := by
  cases hstep <;> exact ⟨h.start, h.orders⟩

theorem Moves.inOrder (hmoves : Moves out w c c') (hpool : PoolOf out c w) (h : InOrder out c w) :
    InOrder out c' w := by
  refine ⟨h.start, ?_⟩
  have horders := h.orders
  cases hmoves with
  | inStep hmoves =>
    cases hmoves with
    | tool hmoves =>
      obtain ⟨hnone, hledger, horders⟩ := horders
      exact ⟨hnone, hledger, hmoves.orders hledger hpool.pooled.ok hpool.pools horders⟩
    | _ => exact horders
  | @stepEndRefused _ _ stage hover =>
    cases stage <;> first | exact horders | cases hover
  | fail hturn =>
    cases c <;> first | exact horders | cases hturn
  | _ => exact horders

theorem Logs.inOrder
    (hlogs : Logs out c event.data event.sourceEventSeqs event.surfaceOp event.seq c')
    (hpool : PoolOf out c w) (h : InOrder out c w) : InOrder out c' { w with log := w.log ++ [event] } := by
  generalize hdata : event.data = data at hlogs
  generalize hsources : event.sourceEventSeqs = sources at hlogs
  generalize hop : event.surfaceOp = surfaceOp at hlogs
  generalize hseq : event.seq = seq at hlogs
  cases hlogs with
  | inStep hlogs =>
    cases hlogs with
    | tool hlogs =>
      rw [← hdata, ← hsources, ← hop, ← hseq] at hlogs
      obtain ⟨hnone, hledger, horders⟩ := h.orders
      obtain ⟨hledger, horders⟩ := hlogs.orders hledger hpool.pools horders
      refine ⟨(List.length_append ▸ Nat.le_add_right_of_le h.start), hnone, ?_⟩
      rw [calls_concat h.start, results_concat h.start]
      exact ⟨hledger, horders⟩
    | _ =>
      have hunrecorded := h.unrecorded (isUnrecorded_of_data hdata rfl)
      exact ⟨hunrecorded.start, hunrecorded.orders⟩
  | _ =>
    have hunrecorded := h.unrecorded (isUnrecorded_of_data hdata rfl)
    exact ⟨hunrecorded.start, hunrecorded.orders⟩

theorem calls_openTools (planned : List ToolCallBlock) :
    calls { start := log.length, planned } log = [] := by
  simp [calls]

theorem results_openTools (planned : List ToolCallBlock) :
    results { start := log.length, planned } log = [] := by
  simp [results]

theorem ledger_openTools (start : Nat) (planned : List ToolCallBlock) :
    Ledger out turn step { start, planned } [] [] where
  calls := rfl
  results := by
    intro index record commit hrecord
    rw [List.getElem?_nil] at hrecord
    cases hrecord
  made := by
    intro index commit hcommit
    rw [List.getElem?_nil] at hcommit
    cases hcommit
  contexts := List.nil_prefix

theorem StepWrites.inOrder {vars : TurnVars} {stage stage' : Stage}
    (hwrites : StepWrites out stage w stage' w') (hpool : PoolOf out (.inStep vars step stage) w)
    (h : InOrder out (.inStep vars step stage) w) : InOrder out (.inStep vars step stage') w' := by
  obtain ⟨hstart, horders⟩ := h
  cases hwrites with
  | @openTools _ planned =>
    refine ⟨Nat.le_refl _, rfl, ?_⟩
    show Ledger _ _ _ _ (calls { start := w.log.length, planned } w.log)
      (results { start := w.log.length, planned } w.log) ∧ ToolPoint.between.Orders _ _ _ _ _ _
    rw [calls_openTools, results_openTools]
    exact ⟨ledger_openTools _ _, ⟨rfl, rfl, rfl, nofun⟩, rfl⟩
  | toolsReturn =>
    obtain ⟨-, hledger, hcomplete⟩ := horders
    refine ⟨hstart, ⟨_, _, hledger.calls, hledger.results, hledger.made, hledger.contexts⟩, ?_, ?_⟩
    · exact hcomplete.results.trans hcomplete.commits.symm
    · exact fun _ _ => ⟨hcomplete.calls, hcomplete.results, hcomplete.commits, hcomplete.contexts⟩
  | toolsFail =>
    obtain ⟨-, hledger, hcommits⟩ := horders
    exact ⟨hstart, ⟨_, _, hledger.calls, hledger.results, hledger.made, hledger.contexts⟩, hcommits, nofun⟩
  | tool hwrites =>
    obtain ⟨hnone, hledger, horders⟩ := horders
    have hkept : w'.log = w.log ∧ w'.tools.start = w.tools.start ∧ w'.tools.exit = w.tools.exit := by
      cases hwrites <;> exact ⟨rfl, rfl, rfl⟩
    obtain ⟨hlog, hsince, hexit⟩ := hkept
    obtain ⟨hledger, horders⟩ := hwrites.orders hledger hpool.pooled.ok hpool.pools horders
    refine ⟨?_, ?_⟩
    · rw [hlog, hsince]
      exact hstart
    · simp only [calls, results, hlog, hsince]
      exact ⟨hexit.trans hnone, hledger, horders⟩
  | _ => exact ⟨hstart, horders⟩

theorem AgentStep.inOrder (hstep : AgentStep out isForeign c w c' w') (hpool : PoolOf out c w)
    (h : InOrder out c w) : InOrder out c' w' := by
  cases hstep with
  | others hstep => exact hstep.inOrder h
  | phase hstep => exact hstep.inOrder h
  | moves hstep => exact hstep.inOrder hpool h
  | logs _ hstep => exact hstep.inOrder hpool h
  | writes hstep =>
    cases hstep with
    | inStep hstep => exact hstep.inOrder hpool h
    | _ => exact ⟨h.start, h.orders⟩

theorem AgentRuns.inOrder {init : AgentWorld} (hruns : AgentRuns out isForeign init c w)
    (hhistory : init.history = []) (htools : init.tools = { start := init.log.length }) :
    InOrder out c w := by
  have hgroup : init.tools.group = {} := by rw [htools]
  refine hruns.invariant (InOrder out) ?_ fun hruns h hstep => hstep.inOrder (hruns.pools hhistory hgroup) h
  intro _
  refine ⟨?_, ?_⟩
  · apply Nat.le_of_eq
    rw [htools]
  · rw [htools, calls_openTools, results_openTools]
    exact ⟨⟨0, 0, ledger_openTools _ _⟩, rfl, nofun⟩

end Recording

section Scheduling

variable {out : Outside} {turn step : Nat} {w : AgentWorld} {c : Control} {point : ToolPoint}
  {tools : ToolRun} {callLog : List (Nat × ToolCallData)}
  {resultLog : List (ToolResultData × Option Json)}

structure Scheduled (out : Outside) (w : AgentWorld) : Prop where
  ledger : ∃ turn step, Ledger out turn step w.tools (w.tools.calls w.log) (w.tools.results w.log)
  complete : ∀ concluded, w.tools.exit = some (.returned concluded) →
    Complete w.tools (w.tools.calls w.log) (w.tools.results w.log)
  left : w.tools.exit.isSome = true →
    running w.history = [] ∧ (w.tools.results w.log).length = w.tools.commits.length
  cap : (running w.history).length ≤ w.tools.group.maxParallelToolCalls
  alone : Throughout AdmittedAlone w.history
  modes : ∀ body ∈ running w.history, ∃ call time, w.tools.planned[body.1]? = some call ∧
    out.executionMode time call = .ok body.2

theorem inGroup_of_not_quiet (h : point.Orders out turn step tools callLog resultLog)
    (hpools : point.Pools out tools.group) (hquiet : ¬tools.group.Quiet) : InGroup tools callLog := by
  have hempty : tools.group.inFlight ≠ [] := fun hflight => hquiet (quiet_of_empty hflight)
  cases point with
  | between => exact absurd hpools hempty
  | pool => exact Abreast.group h
  | starting index call => exact Abreast.group h
  | called index seq => exact h.1
  | registered index => exact h.1.group
  | placed => exact Abreast.group h
  | changed => exact Abreast.group h
  | commits left => exact Abreast.group h
  | committing left call slot seq => exact h.1.group
  | resulted left slot result => exact h.1
  | accepting left result contexts => exact h.1
  | finishing started concluded => exact absurd hpools.1 hempty
  | skipping skipped rest => exact absurd hpools hempty
  | skipCalled call seq skipped rest => exact absurd hpools hempty
  | skipResulted skipped rest => exact absurd hpools hempty
  | failing failure => exact h.1
  | leaving exit =>
    cases exit with
    | returned concluded => exact absurd hpools hempty
    | failed => exact absurd hpools hquiet

theorem InOrder.left (h : InOrder out c w) (hpool : PoolOf out c w) :
    Left out w.tools (w.tools.calls w.log) (w.tools.results w.log) ∧ w.tools.group.Quiet ∨
      w.tools.exit = none ∧
        ∃ turn step, ∃ point : ToolPoint,
          Ledger out turn step w.tools (w.tools.calls w.log) (w.tools.results w.log) ∧
            point.Orders out turn step w.tools (w.tools.calls w.log) (w.tools.results w.log) ∧
            point.Pools out w.tools.group := by
  obtain ⟨-, horders⟩ := h
  have hpools := hpool.pools
  cases c with
  | inStep vars step stage =>
    cases stage with
    | tools point => exact .inr ⟨horders.1, _, _, point, horders.2.1, horders.2.2, hpools⟩
    | _ => exact .inl ⟨horders, hpools⟩
  | _ => exact .inl ⟨horders, hpools⟩

theorem scheduled_of_inOrder (h : InOrder out c w) (hpool : PoolOf out c w) : Scheduled out w := by
  have hpooled := hpool.pooled
  have hcap : (running w.history).length ≤ w.tools.group.maxParallelToolCalls := by
    rw [hpooled.running, List.length_map]
    exact Nat.le_trans (List.length_filter_le _ _) hpooled.ok.cap
  rcases h.left hpool with ⟨⟨hledger, hcommits, hcomplete⟩, hquiet⟩ |
    ⟨hnone, turn, step, point, hledger, horders, hpools⟩
  · have hnil := running_nil hpooled hquiet
    refine ⟨hledger, hcomplete, fun _ => ⟨hnil, hcommits⟩, hcap, hpooled.alone, ?_⟩
    rw [hnil]
    exact nofun
  · refine ⟨⟨turn, step, hledger⟩, ?_, ?_, hcap, hpooled.alone, ?_⟩
    · intro concluded hexit
      cases hnone.symm.trans hexit
    · intro hexit
      rw [hnone] at hexit
      cases hexit
    · intro body hbody
      rw [hpooled.running] at hbody
      obtain ⟨index, hindex, rfl⟩ := List.mem_map.mp hbody
      obtain ⟨hflight, hsettled⟩ := List.mem_filter.mp hindex
      have hgroup := inGroup_of_not_quiet horders hpools fun hquiet =>
        of_decide_eq_true hsettled (hquiet index hflight)
      have hstarted := hpooled.ok.flight index hflight
      have hlt := Nat.lt_of_lt_of_le hstarted hpooled.ok.started
      have hcall := List.getElem?_eq_getElem hlt
      obtain ⟨time, hmode⟩ := hpooled.ok.modes index hstarted _ hcall
      exact ⟨_, time, hgroup.planned_eq hcall, hmode⟩

/-- Whatever the order of events, calls are scheduled safely and in order. -/
theorem schedules_tool_calls {log : List SessionEvent} {inbox : Inbox} {lastTurn : Nat} {s : AgentState}
    (h : LoopReaches (agentLoop out isForeign) ⟨initialWorld log inbox lastTurn, [], []⟩ s) :
    Scheduled out s.world := by
  obtain ⟨c, hruns⟩ := agentLoop_refines rfl rfl h
  exact scheduled_of_inOrder (hruns.inOrder rfl rfl) (hruns.pools rfl rfl)

end Scheduling

section Lowered

def completed : AgentState :=
  enterFor (parallelOutside "one" "two") (bodyReturns 1) 400
    (enterFor (parallelOutside "one" "two") (bodyReturns 0) 100 (dispatched "one" "two"))

theorem reaches_completed :
    LoopReaches (agentLoop (parallelOutside "one" "two") isForeign) fresh completed := by
  have hanswered : LoopReaches (agentLoop (parallelOutside "one" "two") isForeign) fresh
      (enterFor (parallelOutside "one" "two") (bodyReturns 0) 100 (dispatched "one" "two")) :=
    reaches_enterFor (reaches_dispatched _ _) (by decide) _
      (isEnabled_bodyReturns (by decide) (by decide)) 100
  exact reaches_enterFor hanswered (by decide) _
    (isEnabled_bodyReturns (by decide) (by decide)) 400

theorem schedules_tool_calls_parallel :
    ∃ s : AgentState, LoopReaches (agentLoop (parallelOutside "one" "two") isForeign)
      ⟨initialWorld [] {} 0, [], []⟩ s ∧ s.world.tools.exit = some (.returned false) ∧
        s.world.tools.planned.length = 2 ∧ Scheduled (parallelOutside "one" "two") s.world := by
  refine ⟨completed, reaches_completed, by decide, by decide, ?_⟩
  exact schedules_tool_calls reaches_completed

def loweringOutside : Outside :=
  { parallelOutside "one" "two" with
    maxParallelToolCalls := fun time => if time ≤ 30 then 2 else 1 }

def oneDispatched : AgentState := enterFor loweringOutside (sendText "start" .nextTurn) 240 fresh

/-- The cap was lowered, but another call joins the one that runs. -/
theorem exceeds_lowered_cap :
    ∃ s t : AgentState, LoopReaches (agentLoop loweringOutside isForeign) ⟨initialWorld [] {} 0, [], []⟩ s ∧
      LoopReaches (agentLoop loweringOutside isForeign) s t ∧
      loweringOutside.maxParallelToolCalls s.world.clock = 1 ∧ (running s.world.history).length = 1 ∧
      loweringOutside.maxParallelToolCalls t.world.clock = 1 ∧ (running t.world.history).length = 2 := by
  refine ⟨oneDispatched, runTimes (agentLoop loweringOutside isForeign) 60 oneDispatched, ?_, ?_, ?_⟩
  · exact reaches_enterFor (.refl _) rfl _ (isEnabled_sendText _ _ _) 240
  · exact (LoopReaches.refl _).runTimes 60
  · decide

end Lowered

end DshKernel.Agent
