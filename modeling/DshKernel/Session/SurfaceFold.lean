import DshKernel.Session.Surface

/-!
# Accepted logs

`Folds log state replacements` says that `foldSurface` accepts `log` and what it arrives at, one
event at a time from the front. It is the induction principle for accepted logs.
-/

namespace DshKernel.Session

open Js List

section Plan

variable {state : SurfaceFoldState} {event : SessionEvent} {expectedSeq baseSeq : Nat}
variable {events : List SessionEvent}

theorem planSurfaceEvent_cases {plan : Option SurfacePlan}
    (h : planSurfaceEvent state event expectedSeq events baseSeq = .ok plan) :
    event.seq = expectedSeq ∧
      ((plan = none ∧ surfaceOpOf event = .ok none) ∨
        (plan = some (.append expectedSeq) ∧ surfaceOpOf event = .ok (some .append) ∧
          assertProvenance event [] = .ok ()) ∨
        ∃ startSeq endSeq range, plan = some (.replace expectedSeq startSeq endSeq range) ∧
          surfaceOpOf event = .ok (some (.replace startSeq endSeq)) ∧
          replacementRange state startSeq endSeq = .ok range ∧
          assertProvenance event range.shadowedSeqs = .ok () ∧
          assertToolResultRewrite event range.shadowedSeqs events baseSeq = .ok ()) := by
  have hseq : event.seq = expectedSeq := by
    by_cases heq : event.seq = expectedSeq
    · exact heq
    · simp [planSurfaceEvent, heq] at h
  refine ⟨hseq, ?_⟩
  simp only [planSurfaceEvent, hseq, ne_eq, not_true_eq_false, if_false] at h
  cases hop : surfaceOpOf event with
  | error message => simp [hop] at h
  | ok op =>
    cases op with
    | none =>
      simp only [hop, Except.ok.injEq] at h
      exact Or.inl ⟨h.symm, rfl⟩
    | some op =>
      cases op with
      | append =>
        cases hprov : assertProvenance event [] with
        | error message => simp [hop, hprov] at h
        | ok =>
          simp only [hop, hprov, Except.ok.injEq] at h
          exact Or.inr (Or.inl ⟨h.symm, rfl, rfl⟩)
      | replace startSeq endSeq =>
        cases hrange : replacementRange state startSeq endSeq with
        | error message => simp [hop, hrange] at h
        | ok range =>
          cases hprov : assertProvenance event range.shadowedSeqs with
          | error message => simp [hop, hrange, hprov] at h
          | ok =>
            cases hrewrite :
                assertToolResultRewrite event range.shadowedSeqs events baseSeq with
            | error message => simp [hop, hrange, hprov, hrewrite] at h
            | ok =>
              simp only [hop, hrange, hprov, hrewrite, Except.ok.injEq] at h
              exact Or.inr (Or.inr ⟨startSeq, endSeq, range, h.symm, rfl, hrange, hprov, hrewrite⟩)

variable {endSeq seq startSeq : Nat} {range : SurfaceRange}

theorem replacementRange_ok
    (h : replacementRange state startSeq endSeq = .ok range) :
    state.nodes.idxOf? startSeq = some range.startIdx ∧
      state.nodes.idxOf? endSeq = some range.endIdx ∧ range.startIdx ≤ range.endIdx ∧
      range.shadowedSeqs = (state.nodes.take (range.endIdx + 1)).drop range.startIdx := by
  cases hstart : state.nodes.idxOf? startSeq with
  | none => simp [replacementRange, hstart] at h
  | some startIdx =>
    cases hend : state.nodes.idxOf? endSeq with
    | none => simp [replacementRange, hstart, hend] at h
    | some endIdx =>
      by_cases hle : endIdx < startIdx
      · simp [replacementRange, hstart, hend, hle] at h
      · simp only [replacementRange, hstart, hend, hle, if_false, Except.ok.injEq] at h
        subst h
        exact ⟨rfl, rfl, Nat.le_of_not_lt hle, rfl⟩

theorem mem_nodes_of_mem_shadowedSeqs
    (h : replacementRange state startSeq endSeq = .ok range) (hseq : seq ∈ range.shadowedSeqs) :
    seq ∈ state.nodes := by
  obtain ⟨-, -, -, hshadowed⟩ := replacementRange_ok h
  rw [hshadowed] at hseq
  exact mem_of_mem_take (mem_of_mem_drop hseq)

theorem eventAtSeq_append (more : List SessionEvent) (h : seq < baseSeq + events.length) :
    eventAtSeq (events ++ more) baseSeq seq = eventAtSeq events baseSeq seq := by
  unfold eventAtSeq
  split
  · rfl
  · rw [getElem?_append_left (by omega)]

theorem assertToolResultRewrite_append {shadowedSeqs : List Nat} (more : List SessionEvent)
    (h : ∀ seq ∈ shadowedSeqs, seq < baseSeq + events.length) :
    assertToolResultRewrite event shadowedSeqs (events ++ more) baseSeq =
      assertToolResultRewrite event shadowedSeqs events baseSeq := by
  unfold assertToolResultRewrite
  cases event.data with
  | toolResult data =>
    match shadowedSeqs, h with
    | [], _ => rfl
    | [seq], h => simp only [eventAtSeq_append more (h seq mem_cons_self)]
    | _ :: _ :: _, _ => rfl
  | _ => rfl

theorem planSurfaceEvent_append (more : List SessionEvent)
    (h : ∀ seq ∈ state.nodes, seq < baseSeq + events.length) :
    planSurfaceEvent state event expectedSeq (events ++ more) baseSeq =
      planSurfaceEvent state event expectedSeq events baseSeq := by
  unfold planSurfaceEvent
  cases surfaceOpOf event with
  | error message => rfl
  | ok op =>
    cases op with
    | none => rfl
    | some op =>
      cases op with
      | append => rfl
      | replace startSeq endSeq =>
        cases hrange : replacementRange state startSeq endSeq with
        | error message => simp only [hrange]
        | ok range =>
          have hshadowed : ∀ seq ∈ range.shadowedSeqs, seq < baseSeq + events.length :=
            fun seq hseq => h seq (mem_nodes_of_mem_shadowedSeqs hrange hseq)
          simp only [hrange, assertToolResultRewrite_append more hshadowed]

end Plan

/-- `foldSurface` accepts the log and arrives at this state. -/
inductive Folds :
    List SessionEvent → SurfaceFoldState → List SurfaceFoldReplacement → Prop where
  | nil : Folds [] createFoldState []
  | snoc {log : List SessionEvent} {state : SurfaceFoldState}
      {replacements : List SurfaceFoldReplacement} {event : SessionEvent}
      {plan : Option SurfacePlan} :
      Folds log state replacements → log.length ≤ maxSafeInteger →
      planSurfaceEvent state event log.length log 0 = .ok plan →
      Folds (log ++ [event]) (applySurfacePlan state plan).1
        (replacements ++ (applySurfacePlan state plan).2.toList)

namespace Folds

variable {log : List SessionEvent} {state : SurfaceFoldState}
variable {replacements : List SurfaceFoldReplacement}

theorem seq_eq (h : Folds log state replacements) :
    ∀ (i : Nat) (hi : i < log.length), log[i].seq = i := by
  induction h with
  | nil => intro i hi; simp at hi
  | @snoc log _ _ event _ _ _ hplan ih =>
    intro i hi
    by_cases hlt : i < log.length
    · rw [getElem_append_left hlt]
      exact ih i hlt
    · have heq : i = log.length := by simp at hi; omega
      subst heq
      simpa using (planSurfaceEvent_cases hplan).1

theorem nodes_lt (h : Folds log state replacements) : ∀ seq ∈ state.nodes, seq < log.length := by
  induction h with
  | nil => simp [createFoldState]
  | @snoc log state _ event plan _ _ hplan ih =>
    have hold : ∀ seq ∈ state.nodes, seq < log.length + 1 :=
      fun seq hseq => Nat.lt_succ_of_lt (ih seq hseq)
    intro seq hseq
    rw [length_append, length_singleton]
    rcases (planSurfaceEvent_cases hplan).2 with
      ⟨rfl, -⟩ | ⟨rfl, -⟩ | ⟨startSeq, endSeq, range, rfl, -⟩
    · exact hold seq hseq
    · simp only [applySurfacePlan, mem_append, mem_singleton] at hseq
      rcases hseq with hseq | rfl
      · exact hold seq hseq
      · omega
    · simp only [applySurfacePlan, mem_append, mem_cons] at hseq
      rcases hseq with hseq | rfl | hseq
      · exact hold seq (mem_of_mem_take hseq)
      · omega
      · exact hold seq (mem_of_mem_drop hseq)

theorem unique (h : Folds log state replacements) :
    ∀ {state' replacements'}, Folds log state' replacements' →
      state' = state ∧ replacements' = replacements := by
  induction h with
  | nil =>
    intro state' replacements' h'
    generalize hlog : ([] : List SessionEvent) = log at h'
    cases h' with
    | nil => exact ⟨rfl, rfl⟩
    | snoc => simp at hlog
  | @snoc log _ _ event _ _ _ hplan ih =>
    intro state' replacements' h'
    generalize hlog : log ++ [event] = log' at h'
    cases h' with
    | nil => simp at hlog
    | @snoc log₂ _ _ event₂ _ hfold _ hplan' =>
      obtain ⟨rfl, hevent⟩ := append_inj' hlog rfl
      cases hevent
      obtain ⟨rfl, rfl⟩ := ih hfold
      rw [hplan] at hplan'
      cases hplan'
      exact ⟨rfl, rfl⟩

theorem take (h : Folds log state replacements) :
    ∀ n, ∃ state' replacements', Folds (log.take n) state' replacements' := by
  induction h with
  | nil => intro n; exact ⟨_, _, by simpa using Folds.nil⟩
  | @snoc log _ _ event _ hfold hle hplan ih =>
    intro n
    by_cases hn : n ≤ log.length
    · rw [take_append_of_le_length hn]
      exact ih n
    · rw [take_of_length_le (by simp; omega)]
      exact ⟨_, _, hfold.snoc hle hplan⟩

/-- The step that accepted position `n` of the log. -/
theorem getElem_plan (h : Folds log state replacements) {n : Nat} (hn : n < log.length)
    {state' : SurfaceFoldState} {replacements' : List SurfaceFoldReplacement}
    (hbefore : Folds (log.take n) state' replacements') :
    n ≤ maxSafeInteger ∧ ∃ plan,
      planSurfaceEvent state' log[n] n (log.take n) 0 = .ok plan ∧
      Folds (log.take (n + 1)) (applySurfacePlan state' plan).1
        (replacements' ++ (applySurfacePlan state' plan).2.toList) := by
  obtain ⟨state₂, replacements₂, hnext⟩ := h.take (n + 1)
  have hlen : (log.take n).length = n := by simp; omega
  rw [take_succ_eq_append_getElem hn] at hnext ⊢
  generalize hlog : log.take n ++ [log[n]] = log' at hnext ⊢
  cases hnext with
  | nil => exact absurd hlog (append_ne_nil_of_right_ne_nil _ (cons_ne_nil _ _))
  | @snoc log₂ _ _ event₂ plan hfold hle hplan =>
    obtain ⟨rfl, hevent⟩ := append_inj' hlog rfl
    cases hevent
    obtain ⟨rfl, rfl⟩ := hbefore.unique hfold
    rw [hlen] at hle hplan
    exact ⟨hle, plan, hplan, hbefore.snoc (by rwa [hlen]) (by rwa [hlen])⟩

end Folds

section Loop

variable {events : List SessionEvent}

theorem foldSurfaceLoop_append (rest more : List SessionEvent) (index : Nat)
    (state : SurfaceFoldState) (replacements : List SurfaceFoldReplacement) :
    foldSurfaceLoop events index (rest ++ more) state replacements =
      match foldSurfaceLoop events index rest state replacements with
      | .error message => .error message
      | .ok (state', replacements') =>
        foldSurfaceLoop events (index + rest.length) more state' replacements' := by
  induction rest generalizing index state replacements with
  | nil => simp [foldSurfaceLoop]
  | cons event rest ih =>
    simp only [cons_append, foldSurfaceLoop]
    cases SessionSeq index with
    | error message => rfl
    | ok expectedSeq =>
      simp only
      cases applySurfaceEvent state event expectedSeq events 0 with
      | error message => rfl
      | ok next =>
        obtain ⟨next, replacement⟩ := next
        simp only [ih, length_cons]
        rw [Nat.add_right_comm, Nat.add_assoc index]

def foldSurfaceStep (log : List SessionEvent) (event : SessionEvent)
    (state : SurfaceFoldState) : Except String (Option SurfacePlan) :=
  match SessionSeq log.length with
  | .error message => .error message
  | .ok expectedSeq => planSurfaceEvent state event expectedSeq log 0

theorem foldSurfaceStep_eq_ok {log : List SessionEvent} {event : SessionEvent}
    {state : SurfaceFoldState} {plan : Option SurfacePlan} :
    foldSurfaceStep log event state = .ok plan ↔
      log.length ≤ maxSafeInteger ∧ planSurfaceEvent state event log.length log 0 = .ok plan := by
  unfold foldSurfaceStep
  by_cases hle : log.length ≤ maxSafeInteger
  · simp [SessionSeq, hle]
  · simp [SessionSeq, hle]

theorem foldSurfaceLoop_singleton {log more : List SessionEvent} {event : SessionEvent}
    {state : SurfaceFoldState} (replacements : List SurfaceFoldReplacement)
    (hnodes : ∀ seq ∈ state.nodes, seq < log.length) :
    foldSurfaceLoop (log ++ more) log.length [event] state replacements =
      match foldSurfaceStep log event state with
      | .error message => .error message
      | .ok plan => .ok ((applySurfacePlan state plan).1,
          replacements ++ (applySurfacePlan state plan).2.toList) := by
  have hbound : ∀ seq ∈ state.nodes, seq < 0 + log.length := by simpa using hnodes
  simp only [foldSurfaceLoop, foldSurfaceStep, applySurfaceEvent]
  cases SessionSeq log.length with
  | error message => rfl
  | ok expectedSeq =>
    simp only [planSurfaceEvent_append more hbound]
    cases planSurfaceEvent state event expectedSeq log 0 with
    | error message => rfl
    | ok plan => rfl

theorem Folds.foldSurfaceLoop_eq {log : List SessionEvent} {state : SurfaceFoldState}
    {replacements : List SurfaceFoldReplacement} (h : Folds log state replacements)
    (more : List SessionEvent) :
    foldSurfaceLoop (log ++ more) 0 log createFoldState [] = .ok (state, replacements) := by
  induction h generalizing more with
  | nil => rfl
  | @snoc log state replacements event plan hfold hle hplan ih =>
    have hstep := foldSurfaceStep_eq_ok.mpr ⟨hle, hplan⟩
    rw [append_assoc, foldSurfaceLoop_append, ih, Nat.zero_add]
    simp only [foldSurfaceLoop_singleton replacements hfold.nodes_lt, hstep]

theorem Folds.foldSurface_eq {log : List SessionEvent} {state : SurfaceFoldState}
    {replacements : List SurfaceFoldReplacement} (h : Folds log state replacements) :
    foldSurface log = .ok ⟨state.nodes, replacements⟩ := by
  have hloop := h.foldSurfaceLoop_eq []
  rw [append_nil] at hloop
  simp [foldSurface, hloop]

/-- `foldSurface` on one more event: the step decides, with its own message. -/
theorem Folds.foldSurface_snoc {log : List SessionEvent} {state : SurfaceFoldState}
    {replacements : List SurfaceFoldReplacement} (h : Folds log state replacements)
    (event : SessionEvent) :
    foldSurface (log ++ [event]) =
      match foldSurfaceStep log event state with
      | .error message => .error message
      | .ok plan => .ok ⟨(applySurfacePlan state plan).1.nodes,
          replacements ++ (applySurfacePlan state plan).2.toList⟩ := by
  simp only [foldSurface]
  rw [foldSurfaceLoop_append, h.foldSurfaceLoop_eq, Nat.zero_add]
  simp only [foldSurfaceLoop_singleton replacements h.nodes_lt]
  cases foldSurfaceStep log event state with
  | error message => rfl
  | ok plan => rfl

theorem Folds.of_foldSurfaceLoop {log rest : List SessionEvent} {state : SurfaceFoldState}
    {replacements : List SurfaceFoldReplacement} (h : Folds log state replacements)
    {result : SurfaceFoldState × List SurfaceFoldReplacement}
    (hloop : foldSurfaceLoop (log ++ rest) log.length rest state replacements = .ok result) :
    Folds (log ++ rest) result.1 result.2 := by
  induction rest generalizing log state replacements with
  | nil =>
    simp only [foldSurfaceLoop, Except.ok.injEq] at hloop
    subst hloop
    simpa using h
  | cons event rest ih =>
    rw [← singleton_append, foldSurfaceLoop_append,
      foldSurfaceLoop_singleton replacements h.nodes_lt] at hloop
    cases hstep : foldSurfaceStep log event state with
    | error message => simp [hstep] at hloop
    | ok plan =>
      obtain ⟨hle, hplan⟩ := foldSurfaceStep_eq_ok.mp hstep
      simp only [hstep] at hloop
      rw [← singleton_append, ← append_assoc]
      apply ih (h.snoc hle hplan)
      simpa [append_assoc] using hloop

/-- What `foldSurface` accepts is derived by `Folds`. -/
theorem exists_folds_of_foldSurface {log : List SessionEvent} {result : SurfaceFoldResult}
    (h : foldSurface log = .ok result) :
    ∃ state, Folds log state result.replacements ∧ state.nodes = result.nodes := by
  unfold foldSurface at h
  cases hloop : foldSurfaceLoop log 0 log createFoldState [] with
  | error message => simp [hloop] at h
  | ok pair =>
    simp only [hloop, Except.ok.injEq] at h
    subst h
    have hfold := Folds.nil.of_foldSurfaceLoop hloop
    exact ⟨pair.1, hfold, rfl⟩

end Loop

section Generation

variable {event : SessionEvent}

theorem exists_replace_of_isReplaceOp {raw : Json} {op : SurfaceOp}
    (h : isReplaceOp raw = some op) : ∃ startSeq endSeq, op = .replace startSeq endSeq := by
  unfold isReplaceOp at h
  split at h
  · split at h
    · split at h
      · split at h
        · split at h
          · exact ⟨_, _, (Option.some.inj h).symm⟩
          · simp at h
        · simp at h
      · simp at h
    · simp at h
  · simp at h

theorem surfaceOpOf_cases {op : Option SurfaceOp} (h : surfaceOpOf event = .ok op) :
    (op = none ∧ isSurfaceEligibleType event.type = false ∧ event.surfaceOp = none ∧
        event.sourceEventSeqs = none) ∨
      (isSurfaceEligibleType event.type = true ∧ ∃ raw, event.surfaceOp = some raw ∧
        ((op = some .append ∧ isAppendOp raw = true) ∨
          ∃ startSeq endSeq, op = some (.replace startSeq endSeq) ∧ isAppendOp raw = false ∧
            isReplaceOp raw = some (.replace startSeq endSeq))) := by
  unfold surfaceOpOf at h
  cases htype : isSurfaceEligibleType event.type with
  | false =>
    cases hop : event.surfaceOp with
    | some raw => simp [htype, hop] at h
    | none =>
      cases hsources : event.sourceEventSeqs with
      | some raw => simp [htype, hop, hsources] at h
      | none =>
        simp only [htype, hop, hsources, Option.isSome_none, Bool.false_eq_true, if_false,
          Except.ok.injEq] at h
        exact Or.inl ⟨h.symm, rfl, rfl, rfl⟩
  | true =>
    simp only [htype, if_true] at h
    cases hop : event.surfaceOp with
    | none => simp [hop] at h
    | some raw =>
      simp only [hop] at h
      refine Or.inr ⟨rfl, raw, rfl, ?_⟩
      cases happend : isAppendOp raw with
      | true =>
        simp only [happend, if_true, Except.ok.injEq] at h
        exact Or.inl ⟨h.symm, rfl⟩
      | false =>
        simp only [happend, Bool.false_eq_true, if_false] at h
        split at h
        · simp at h
        · cases hreplace : isReplaceOp raw with
          | none => simp [hreplace] at h
          | some replaceOp =>
            obtain ⟨startSeq, endSeq, rfl⟩ := exists_replace_of_isReplaceOp hreplace
            simp only [hreplace, Except.ok.injEq] at h
            exact Or.inr ⟨startSeq, endSeq, h.symm, rfl, rfl⟩

theorem isReplacementSurfaceEvent_of_plan {state : SurfaceFoldState}
    {expectedSeq baseSeq : Nat} {events : List SessionEvent} {plan : Option SurfacePlan}
    (h : planSurfaceEvent state event expectedSeq events baseSeq = .ok plan) :
    ((applySurfacePlan state plan).2.isSome ↔ isReplacementSurfaceEvent event = true) ∧
      (applySurfacePlan state plan).1.replaceGeneration =
        state.replaceGeneration + (applySurfacePlan state plan).2.toList.length := by
  obtain ⟨-, ⟨rfl, hop⟩ | ⟨rfl, hop, -⟩ | ⟨startSeq, endSeq, range, rfl, hop, -⟩⟩ :=
    planSurfaceEvent_cases h
  · rcases surfaceOpOf_cases hop with ⟨-, htype, -⟩ | ⟨-, raw, -, ⟨hne, -⟩ | ⟨_, _, hne, -⟩⟩
    · simp [applySurfacePlan, isReplacementSurfaceEvent, isSurfaceEvent, htype]
    · cases hne
    · cases hne
  · rcases surfaceOpOf_cases hop with ⟨hne, -⟩ | ⟨-, raw, hraw, ⟨-, happend⟩ | ⟨_, _, hne, -⟩⟩
    · cases hne
    · simp [applySurfacePlan, isReplacementSurfaceEvent, hraw, happend]
    · cases hne
  · rcases surfaceOpOf_cases hop with
      ⟨hne, -⟩ | ⟨htype, raw, hraw, ⟨hne, -⟩ | ⟨_, _, -, happend, -⟩⟩
    · cases hne
    · cases hne
    · simp [applySurfacePlan, isReplacementSurfaceEvent, isSurfaceEvent, htype, hraw, happend]

theorem Folds.replaceGeneration_eq {log : List SessionEvent} {state : SurfaceFoldState}
    {replacements : List SurfaceFoldReplacement} (h : Folds log state replacements) :
    state.replaceGeneration = replacements.length ∧
      replacements.length = (log.filter isReplacementSurfaceEvent).length := by
  induction h with
  | nil => exact ⟨rfl, rfl⟩
  | @snoc log state replacements event plan _ _ hplan ih =>
    obtain ⟨hsome, hgeneration⟩ := isReplacementSurfaceEvent_of_plan hplan
    rw [hgeneration, ih.1, length_append, filter_append, length_append, ← ih.2]
    refine ⟨rfl, ?_⟩
    cases hreplacement : (applySurfacePlan state plan).2 with
    | none =>
      have hfalse : isReplacementSurfaceEvent event = false := by
        simpa [hreplacement] using hsome
      simp [hfalse]
    | some replacement =>
      have htrue : isReplacementSurfaceEvent event = true := by
        simpa [hreplacement] using hsome
      simp [htrue]

end Generation

end DshKernel.Session
