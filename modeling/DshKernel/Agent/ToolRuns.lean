import DshKernel.Agent.DriverRuns

/-!
# The scheduler of tool calls keeps to the protocol

The stand of the driver behind each part of `executeToolCalls`. A failure within a group leaves it
at a point that the `catch` block of the group takes over.
-/

namespace DshKernel.Agent

open Js Lib Session Llm Program

section Points

variable (out : Outside) (foreign : Foreign) (init : AgentWorld)

abbrev Scheduling (vars : StepVars) (point : ToolPoint) (others : Others AgentSite) (w : AgentWorld) :
    Prop :=
  Driving out foreign init (.inStep vars.toTurnVars vars.step (.tools point)) others w

def Guarded (vars : StepVars) (others : Others AgentSite) (w : AgentWorld) : Prop :=
  ∃ point : ToolPoint, point.isGuarded = true ∧ Scheduling out foreign init vars point others w

variable {out foreign init} {others : Others AgentSite} {w : AgentWorld} {vars : StepVars}
  {point point' : ToolPoint}

theorem Driving.toolMoves (h : Scheduling out foreign init vars point others w)
    (hmoves : ToolMoves out w point point') : Scheduling out foreign init vars point' others w :=
  h.moves (.inStep (.tool hmoves))

theorem Driving.guarded (h : Scheduling out foreign init vars point others w)
    (hguarded : point.isGuarded = true) : Guarded out foreign init vars others w :=
  ⟨point, hguarded, h⟩

theorem Guarded.promise (h : Guarded out foreign init vars others w) :
    Upheld out foreign init others (call (.awaiting .promise)) w
      (Leaves (fun _ => Guarded out foreign init vars) fun _ _ _ => False) := by
  obtain ⟨point, hguarded, h⟩ := h
  exact (driving_promise h).weaken (fun _ _ _ h => ⟨point, hguarded, h⟩) fun _ _ _ h => h

theorem tool_write (point' : ToolPoint) (change : AgentWorld → AgentWorld)
    (h : Scheduling out foreign init vars point others w)
    (hwrites : ToolWrites out point w point' (change w))
    (happending : (change w).appending = w.appending) (hlog : (change w).log = w.log) :
    Upheld out foreign init others (modify change) w
      (Leaves (fun _ others' later => later = change w ∧
          Scheduling out foreign init vars point' others' later)
        fun _ _ _ => False) :=
  driving_write _ change h (.inStep (.tool hwrites)) rfl happending hlog

theorem tool_append (next : Nat → ToolPoint) {data : EventData} {sourceEventSeqs surfaceOp : Option Json}
    (h : Scheduling out foreign init vars point others w)
    (hlogs : ∀ seq, ToolLogs out vars.turn vars.step point data sourceEventSeqs surfaceOp seq (next seq)) :
    Upheld out foreign init others (append out .driver data sourceEventSeqs surfaceOp) w
      (Leaves (fun seq => Scheduling out foreign init vars (next seq))
        fun _ => Scheduling out foreign init vars point) :=
  (driving_append (fun seq => .inStep vars.toTurnVars vars.step (.tools (next seq))) h
    fun seq => .inStep (.tool (hlogs seq))).weaken (fun _ _ _ h => h) fun _ _ _ h => h.1

end Points

section Commits

variable {out : Outside} {foreign : Foreign} {init : AgentWorld} {others : Others AgentSite}
  {w : AgentWorld} {vars : StepVars} {c : Control}

theorem keeps_throwSchedulerFailure : Keeps out foreign init c throwSchedulerFailure := by
  refine Keeps.get fun w => ?_
  cases w.tools.group.schedulerFailure with
  | none => exact keeps_pure ()
  | some failure => exact keeps_throw failure

theorem throwSchedulerFailure_spec (h : Scheduling out foreign init vars .changed others w) :
    Upheld out foreign init others throwSchedulerFailure w
      (Leaves
        (fun _ others' later => Scheduling out foreign init vars .changed others' later ∧
          later.tools.group.schedulerFailure = none)
        fun _ => Guarded out foreign init vars) := by
  refine upholds_get.mpr ?_
  cases hfailure : w.tools.group.schedulerFailure with
  | none => exact ⟨h, hfailure⟩
  | some failure => exact h.guarded rfl

variable {callSeq left : Nat} {slot : Slot} {call : ToolCallBlock} {result : ToolExecutionResult}

theorem appendToolResult_spec
    (h : Scheduling out foreign init vars (.committing left call slot callSeq) others w)
    (hresult : out.Finalizes slot result) :
    Upheld out foreign init others (appendToolResult out vars call (some slot) result callSeq) w
      (Leaves
        (fun _ => Scheduling out foreign init vars (.accepting left result result.additionalContexts))
        fun _ => Guarded out foreign init vars) := by
  refine (keeps_ask _ _ h).seq ?_ fun _ _ _ h => h.guarded rfl
  intro question others later h
  refine (tool_append _ h fun _ => .result hresult).seq ?_ fun _ _ _ h => h.guarded rfl
  intro _ others later h
  refine (tool_write _ _ h .commit rfl rfl).weaken ?_ fun _ _ _ h => h.elim
  exact fun _ _ _ h => h.2

theorem acceptContexts_spec (contexts : List UserMessage)
    (h : Scheduling out foreign init vars (.accepting left result contexts) others w) :
    Upheld out foreign init others (acceptContexts out contexts) w
      (Leaves (fun _ => Scheduling out foreign init vars (.accepting left result []))
        fun _ => Guarded out foreign init vars) := by
  induction contexts generalizing others w with
  | nil => exact h
  | cons context contexts ih =>
    refine upholds_get.mpr ?_
    refine (keeps_mutate _ _ _ _ _ _ _ h).seq ?_ fun _ _ _ h => h.guarded rfl
    intro _ others later h
    refine (tool_write (.accepting left result contexts) _ h .accept rfl rfl).seq ?_ fun _ _ _ h => h.elim
    rintro _ others later ⟨-, h⟩
    exact ih h

theorem finalResult_spec
    (h : Scheduling out foreign init vars (.committing left call slot callSeq) others w) :
    Upheld out foreign init others (finalResult out slot) w
      (Leaves
        (fun result others' later => out.Finalizes slot result ∧
          Scheduling out foreign init vars (.committing left call slot callSeq) others' later)
        fun _ => Guarded out foreign init vars) := by
  refine (keeps_ask _ _ h).seq ?_ fun _ _ _ h => h.guarded rfl
  intro question others later h
  split
  · refine awaiting_spec (fromExcept_spec ?_ ?_) ?_ fun _ _ _ h => h.promise
    · exact fun result hresult => ⟨⟨question, .inl hresult⟩, h⟩
    · exact fun _ _ => h.guarded rfl
    · rintro result others w ⟨hresult, h⟩
      exact (driving_promise h).weaken (fun _ _ _ h => ⟨hresult, h⟩) fun _ _ _ h => h
  · refine (keeps_call (.notification .driver) rfl rfl _ _ h).seq ?_ fun _ _ _ h => h.guarded rfl
    intro _ others later h
    refine fromExcept_spec ?_ ?_
    · exact fun result hresult => ⟨⟨question, .inr hresult⟩, h⟩
    · exact fun _ _ => h.guarded rfl

theorem commitReady_spec (count : Nat) (h : Scheduling out foreign init vars (.commits count) others w) :
    Upheld out foreign init others (commitReady out vars count) w
      (Leaves (fun _ => Scheduling out foreign init vars .pool)
        fun _ => Guarded out foreign init vars) := by
  induction count generalizing others w with
  | zero => exact h.toolMoves (.uncommittable (.inl rfl))
  | succ count ih =>
    refine upholds_get.mpr ?_
    dsimp only
    split
    case h_1 slot call callSeq hslot hcall hseq =>
      refine (finalResult_spec (h.toolMoves (.commit hslot hcall hseq))).seq ?_ fun _ _ _ h => h
      rintro result others later ⟨hresult, h⟩
      refine (appendToolResult_spec h hresult).seq ?_ fun _ _ _ h => h
      intro _ others later h
      refine (acceptContexts_spec _ h).seq ?_ fun _ _ _ h => h
      intro _ others later h
      refine (tool_write (.commits count) _ h .committed rfl rfl).seq ?_ fun _ _ _ h => h.elim
      rintro _ others later ⟨-, h⟩
      exact ih h
    case h_2 hnone =>
      refine h.toolMoves (.uncommittable (.inr ?_))
      rintro ⟨slot, call, seq, hslot, hcall, hseq⟩
      exact hnone _ _ _ hslot hcall hseq

theorem noteAbort_spec (h : Scheduling out foreign init vars .pool others w) :
    Upheld out foreign init others noteAbort w
      (Leaves (fun _ => Scheduling out foreign init vars .pool) fun _ _ _ => False) := by
  refine upholds_get.mpr ?_
  split
  case isTrue haborted =>
    refine (tool_write .pool _ h (.noteAbort haborted) rfl rfl).weaken ?_ fun _ _ _ h => h
    exact fun _ _ _ h => h.2
  case isFalse => exact h

theorem commitPhase_spec (h : Scheduling out foreign init vars .changed others w) :
    Upheld out foreign init others (commitPhase out vars) w
      (Leaves (fun _ => Scheduling out foreign init vars .pool)
        fun _ => Guarded out foreign init vars) := by
  refine (throwSchedulerFailure_spec h).seq ?_ fun _ _ _ h => h
  rintro _ others later ⟨h, hfailure⟩
  refine upholds_get.mpr ?_
  refine (awaiting_spec (commitReady_spec _ (h.toolMoves (.commits hfailure))) (fun _ _ _ h => driving_promise h)
    fun _ _ _ h => h.promise).seq ?_ fun _ _ _ h => h
  intro _ others later h
  refine (keeps_throwSchedulerFailure _ _ h).seq ?_ fun _ _ _ h => h.guarded rfl
  intro _ others later h
  exact (noteAbort_spec h).weaken (fun _ _ _ h => h) fun _ _ _ h => h.elim

end Commits

section Groups

variable {out : Outside} {foreign : Foreign} {init : AgentWorld} {others : Others AgentSite}
  {w : AgentWorld} {vars : StepVars}

variable {index : Nat} {block : ToolCallBlock}

theorem place_spec (prepared : Prepared)
    (h : Scheduling out foreign init vars (.registered index) others w) :
    Upheld out foreign init others
      (match prepared with
        | .dispatch => do
          call (.notification .driver)
          modify fun w =>
            { w with
              tools := w.tools.launch index
              history := w.history ++ [.dispatched (w.tools.next + index) w.tools.group.mode] }
        | .postResult result => modify fun w => { w with tools := w.tools.answer index ⟨result, true⟩ }
        | .finalResult result =>
          modify fun w => { w with tools := w.tools.answer index ⟨result, false⟩ }) w
      (Leaves (fun _ => Scheduling out foreign init vars .placed)
        fun _ => Guarded out foreign init vars) := by
  cases prepared with
  | dispatch =>
    refine (keeps_call (.notification .driver) rfl rfl _ _ h).seq ?_ fun _ _ _ h => h.guarded rfl
    intro _ others later h
    refine (tool_write .placed _ h .launch rfl rfl).weaken ?_ fun _ _ _ h => h.elim
    exact fun _ _ _ h => h.2
  | postResult result =>
    refine (tool_write .placed _ h .answer rfl rfl).weaken ?_ fun _ _ _ h => h.elim
    exact fun _ _ _ h => h.2
  | finalResult result =>
    refine (tool_write .placed _ h .answer rfl rfl).weaken ?_ fun _ _ _ h => h.elim
    exact fun _ _ _ h => h.2

theorem startCall_spec
    (h : Scheduling out foreign init vars (.starting index block) others w) :
    Upheld out foreign init others (startCall out vars index block) w
      (Leaves (fun _ => Scheduling out foreign init vars .placed)
        fun _ => Guarded out foreign init vars) := by
  refine (tool_append (fun seq => .called index seq) h fun _ => .call).seq ?_ ?_
  · intro callSeq others later h
    refine (tool_write (.registered index) _ h .register rfl rfl).seq ?_ fun _ _ _ h => h.elim
    rintro _ others later ⟨-, h⟩
    refine (keeps_ask _ _ h).seq ?_ fun _ _ _ h => h.guarded rfl
    intro question others later h
    refine ((keeps_fromExcept _).awaiting _ _ h).seq ?_ fun _ _ _ h => h.guarded rfl
    intro prepared others later h
    refine (keeps_throwSchedulerFailure _ _ h).seq ?_ fun _ _ _ h => h.guarded rfl
    intro _ others later h
    exact place_spec prepared h
  · exact fun _ _ _ h => h.guarded rfl

theorem fillRound_spec (h : Scheduling out foreign init vars .pool others w)
    (hblock : w.tools.group.calls[w.tools.group.nextToStart]? = some block)
    (haborted : w.tools.group.aborted = false)
    (hcap : w.tools.group.inFlight.length < w.tools.group.maxParallelToolCalls) :
    Upheld out foreign init others
      (fillRound out vars w.tools.group.nextToStart block w.tools.group.mode) w
      (Leaves (fun _ => Scheduling out foreign init vars .pool)
        fun _ => Guarded out foreign init vars) := by
  have hrest : ∀ (found : ExecutionMode) (others : Others AgentSite) (later : AgentWorld),
      later.tools = w.tools → Scheduling out foreign init vars .pool others later →
      (found = w.tools.group.mode →
        out.Admits w.tools.group w.tools.group.nextToStart block) →
      Upheld out foreign init others
        (if found ≠ w.tools.group.mode then pure false
        else do
          awaiting (startCall out vars w.tools.group.nextToStart block)
          setGroup fun group => { group with nextToStart := group.nextToStart + 1 }
          commitPhase out vars
          pure true) later
        (Leaves (fun _ => Scheduling out foreign init vars .pool)
          fun _ => Guarded out foreign init vars) := by
    intro found others later htools h hadmits
    split
    case isTrue => exact h
    case isFalse hfound =>
      have hadmits := hadmits (not_not.mp hfound)
      rw [← htools] at hblock haborted hcap hadmits ⊢
      have hstart := h.toolMoves (.start hblock haborted hcap hadmits)
      refine (awaiting_spec (startCall_spec hstart) (fun _ _ _ h => driving_promise h)
        fun _ _ _ h => h.promise).seq ?_ fun _ _ _ h => h
      intro _ others later h
      refine (tool_write .changed _ h .advance rfl rfl).seq ?_ fun _ _ _ h => h.elim
      rintro _ others later ⟨-, h⟩
      refine (commitPhase_spec h).seq ?_ fun _ _ _ h => h
      exact fun _ _ _ h => h
  simp only [fillRound]
  split
  case isTrue hlater =>
    refine (driving_ask h).seq ?_ fun _ _ _ h => h.elim
    rintro question others later ⟨rfl, h⟩
    cases hfound : out.executionMode question block with
    | error failure => exact h.guarded rfl
    | ok found =>
      refine hrest found others _ rfl h ?_
      rintro rfl - hmode
      exact ⟨question, hmode ▸ hfound⟩
  case isFalse hfirst =>
    refine hrest _ others w rfl h ?_
    intro _ hpos hmode
    exact absurd ⟨hpos, hmode⟩ hfirst

/-- The exit that an outcome of `executeToolCalls` is. -/
def toolsExit : Except Failure Bool → ToolsExit
  | .ok concluded => .returned concluded
  | .error _ => .failed

theorem toolsReturn_spec {outcome : Except Failure Bool}
    (h : Scheduling out foreign init vars (.leaving (toolsExit outcome)) others w) :
    Upheld out foreign init others (toolsReturn out vars outcome) w (GoesOn out foreign init) := by
  refine (driving_promise h).seq ?_ fun _ _ _ h => h.elim
  intro _ others later h
  cases outcome with
  | error failure =>
    refine (driving_write _ _ h (.inStep .toolsFail) rfl rfl rfl).seq ?_ fun _ _ _ h => h.elim
    rintro _ others later ⟨-, h⟩
    exact stepThrows_spec failure h
  | ok concluded =>
    refine (driving_write _ _ h (.inStep .toolsReturn) rfl rfl rfl).seq ?_ fun _ _ _ h => h.elim
    rintro _ others later ⟨-, h⟩
    exact stepReturns_spec _ h .toolsDone

theorem failGroup_spec (failure : Failure) (h : Guarded out foreign init vars others w) :
    Upheld out foreign init others (failGroup out vars failure) w (GoesOn out foreign init) := by
  obtain ⟨point, hguarded, h⟩ := h
  refine (tool_write (.failing failure) _ h (.fail hguarded) rfl rfl).seq ?_ fun _ _ _ h => h.elim
  rintro _ others later ⟨-, h⟩
  refine (driving_call (.awaiting .allDispatches) h rfl rfl).seq ?_ fun _ _ _ h => h.elim
  rintro _ others later ⟨h, hreturns⟩
  refine upholds_get.mpr ?_
  refine (driving_promise (h.toolMoves (.drained hreturns.1))).seq ?_ fun _ _ _ h => h.elim
  intro _ others later h
  exact toolsReturn_spec h

theorem drainPool_pre (h : Scheduling out foreign init vars .pool others w) :
    Upheld out foreign init others
      (do
        call (.awaiting .promise)
        pure (some (.drainPool vars))) w (GoesOn out foreign init) := by
  refine (driving_promise h).seq ?_ fun _ _ _ h => h.elim
  exact fun _ _ _ h => h.drives

theorem fillPool_body (h : Scheduling out foreign init vars .pool others w) :
    Upheld out foreign init others (fillPool out vars) w (GoesOn out foreign init) := by
  refine upholds_get.mpr ?_
  dsimp only
  split
  case h_1 => exact drainPool_pre h
  case h_2 block hblock =>
    split
    case isTrue => exact drainPool_pre h
    case isFalse hopen =>
      obtain ⟨haborted, hcap⟩ := not_or.mp hopen
      refine (fillRound_spec h hblock (by simpa using haborted) (by omega)).catching ?_ ?_
      · intro goesOn others later h
        cases goesOn with
        | true => exact h.drives
        | false => exact drainPool_pre h
      · intro failure others later h
        refine h.promise.seq ?_ fun _ _ _ h => h.elim
        exact fun _ _ _ h => failGroup_spec failure h

theorem raceDispatches_spec (h : Scheduling out foreign init vars .pool others w) :
    Upheld out foreign init others (raceDispatches out vars) w
      (Leaves (fun _ => Scheduling out foreign init vars .pool)
        fun _ => Guarded out foreign init vars) := by
  refine (driving_call (.awaiting .anyDispatch) h rfl rfl).seq ?_ fun _ _ _ h => h.elim
  rintro _ others later ⟨h, -⟩
  refine (keeps_ask _ _ h).seq ?_ fun _ _ _ h => h.guarded rfl
  intro question others later h
  refine upholds_get.mpr ?_
  dsimp only
  split
  case h_1 => exact commitPhase_spec (h.toolMoves .recheck)
  case h_2 index hindex =>
    obtain ⟨hflight, hsettled⟩ := List.mem_filter.mp (List.mem_of_getElem? hindex)
    refine (tool_write .changed _ h (.race hflight (by simpa using hsettled)) rfl rfl).seq ?_
      fun _ _ _ h => h.elim
    rintro _ others later ⟨-, h⟩
    exact commitPhase_spec h

end Groups

section Skips

variable {out : Outside} {foreign : Foreign} {init : AgentWorld} {others : Others AgentSite}
  {w : AgentWorld} {vars : StepVars} {rest : SkipRest}

theorem appendSkippedToolCall_spec {call : ToolCallBlock} {calls : List ToolCallBlock}
    (h : Scheduling out foreign init vars (.skipping (call :: calls) rest) others w) :
    Upheld out foreign init others (appendSkippedToolCall out vars call) w
      (Leaves (fun _ => Scheduling out foreign init vars (.skipping calls rest))
        fun _ => Scheduling out foreign init vars (.leaving .failed)) := by
  refine (tool_append (fun seq => .skipCalled call seq calls rest) h fun _ => .skippedCall).seq ?_
    fun _ _ _ h => h.toolMoves .unskipped
  intro callSeq others later h
  refine (keeps_ask _ _ h).seq ?_ fun _ _ _ h => h.toolMoves .unanswered
  intro question others later h
  refine (tool_append _ h fun _ => .skippedResult).seq ?_ fun _ _ _ h => h.toolMoves .unanswered
  intro _ others later h
  refine (tool_write (.skipping calls rest) _ h .skip rfl rfl).weaken ?_ fun _ _ _ h => h.elim
  exact fun _ _ _ h => h.2

theorem appendSkippedToolCalls_spec (calls : List ToolCallBlock)
    (h : Scheduling out foreign init vars (.skipping calls rest) others w) :
    Upheld out foreign init others (appendSkippedToolCalls out vars calls) w
      (Leaves (fun _ => Scheduling out foreign init vars (.skipping [] rest))
        fun _ => Scheduling out foreign init vars (.leaving .failed)) := by
  induction calls generalizing others w with
  | nil => exact h
  | cons call calls ih =>
    refine (appendSkippedToolCall_spec h).seq ?_ fun _ _ _ h => h
    exact fun _ _ _ h => ih h

theorem finishGroup_spec (h : Scheduling out foreign init vars .pool others w)
    (hflight : w.tools.group.inFlight = []) :
    Upheld out foreign init others (finishGroup out vars) w (GoesOn out foreign init) := by
  refine upholds_get.mpr ?_
  dsimp only
  split
  case isTrue haborted =>
    refine (appendSkippedToolCalls_spec _ (h.toolMoves (.skip hflight haborted))).catching ?_ ?_
    · intro _ others later h
      refine (driving_promise h).seq ?_ fun _ _ _ h => h.elim
      intro _ others later h
      refine (tool_write _ _ h .skipGroup rfl rfl).seq ?_ fun _ _ _ h => h.elim
      rintro _ others later ⟨-, h⟩
      refine (appendSkippedToolCalls_spec _ h).catching ?_ ?_
      · exact fun _ _ _ h => toolsReturn_spec (h.toolMoves .skipped)
      · exact fun _ _ _ h => toolsReturn_spec h
    · intro failure others later h
      refine (driving_promise h).seq ?_ fun _ _ _ h => h.elim
      exact fun _ _ _ h => toolsReturn_spec h
  case isFalse haborted =>
    split
    case isTrue hcommitted =>
      refine (driving_promise (h.toolMoves (.uncommitted hflight hcommitted))).seq ?_ fun _ _ _ h => h.elim
      exact fun _ _ _ h => toolsReturn_spec h
    case isFalse hcommitted =>
      have hfinish := h.toolMoves (.finish hflight (by simpa using haborted) (by simpa using hcommitted))
      refine (driving_promise hfinish).seq ?_ fun _ _ _ h => h.elim
      intro _ others later h
      refine (tool_write .between _ h .finish rfl rfl).seq ?_ fun _ _ _ h => h.elim
      rintro _ others later ⟨-, h⟩
      exact h.drives

theorem drainPool_body (h : Scheduling out foreign init vars .pool others w) :
    Upheld out foreign init others (drainPool out vars) w (GoesOn out foreign init) := by
  refine upholds_get.mpr ?_
  split
  case isTrue hempty => exact finishGroup_spec h (by simpa using hempty)
  case isFalse =>
    refine (raceDispatches_spec h).catching ?_ ?_
    · exact fun _ _ _ h => h.drives
    · exact fun failure _ _ h => failGroup_spec failure h

theorem tools_body (h : Scheduling out foreign init vars .between others w) :
    Upheld out foreign init others (tools out vars) w (GoesOn out foreign init) := by
  refine upholds_get.mpr ?_
  cases hrest : w.tools.planned.drop w.tools.next with
  | nil => exact toolsReturn_spec (h.toolMoves (.done hrest))
  | cons first rest =>
    refine (driving_ask h).seq ?_ fun _ _ _ h => h.elim
    rintro question others later ⟨hlater, h⟩
    have hnext : later.tools.planned.drop later.tools.next = first :: rest := by
      rw [hlater]
      exact hrest
    have hphase : w.phase = later.phase := by rw [hlater]
    rw [hphase]
    cases hmode : out.executionMode question first with
    | error failure => exact toolsReturn_spec (h.toolMoves .unclassified)
    | ok mode =>
      refine (tool_write .pool _ h (.openGroup hnext hmode) rfl rfl).seq ?_ fun _ _ _ h => h.elim
      rintro _ others later ⟨-, h⟩
      exact h.drives

end Skips

end DshKernel.Agent
