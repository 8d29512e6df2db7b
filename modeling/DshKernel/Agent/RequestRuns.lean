import DshKernel.Agent.ToolRuns

/-!
# Model requests keep to the protocol

The stand of the driver behind each part of a request, and with it the refinement: every state that
an agent reaches on its event loop is one of a run of the protocol.
-/

namespace DshKernel.Agent

open Js Lib Session Llm Program

section Requests

variable {out : Outside} {foreign : Foreign} {init : AgentWorld} {others : Others AgentSite}
  {w : AgentWorld} {vars : StepVars} {c : Control}

abbrev Requesting (out : Outside) (foreign : Foreign) (init : AgentWorld) (vars : StepVars)
    (stage : Stage) (others : Others AgentSite) (w : AgentWorld) : Prop :=
  Driving out foreign init (.inStep vars.toTurnVars vars.step stage) others w

theorem keeps_quiet (change : AgentWorld → AgentWorld)
    (hstep : ∀ w, OthersStep foreign w (change w))
    (happending : ∀ w, (change w).appending = w.appending) (hlog : ∀ w, (change w).log = w.log) :
    Keeps out foreign init c (modify change) :=
  fun _ w h => (driving_others change h (hstep w) (happending w) (hlog w)).weaken
    (fun _ _ _ h => h.2) fun _ _ _ h => h.elim

theorem keeps_appendHeader (messages : List Message) (due : Option RequestHeaderData) :
    Keeps out foreign init (.inStep vars.toTurnVars vars.step (.derived messages))
      (appendHeader out due) := by
  cases due with
  | none => exact keeps_pure ()
  | some data =>
    refine (keeps_append fun _ => .inStep .header).bind fun _ => ?_
    exact keeps_quiet _ (fun _ => .quiet) (fun _ => rfl) fun _ => rfl

theorem keeps_appendContext (messages : List Message) (due : Option RequestContext) :
    Keeps out foreign init (.inStep vars.toTurnVars vars.step (.derived messages))
      (appendContext out due) := by
  cases due with
  | none => exact keeps_pure ()
  | some context =>
    refine (keeps_append fun _ => .inStep .context).bind fun _ => ?_
    exact keeps_pure ()

theorem buildRequest_spec {messages : List Message} {startsRequestSeries : Bool} {generation : Nat}
    (h : Requesting out foreign init vars (.derived messages) others w) :
    Upheld out foreign init others (buildRequest out vars messages startsRequestSeries generation) w
      (Leaves (fun request others' later => request.messages = messages ∧
          Requesting out foreign init vars (.derived messages) others' later)
        fun _ => Requesting out foreign init vars (.derived messages)) := by
  refine upholds_get.mpr ?_
  dsimp only
  refine (keeps_ask _ _ h).seq ?_ fun _ _ _ h => h
  intro question others later h
  refine ((keeps_fromExcept _).awaiting _ _ h).seq ?_ fun _ _ _ h => h
  intro proposed others later h
  refine throwIfAborted_seq ?_ fun _ => h
  split
  · exact h
  · refine (keeps_ask _ _ h).seq ?_ fun _ _ _ h => h
    intro question others later h
    refine ((keeps_fromExcept _).awaiting _ _ h).seq ?_ fun _ _ _ h => h
    intro prepared others later h
    refine throwIfAborted_seq ?_ fun _ => h
    refine upholds_get.mpr ?_
    refine (keeps_appendHeader messages _ _ _ h).seq ?_ fun _ _ _ h => h
    intro _ others later h
    refine (keeps_quiet (fun w => { w with requestSurfaceGeneration := some generation })
      (fun _ => .quiet) (fun _ => rfl) (fun _ => rfl) _ _ h).seq ?_ fun _ _ _ h => h
    intro _ others later h
    refine upholds_get.mpr ?_
    refine (keeps_appendContext messages _ _ _ h).seq ?_ fun _ _ _ h => h
    intro _ others later h
    refine throwIfAborted_seq ?_ fun _ => h
    exact ⟨rfl, h⟩

theorem makeRequest_spec {startsRequestSeries : Bool}
    (h : Requesting out foreign init vars .requesting others w) :
    Upheld out foreign init others (makeRequest out vars startsRequestSeries) w
      (Leaves (fun request => Requesting out foreign init vars (.derived request.messages))
        fun _ => Requesting out foreign init vars .failed) := by
  refine upholds_get.mpr ?_
  cases hgeneration : replaceGeneration w.log with
  | error message => exact h.moves (.inStep .failRequest)
  | ok generation =>
    cases hmessages : deriveMessages w.log with
    | error message => exact h.moves (.inStep .failRequest)
    | ok messages =>
      have hderived := h.moves (.inStep (.derive hmessages))
      refine (awaiting_spec (buildRequest_spec hderived) ?_ fun _ _ _ h => driving_promise h).weaken
        ?_ ?_
      · rintro request others later ⟨hrequest, h⟩
        exact (driving_promise h).weaken (fun _ _ _ h => ⟨hrequest, h⟩) fun _ _ _ h => h
      · rintro request others later ⟨rfl, h⟩
        exact h
      · exact fun _ _ _ h => h.moves (.inStep .failDerived)

theorem openStream_spec {request : Request}
    (h : Requesting out foreign init vars (.derived request.messages) others w) :
    Upheld out foreign init others (openStream out request) w
      (Leaves (fun _ => Requesting out foreign init vars .requesting)
        fun _ => Requesting out foreign init vars .failed) := by
  refine (driving_write _ _ h (.inStep .requested) rfl rfl rfl).seq ?_ fun _ _ _ h => h.elim
  rintro _ others later ⟨-, h⟩
  refine (keeps_ask _ _ h).seq ?_ fun _ _ _ h => h.moves (.inStep .failRequest)
  intro question others later h
  refine (driving_call (.notification .driver) h rfl rfl).seq ?_ fun _ _ _ h => h.elim
  rintro _ others later ⟨h, -⟩
  refine (keeps_fromExcept _ _ _ h).seq ?_ fun _ _ _ h => h.moves (.inStep .failRequest)
  intro _ others later h
  refine (keeps_throwIfAborted _ _ h).weaken (fun _ _ _ h => h) ?_
  exact fun _ _ _ h => h.moves (.inStep .failRequest)

theorem request_body {startsRequestSeries : Bool}
    (h : Requesting out foreign init vars .requesting others w) :
    Upheld out foreign init others (request out vars startsRequestSeries) w
      (GoesOn out foreign init) := by
  refine (makeRequest_spec h).catching ?_ fun failure _ _ h => stepThrows_spec failure h
  intro request others later h
  refine (openStream_spec h).catching ?_ fun failure _ _ h => stepThrows_spec failure h
  exact fun _ _ _ h => h.drives

theorem keeps_nextChunk :
    Keeps out foreign init (.inStep vars.toTurnVars vars.step .requesting) (nextChunk out vars) := by
  refine keeps_ask.bind fun question => ?_
  refine (keeps_fromExcept _).awaiting.bind fun next => ?_
  cases next with
  | none => exact keeps_throwIfAborted.bind fun _ => keeps_pure none
  | some chunk =>
    intro others w h
    refine (keeps_throwIfAborted.bind fun _ => keeps_append fun _ => .inStep .chunk) _ _ h |>.catching
      ?_ ?_
    · exact fun seq _ _ h => h
    · intro failure others later h
      refine (driving_promise h).seq ?_ fun _ _ _ h => h.elim
      exact fun _ _ _ h => h

variable {assembler : BlockAssembler} {content : List ContentBlock} {chunkSeqs : List Nat}

theorem appendAssistant_spec {request : Request} {replay : Option ReplayEnvelope}
    (h : Requesting out foreign init vars .requesting others w) :
    Upheld out foreign init others
      (appendAssistant out vars request assembler chunkSeqs content replay false) w
      (Leaves (fun _ => Requesting out foreign init vars (.answered (toolCallsOf content)))
        fun _ => Requesting out foreign init vars .failed) := by
  refine (keeps_ask _ _ h).seq ?_ fun _ _ _ h => h.moves (.inStep .failRequest)
  intro question others later h
  refine (driving_append _ h fun _ => .inStep (.answer rfl rfl rfl)).seq ?_ ?_
  · exact fun _ _ _ h => h
  · exact fun _ _ _ h => h.1.moves (.inStep .failRequest)

theorem interruptStream_spec {request : Request}
    (h : Requesting out foreign init vars .requesting others w) :
    Upheld out foreign init others (interruptStream out vars request assembler chunkSeqs) w
      (Leaves (fun _ => Requesting out foreign init vars .failed)
        fun _ => Requesting out foreign init vars .failed) := by
  refine upholds_get.mpr ?_
  split
  · refine (keeps_ask _ _ h).seq ?_ fun _ _ _ h => h.moves (.inStep .failRequest)
    intro question others later h
    have hcalls := toolCallsOf_interruptedBlocks assembler
    refine (driving_append _ h fun _ => .inStep (.interrupted rfl rfl hcalls)).seq ?_ ?_
    · exact fun _ _ _ h => h
    · exact fun _ _ _ h => h.1.moves (.inStep .failRequest)
  · exact h.moves (.inStep .failRequest)

theorem recoverRequest_spec (failure : Json) (h : Requesting out foreign init vars .requesting others w) :
    Upheld out foreign init others (recoverRequest out failure) w
      (Leaves (fun _ => Requesting out foreign init vars .requesting)
        fun _ => Requesting out foreign init vars .failed) := by
  refine (keeps_ask _ _ h).seq ?_ fun _ _ _ h => h.moves (.inStep .failRequest)
  intro question others later h
  refine ((keeps_fromExcept _).awaiting _ _ h).seq ?_ fun _ _ _ h => h.moves (.inStep .failRequest)
  intro retry others later h
  refine throwIfAborted_seq ?_ fun _ => h.moves (.inStep .failRequest)
  cases retry with
  | true => exact h
  | false => exact h.moves (.inStep .failRequest)

theorem finishResponse_spec {request : Request}
    (h : Requesting out foreign init vars .requesting others w) :
    Upheld out foreign init others (finishResponse out vars request assembler chunkSeqs) w
      (Leaves
        (fun content others' later =>
          (assembler.finish = .maxTokens → toolCallsOf content = []) ∧
            Requesting out foreign init vars (.answered (toolCallsOf content)) others' later)
        fun _ => Requesting out foreign init vars .failed) := by
  unfold finishResponse
  cases hassembled : assembler.assembled with
  | error message => exact h.moves (.inStep .failRequest)
  | ok assembled =>
    obtain ⟨content, replay⟩ := assembled
    refine (appendAssistant_spec h).seq ?_ fun _ _ _ h => h
    exact fun _ _ _ h => ⟨toolCallsOf_assembled hassembled, h⟩

theorem answered_spec {finish : FinishReason}
    (hmaxTokens : finish = .maxTokens → toolCallsOf content = [])
    (h : Requesting out foreign init vars (.answered (toolCallsOf content)) others w) :
    Upheld out foreign init others
      (match finish, toolCallsOf content with
        | .maxTokens, _ => stepReturns out vars .maxTokens
        | _, [] => stepReturns out vars .noCalls
        | _, calls => do
          openTools calls
          pure (some (.tools vars))) w (GoesOn out foreign init) := by
  split
  case h_1 =>
    rw [hmaxTokens rfl] at h
    exact stepReturns_spec .maxTokens h .maxTokens
  case h_2 hcalls =>
    rw [hcalls] at h
    exact stepReturns_spec .noCalls h .noCalls
  case h_3 =>
    refine (driving_write _ _ h (.inStep .openTools) rfl rfl rfl).seq ?_ fun _ _ _ h => h.elim
    rintro _ others later ⟨-, h⟩
    exact h.drives

theorem recovering_spec (failure : Json) (h : Requesting out foreign init vars .requesting others w) :
    Upheld out foreign init others
      (do
        match ← (recoverRequest out failure).attempt with
        | .error failure => stepThrows out vars.toTurnVars vars.step failure
        | .ok () => pure (some (.request vars false))) w (GoesOn out foreign init) := by
  refine (recoverRequest_spec failure h).catching ?_ fun failure _ _ h => stepThrows_spec failure h
  exact fun _ _ _ h => h.drives

theorem respond_spec {request : Request}
    (h : Requesting out foreign init vars .requesting others w) :
    Upheld out foreign init others (respond out vars request assembler chunkSeqs) w
      (GoesOn out foreign init) := by
  unfold respond
  cases hreason : assembler.finish with
  | error failure => exact recovering_spec failure h
  | aborted failure => exact recovering_spec failure h
  | _ =>
    refine (finishResponse_spec h).catching ?_ fun failure _ _ h => stepThrows_spec failure h
    rintro content others later ⟨hmaxTokens, h⟩
    rw [hreason] at hmaxTokens
    exact answered_spec hmaxTokens h

theorem stream_body {request : Request}
    (h : Requesting out foreign init vars .requesting others w) :
    Upheld out foreign init others (stream out vars request assembler chunkSeqs) w
      (GoesOn out foreign init) := by
  refine (keeps_nextChunk _ _ h).catching ?_ ?_
  · intro next others later h
    cases next with
    | none => exact respond_spec h
    | some chunk => exact h.drives
  · intro failure others later h
    refine (interruptStream_spec h).catching ?_ ?_
    · exact fun _ _ _ h => stepThrows_spec failure h
    · exact fun _ _ _ h => stepThrows_spec _ h

end Requests

section Refinement

variable (out : Outside) (foreign : Foreign) (init : AgentWorld)

theorem agent_sound : LoopSound (agentLoop out foreign) (agentContract out foreign init) where
  enter := by
    intro name w sites henabled _ _ hsettled
    cases name <;>
      first | exact hsettled | exact ⟨hsettled, henabled⟩ | exact ⟨hsettled, henabled.2⟩ | cases henabled
  nest := by
    intro name w site sites henabled _ _ _ hsettled
    cases name <;>
      first | exact hsettled | exact ⟨hsettled, henabled⟩ | cases henabled.1 | cases henabled
  body := by
    intro others name w hpre _ hhere htasks
    have hothers : Settled out foreign init others.all w → Steady out foreign init .others others w :=
      fun h => steady_of_settled h hhere htasks
    cases name with
    | send message target wakeup => exact (send_spec message target wakeup (hothers hpre)).goesOn
    | cancel cause keepInbox => exact (cancel_spec cause keepInbox (hothers hpre)).goesOn
    | splice target start deleteCount inserted =>
      refine Returns.goesOn ?_
      refine (mutate_spec .others trivial _ _ _ _ _ (hothers hpre).stays).weaken ?_ ?_
      · exact fun _ _ _ h => h.1
      · exact fun _ _ _ h => h.1
    | runMaintenance => exact (runMaintenance_spec (hothers hpre)).goesOn
    | publish data sourceEventSeqs surfaceOp => exact (publish_spec (hothers hpre.1) hpre.2).goesOn
    | settle index outcome => exact (settle_spec outcome (hothers hpre.1) hpre.2.1 hpre.2.2).goesOn
    | kick =>
      obtain ⟨hruns, howners, hpublishes⟩ := hpre
      have hsettled : Settled out foreign init others.all w :=
        ⟨⟨_, hruns, nofun⟩, hpublishes, owned_of_owners howners⟩
      have hsteady := hothers hsettled
      exact kick_body ⟨⟨rfl, hruns, howners⟩, hsteady.tasks, hsteady.publishes⟩
    | steps vars => exact steps_body (Drives.driving hpre hhere htasks)
    | request vars startsRequestSeries => exact request_body (Drives.driving hpre hhere htasks)
    | stream vars request assembler chunkSeqs => exact stream_body (Drives.driving hpre hhere htasks)
    | tools vars => exact tools_body (Drives.driving hpre hhere htasks)
    | fillPool vars => exact fillPool_body (Drives.driving hpre hhere htasks)
    | drainPool vars => exact drainPool_body (Drives.driving hpre hhere htasks)

variable {out foreign init}

theorem settled_init (hidle : init.phase.isIdle = true) (happending : init.appending = false) :
    Settled out foreign init [] init := by
  refine ⟨⟨_, .refl hidle, nofun⟩, fun h => ?_, Nat.zero_le 1, fun _ => rfl⟩
  cases happending.symm.trans h

theorem agentLoop_refines {s : AgentState} (hidle : init.phase.isIdle = true)
    (happending : init.appending = false)
    (h : LoopReaches (agentLoop out foreign) ⟨init, [], []⟩ s) :
    ∃ c, AgentRuns out foreign init c s.world :=
  (agent_sound out foreign init).inv ⟨_, .refl hidle⟩ (settled_init hidle happending) h

theorem agentLoop_settles {w : AgentWorld} {tasks : List (Frame Failure AgentSite AgentWorld AgentCall)}
    (hidle : init.phase.isIdle = true) (happending : init.appending = false)
    (h : LoopReaches (agentLoop out foreign) ⟨init, [], []⟩ ⟨w, [], tasks⟩) :
    ∃ c, AgentRuns out foreign init c w ∧ c.due = false := by
  obtain ⟨sites, htasks, hsettled⟩ :=
    (agent_sound out foreign init).settled ⟨_, .refl hidle⟩ (settled_init hidle happending) h
  obtain ⟨c, hruns, hdue⟩ := hsettled.comes
  refine ⟨c, hruns, Bool.eq_false_iff.mpr fun h => ?_⟩
  exact htasks.isAwait _ (hdue h)

end Refinement

end DshKernel.Agent
