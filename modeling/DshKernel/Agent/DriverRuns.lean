import DshKernel.Agent.OtherCode

/-!
# The driver keeps to the protocol

The stand of the driver behind each part of a turn, whatever the part comes to.
-/

namespace DshKernel.Agent

open Js Lib Session Llm Program

section Driving

variable (out : Outside) (foreign : Foreign) (init : AgentWorld)

def Driving (c : Control) (others : Others AgentSite) (w : AgentWorld) : Prop :=
  Steady out foreign init (.driver c) others w ∧ w.appending = false

def Keeps (c : Control) {α : Type} (program : AgentProgram α) : Prop :=
  ∀ others w, Driving out foreign init c others w → Upheld out foreign init others program w
    (Leaves (fun _ => Driving out foreign init c) fun _ => Driving out foreign init c)

variable {out foreign init} {others : Others AgentSite} {w : AgentWorld} {c c' : Control} {α β : Type}

theorem Driving.runs (h : Driving out foreign init c others w) : AgentRuns out foreign init c w :=
  h.1.stands.2.1

theorem Driving.drives (h : Driving out foreign init c others w) :
    Drives out foreign init c others.all w :=
  ⟨h.1.stands.1, h.1.stands.2.1, h.1.stands.2.2, h.2⟩

theorem Drives.driving (h : Drives out foreign init c others.all w)
    (hhere : ∀ site ∈ others.all, Here out foreign init site w)
    (htasks : ∀ site ∈ others.tasks, (AgentSite.kind site).isAwait) :
    Driving out foreign init c others w := by
  refine ⟨⟨⟨h.isDriver, h.runs, h.owners⟩, htasks, ?_, ?_⟩, h.appending⟩
  · intro happending
    cases h.appending.symm.trans happending
  · rintro ⟨caller, hcaller⟩
    exact (hhere _ (List.mem_append_left _ hcaller)).publication rfl

theorem Driving.moves (h : Driving out foreign init c others w) (hmoves : Moves out w c c') :
    Driving out foreign init c' others w :=
  ⟨h.1.moves hmoves, h.2⟩

theorem driving_call (site : AgentSite) (h : Driving out foreign init c others w)
    (hdriving : site.isDriving = true) (hsite : site.isPublication = false) :
    Upheld out foreign init others (call site) w
      (Leaves (fun _ others' later => Driving out foreign init c others' later ∧
          (AgentSite.kind site).returns others others' later)
        fun _ _ _ => False) := by
  refine (call_spec site h.1 hdriving hsite ?_).weaken ?_ fun _ _ _ h => h
  · rintro rfl
    cases hdriving
  · rintro _ others later ⟨hsteady, happending, hreturns⟩
    refine ⟨⟨hsteady, Bool.eq_false_iff.mpr fun hlater => ?_⟩, hreturns⟩
    cases h.2.symm.trans (happending hlater)

theorem driving_write (c' : Control) (change : AgentWorld → AgentWorld)
    (h : Driving out foreign init c others w) (hwrites : Writes out c w c' (change w))
    (hdriver : c'.isDriver = true) (happending : (change w).appending = w.appending)
    (hlog : (change w).log = w.log) :
    Upheld out foreign init others (modify change) w
      (Leaves (fun _ others' later => later = change w ∧ Driving out foreign init c' others' later)
        fun _ _ _ => False) := by
  refine (driver_spec c' change h.1 (.writes hwrites) hdriver happending hlog).weaken ?_
    fun _ _ _ h => h
  rintro _ others later ⟨rfl, rfl, hsteady⟩
  exact ⟨rfl, hsteady, happending.trans h.2⟩

theorem driving_others (change : AgentWorld → AgentWorld) (h : Driving out foreign init c others w)
    (hstep : OthersStep foreign w (change w)) (happending : (change w).appending = w.appending)
    (hlog : (change w).log = w.log) :
    Upheld out foreign init others (modify change) w
      (Leaves (fun _ others' later => later = change w ∧ Driving out foreign init c others' later)
        fun _ _ _ => False) := by
  refine (others_spec change h.1 hstep happending hlog).weaken ?_ fun _ _ _ h => h
  rintro _ others later ⟨rfl, rfl, hsteady⟩
  exact ⟨rfl, hsteady, happending.trans h.2⟩

theorem driving_append (next : Nat → Control) {data : EventData} {sourceEventSeqs surfaceOp : Option Json}
    (h : Driving out foreign init c others w)
    (hlogs : ∀ seq, Logs out c data sourceEventSeqs surfaceOp seq (next seq)) :
    Upheld out foreign init others (append out .driver data sourceEventSeqs surfaceOp) w
      (Leaves (fun seq => Driving out foreign init (next seq))
        fun _ others' later => Driving out foreign init c others' later ∧ out.Refuses data) := by
  refine (append_spec h.1 rfl (.driver hlogs) fun _ => ⟨rfl, rfl⟩).weaken (fun _ _ _ h => h) ?_
  rintro failure others later ⟨hsteady, happending, hrefuses⟩
  refine ⟨⟨hsteady, Bool.eq_false_iff.mpr fun hlater => ?_⟩, hrefuses h.2⟩
  cases h.2.symm.trans (happending hlater)

theorem driving_ask (h : Driving out foreign init c others w) :
    Upheld out foreign init others ask w
      (Leaves (fun _ others' later => later = { w with clock := w.clock + 1 } ∧
          Driving out foreign init c others' later)
        fun _ _ _ => False) := by
  refine (ask_spec h.1).weaken ?_ fun _ _ _ h => h
  rintro _ others later ⟨rfl, rfl, hsteady⟩
  exact ⟨rfl, hsteady, h.2⟩

variable {error : Failure → Others AgentSite → AgentWorld → Prop}
variable {ok : α → Others AgentSite → AgentWorld → Prop} {p : AgentProgram α}

theorem fromExcept_spec {outcome : Except Failure α}
    (hok : ∀ value, outcome = .ok value → ok value others w)
    (herror : ∀ failure, outcome = .error failure → error failure others w) :
    Upheld out foreign init others (fromExcept outcome) w (Leaves ok error) := by
  cases outcome with
  | ok value => exact hok value rfl
  | error failure => exact herror failure rfl

theorem throwIfAborted_spec (holds : Others AgentSite → AgentWorld → Prop) (h : holds others w) :
    Upheld out foreign init others throwIfAborted w (Leaves (fun _ => holds) fun _ => holds) := by
  refine upholds_get.mpr ?_
  cases w.phase.reason with
  | none => exact h
  | some cause => exact h

theorem throwIfAborted_seq {f : Unit → AgentProgram α}
    {post : Others AgentSite → Except Failure α → AgentWorld → Prop}
    (hok : Upheld out foreign init others (f ()) w post)
    (herror : ∀ failure, post others (.error failure) w) :
    Upheld out foreign init others (throwIfAborted >>= f) w post := by
  have hsame : others = others ∧ w = w := ⟨rfl, rfl⟩
  refine (throwIfAborted_spec (fun others' later => others' = others ∧ later = w) hsame).seq ?_ ?_
  · rintro _ _ _ ⟨rfl, rfl⟩
    exact hok
  · rintro failure _ _ ⟨rfl, rfl⟩
    exact herror failure

theorem awaiting_spec {program : AgentProgram α}
    (h : Upheld out foreign init others program w (Leaves ok error))
    (hok : ∀ value others w, ok value others w →
      Upheld out foreign init others (call (.awaiting .promise)) w
        (Leaves (fun _ => ok value) fun _ _ _ => False))
    (herror : ∀ failure others w, error failure others w →
      Upheld out foreign init others (call (.awaiting .promise)) w
        (Leaves (fun _ => error failure) fun _ _ _ => False)) :
    Upheld out foreign init others (awaiting program) w (Leaves ok error) := by
  refine h.catching ?_ ?_
  · intro value others w h
    refine (hok value others w h).seq ?_ fun _ _ _ h => h.elim
    exact fun _ _ _ h => h
  · intro failure others w h
    refine (herror failure others w h).seq ?_ fun _ _ _ h => h.elim
    exact fun _ _ _ h => h

theorem driving_promise (h : Driving out foreign init c others w) :
    Upheld out foreign init others (call (.awaiting .promise)) w
      (Leaves (fun _ => Driving out foreign init c) fun _ _ _ => False) :=
  (driving_call (.awaiting .promise) h rfl rfl).weaken (fun _ _ _ h => h.1) fun _ _ _ h => h

theorem keeps_pure (value : α) : Keeps out foreign init c (pure value) := fun _ _ h => h

theorem keeps_throw (failure : Failure) :
    Keeps out foreign init c (throw failure : AgentProgram α) := fun _ _ h => h

theorem keeps_fromExcept (outcome : Except Failure α) : Keeps out foreign init c (fromExcept outcome) :=
  fun _ _ h => fromExcept_spec (fun _ _ => h) fun _ _ => h

theorem keeps_throwIfAborted : Keeps out foreign init c throwIfAborted :=
  fun _ _ h => throwIfAborted_spec _ h

theorem keeps_ask : Keeps out foreign init c ask :=
  fun _ _ h => (driving_ask h).weaken (fun _ _ _ h => h.2) fun _ _ _ h => h.elim

theorem keeps_call (site : AgentSite) (hdriving : site.isDriving = true)
    (hsite : site.isPublication = false) : Keeps out foreign init c (call site) :=
  fun _ _ h => (driving_call site h hdriving hsite).weaken (fun _ _ _ h => h.1) fun _ _ _ h => h.elim

theorem Keeps.bind {f : α → AgentProgram β} (hp : Keeps out foreign init c p)
    (hf : ∀ value, Keeps out foreign init c (f value)) : Keeps out foreign init c (p >>= f) :=
  fun _ _ h => (hp _ _ h).seq (fun value _ _ h => hf value _ _ h) fun _ _ _ h => h

theorem Keeps.get {f : AgentWorld → AgentProgram α} (h : ∀ w, Keeps out foreign init c (f w)) :
    Keeps out foreign init c (Program.get >>= f) :=
  fun _ _ hdriving => upholds_get.mpr (h _ _ _ hdriving)

theorem Keeps.awaiting (hp : Keeps out foreign init c p) :
    Keeps out foreign init c (Agent.awaiting p) :=
  fun _ _ h => awaiting_spec (hp _ _ h) (fun _ _ _ h => driving_promise h)
    fun _ _ _ h => driving_promise h

theorem Driving.of_stays {before : AgentWorld} (hbefore : before.appending = false)
    (h : Stays out foreign init (.driver c) before others w) : Driving out foreign init c others w := by
  refine ⟨h.1, Bool.eq_false_iff.mpr fun hlater => ?_⟩
  cases hbefore.symm.trans (h.2 hlater)

theorem keeps_mutate (target : InboxTarget) (start deleteCount : Nat) (inserted : List UserMessage)
    (discardRemoved : Bool) :
    Keeps out foreign init c (mutate out .driver target start deleteCount inserted discardRemoved) := by
  intro others w h
  refine (mutate_spec (.driver c) trivial _ _ _ _ _ h.1.stays).weaken ?_ ?_
  · exact fun _ _ _ hlater => .of_stays h.2 hlater
  · exact fun _ _ _ hlater => .of_stays h.2 hlater

theorem keeps_claim (target : InboxTarget) : Keeps out foreign init c (claim out target) := by
  intro others w h
  refine (claim_spec target h.1.stays).weaken ?_ ?_
  · exact fun _ _ _ hlater => .of_stays h.2 hlater
  · exact fun _ _ _ hlater => .of_stays h.2 hlater

end Driving

section Turns

variable {out : Outside} {foreign : Foreign} {init : AgentWorld} {others : Others AgentSite}
  {w : AgentWorld} {c : Control} {vars : TurnVars}

abbrev GoesOn (out : Outside) (foreign : Foreign) (init : AgentWorld) :
    Others AgentSite → Except Failure (Option AgentCall) → AgentWorld → Prop :=
  (agentContract out foreign init).goesOn

theorem turnReturns_spec {exit : TurnExit} (hexit : exit ≠ .again)
    (h : Steady out foreign init (.driver .exiting) others w) :
    Upheld out foreign init others (turnReturns exit) w (GoesOn out foreign init) := by
  refine (call_spec (.awaiting .turn) h rfl rfl nofun).seq ?_ fun _ _ _ h => h.elim
  rintro _ others later ⟨h, -⟩
  have hrunning := h.stands.2.1.isRunning rfl
  have hend := becomeIdle_spec h
  cases exit with
  | again => exact absurd rfl hexit
  | _ =>
    refine upholds_get.mpr ?_
    cases hphase : later.phase with
    | running abort turn step wakeRequested =>
      rw [hphase] at hend
      refine hend.seq ?_ fun _ _ _ h => h.elim
      exact fun _ _ _ h => h.settled
    | _ =>
      rw [hphase] at hrunning
      cases hrunning

theorem turnReturns_again_spec (h : Driving out foreign init .reserved others w) :
    Upheld out foreign init others (turnReturns .again) w (GoesOn out foreign init) := by
  refine (driving_call (.awaiting .turn) h rfl rfl).seq ?_ fun _ _ _ h => h.elim
  rintro _ others later ⟨h, -⟩
  refine ⟨h.runs, h.1.stands.2.2, fun happending => ?_⟩
  cases h.2.symm.trans happending

theorem threw_spec (h : Steady out foreign init (.driver c) others w)
    (hwrites : Writes out c w .exiting { w with history := w.history ++ [.turnExit .threw] }) :
    Upheld out foreign init others (record (.turnExit .threw) >>= fun _ => turnReturns .threw) w
      (GoesOn out foreign init) := by
  refine (driver_spec .exiting (fun w => { w with history := w.history ++ [.turnExit .threw] }) h
    (.writes hwrites) rfl rfl rfl).seq ?_ fun _ _ _ h => h.elim
  rintro _ others later ⟨rfl, -, h⟩
  exact turnReturns_spec nofun h

theorem reporting_spec {α : Type} {program : AgentProgram α}
    {ok : α → Others AgentSite → AgentWorld → Prop} {error : Others AgentSite → AgentWorld → Prop}
    (h : Upheld out foreign init others program w (Leaves ok fun _ => error))
    (hcall : ∀ others w, error others w →
      Upheld out foreign init others (call (.notification .driver)) w
        (Leaves (fun _ => error) fun _ _ _ => False)) :
    Upheld out foreign init others (reporting program) w (Leaves ok fun _ => error) := by
  refine h.catching ?_ ?_
  · exact fun _ _ _ h => h
  · intro failure others w h
    refine (hcall others w h).seq ?_ fun _ _ _ h => h.elim
    exact fun _ _ _ h => h

def NotOpened (out : Outside) (foreign : Foreign) (init : AgentWorld) (others : Others AgentSite)
    (w : AgentWorld) : Prop :=
  ∃ c, Steady out foreign init (.driver c) others w ∧
    Writes out c w .exiting { w with history := w.history ++ [.turnExit .threw] }

theorem openTurn_spec (h : Steady out foreign init (.driver .reserved) others w) :
    Upheld out foreign init others (openTurn out) w
      (Leaves (fun turn => Driving out foreign init (.between { turn }))
        fun _ => NotOpened out foreign init) := by
  have hrunning := h.stands.2.1.isRunning rfl
  refine upholds_get.mpr ?_
  cases hphase : w.phase with
  | running abort lastTurn step wakeRequested =>
    refine throwIfAborted_seq ?_ fun _ => ⟨_, h, .notOpened⟩
    · have hstart := h.moves .start
      rw [hphase] at hstart
      have hlogs : ∀ seq, Logs out (.starting (lastTurn + 1)) _ none none seq (.opening (lastTurn + 1)) :=
        fun _ => .turnStart
      have happend := append_spec hstart rfl (.driver hlogs) fun _ => ⟨rfl, rfl⟩
      have hreporting := reporting_spec (happend.weaken (fun _ _ _ h => h)
        fun _ _ _ (h : _ ∧ _) => h.1) fun others w h =>
          (call_spec (.notification .driver) h rfl rfl nofun).weaken (fun _ _ _ h => h.1)
            fun _ _ _ h => h
      refine hreporting.seq ?_ ?_
      · intro _ others later h
        refine (driving_write (.between { turn := lastTurn + 1 }) _ h .turnOpened rfl rfl rfl).seq ?_
          fun _ _ _ h => h.elim
        rintro _ others later ⟨-, h⟩
        exact h
      · exact fun _ _ _ h => ⟨_, h, .notStarted⟩
  | _ =>
    rw [hphase] at hrunning
    cases hrunning

theorem kick_body (h : Steady out foreign init (.driver .reserved) others w) :
    Upheld out foreign init others (kick out) w (GoesOn out foreign init) := by
  refine (openTurn_spec h).catching ?_ ?_
  · intro turn others later h
    exact h.drives
  · rintro failure others later ⟨c, h, hwrites⟩
    exact threw_spec h hwrites

def endingOf : Except Failure TurnEnding → Option TurnEnding
  | .ok ending => some ending
  | .error _ => none

variable {outcome : Except Failure TurnEnding}

theorem closeTurn_spec
    (h : Driving out foreign init (.closed (endingOf outcome)) others w) :
    Upheld out foreign init others (closeTurn outcome) w (GoesOn out foreign init) := by
  cases outcome with
  | error failure => exact threw_spec h.1 .threw
  | ok ending =>
    simp only [closeTurn]
    split
    case isTrue hstopped =>
      refine upholds_get.mpr ?_
      split
      case isTrue hpending =>
        refine (driving_write .reserved _ h (.again hpending) rfl rfl rfl).seq ?_ fun _ _ _ h => h.elim
        rintro _ others later ⟨-, h⟩
        exact turnReturns_again_spec h
      case isFalse hpending =>
        refine (driving_write .exiting _ h (.stopped (by simpa using hpending)) rfl rfl rfl).seq ?_
          fun _ _ _ h => h.elim
        rintro _ others later ⟨-, h⟩
        exact turnReturns_spec nofun h.1
    case isFalse hstopped =>
      refine (driving_write .exiting _ h (.parked (by simpa using hstopped)) rfl rfl rfl).seq ?_
        fun _ _ _ h => h.elim
      rintro _ others later ⟨-, h⟩
      exact turnReturns_spec nofun h.1

theorem reportTurn_spec (before : AgentWorld) (outcome : Except Failure TurnEnding)
    (h : Driving out foreign init c others w) :
    Upheld out foreign init others (reportTurn before outcome) w
      (Leaves (fun _ => Driving out foreign init c) fun _ _ _ => False) := by
  cases outcome with
  | ok ending => exact h
  | error failure =>
    simp only [reportTurn]
    split
    · exact h
    · refine (driving_call (.notification .driver) h rfl rfl).weaken ?_ fun _ _ _ h => h
      exact fun _ _ _ h => h.1

theorem logs_turnEnd (w : AgentWorld) (turn seq : Nat) (outcome : Except Failure TurnEnding) :
    Logs out (.ending turn (endingOf outcome)) (.turnEnd (.ofNat turn) (turnEndReason w outcome)) none
      none seq (.closing (turnEndReason w outcome) (endingOf outcome)) := by
  cases outcome with
  | ok ending => exact .turnEnd
  | error failure =>
    refine .turnFailed ?_
    simp only [turnEndReason]
    split <;> trivial

theorem leaveTurn_spec
    (h : Driving out foreign init (.ending vars.turn (endingOf outcome)) others w) :
    Upheld out foreign init others (leaveTurn out vars outcome) w (GoesOn out foreign init) := by
  refine upholds_get.mpr ?_
  refine (reportTurn_spec w outcome h).seq ?_ fun _ _ _ h => h.elim
  intro _ others later h
  have happend := driving_append _ h fun seq => logs_turnEnd w vars.turn seq outcome
  refine (reporting_spec happend fun others w h => ?_).catching ?_ ?_
  · refine (driving_call (.notification .driver) h.1 rfl rfl).weaken ?_ fun _ _ _ h => h
    exact fun _ _ _ hcalled => ⟨hcalled.1, h.2⟩
  · intro seq others later h
    refine (driving_write (.closed (endingOf outcome)) _ h .turnClosed rfl rfl rfl).seq ?_
      fun _ _ _ h => h.elim
    rintro _ others later ⟨-, h⟩
    exact closeTurn_spec h
  · rintro failure others later ⟨h, hrefuses⟩
    exact threw_spec h.1 (.turnEndRefused hrefuses)

theorem keeps_preStep (target : InboxTarget) : Keeps out foreign init c (preStep out target) := by
  refine Keeps.get fun w => ?_
  split
  · exact keeps_throw _
  · refine (keeps_claim target).bind fun claimed => ?_
    refine keeps_ask.bind fun question => ?_
    refine (keeps_fromExcept _).awaiting.bind fun assembly => ?_
    refine keeps_throwIfAborted.bind fun _ => ?_
    refine keeps_ask.bind fun question => ?_
    refine (keeps_fromExcept _).awaiting.bind fun decision => ?_
    refine keeps_throwIfAborted.bind fun _ => ?_
    cases decision with
    | reject => exact keeps_pure _
    | enter messages startsRequestSeries => exact keeps_pure _

def StepEntry.control (vars : TurnVars) : StepEntry → Control
  | .ends ending => .ending vars.turn (some ending)
  | .entered step _ _ _ => .inStep vars step .requesting

theorem openStep_spec {step : Nat} {messages : List UserMessage} {startsRequestSeries : Bool}
    {assembly : PromptAssembly} (h : Driving out foreign init (.entering vars step) others w) :
    Upheld out foreign init others
      (do
        throwIfAborted
        let _ ← append out .driver (.stepStart (.ofNat vars.turn) (.ofNat step)) none none
        modify fun w => { w with phase := w.phase.setStep step }
        pure (StepEntry.entered step messages startsRequestSeries assembly)) w
      (Leaves (fun entry => Driving out foreign init (entry.control vars))
        fun _ => Driving out foreign init (.ending vars.turn none)) := by
  refine throwIfAborted_seq ?_ fun _ => h.moves (.fail rfl)
  refine (driving_append _ h fun _ => .stepStart).seq ?_ ?_
  · intro _ others later h
    refine (driving_write (.inStep vars step .requesting) _ h .stepOpened rfl rfl rfl).seq ?_
      fun _ _ _ h => h.elim
    rintro _ others later ⟨-, h⟩
    exact h
  · rintro failure others later ⟨h, -⟩
    exact h.moves (.fail rfl)

theorem enterStep_spec (h : Driving out foreign init (.between vars) others w) :
    Upheld out foreign init others (enterStep out vars) w
      (Leaves (fun entry => Driving out foreign init (entry.control vars))
        fun _ => Driving out foreign init (.ending vars.turn none)) := by
  refine throwIfAborted_seq ?_ fun _ => h.moves (.fail rfl)
  refine upholds_get.mpr ?_
  have hpropose := h.moves .propose
  refine ((keeps_preStep vars.target).awaiting _ _ hpropose).seq ?_ ?_
  · intro decision others later h
    cases decision with
    | none =>
      refine (driving_write _ _ h .rejected rfl rfl rfl).seq ?_ fun _ _ _ h => h.elim
      rintro _ others later ⟨-, h⟩
      exact h
    | some decision =>
      obtain ⟨messages, startsRequestSeries, assembly⟩ := decision
      refine (driving_write _ _ h (.proposed) rfl rfl rfl).seq ?_
        fun _ _ _ h => h.elim
      rintro _ others later ⟨-, h⟩
      cases messages with
      | nil =>
        cases hends : vars.turnEnds with
        | some reason => exact h.moves (.stop hends)
        | none =>
          refine upholds_get.mpr ?_
          split
          case isTrue hempty => exact h.moves (.empty hempty.1)
          case isFalse hempty => exact openStep_spec (h.moves (.enter fun _ => hends))
      | cons message messages =>
        refine upholds_get.mpr ?_
        split
        case isTrue hempty => cases hempty.2
        case isFalse hempty => exact openStep_spec (h.moves (.enter nofun))
  · exact fun _ _ _ h => h.moves (.fail rfl)

end Turns

section Steps

variable {out : Outside} {foreign : Foreign} {init : AgentWorld} {others : Others AgentSite}
  {w : AgentWorld} {c : Control} {vars : TurnVars} {step : Nat}

theorem keeps_append {data : EventData} {sourceEventSeqs surfaceOp : Option Json}
    (hlogs : ∀ seq, Logs out c data sourceEventSeqs surfaceOp seq c) :
    Keeps out foreign init c (append out .driver data sourceEventSeqs surfaceOp) :=
  fun _ _ h => (driving_append _ h hlogs).weaken (fun _ _ _ h => h) fun _ _ _ h => h.1

theorem keeps_appendMessages (messages : List UserMessage) :
    Keeps out foreign init (.inStep vars step .requesting) (appendMessages out messages) := by
  induction messages with
  | nil => exact keeps_pure ()
  | cons message messages ih =>
    exact (keeps_append fun _ => .inStep .message).bind fun _ => ih

inductive Checked (out : Outside) (foreign : Foreign) (init : AgentWorld) (vars : TurnVars)
    (others : Others AgentSite) (w : AgentWorld) : Bool → Prop where
  | stops {reason : StepEndReason} : vars.turnEnds = some reason →
      Driving out foreign init (.ending vars.turn (some ⟨reason.toTurnEnd, true⟩)) others w →
      Checked out foreign init vars others w true
  | continues {stops : Bool} : stops = false ∨ vars.turnEnds = none →
      Driving out foreign init (.between vars) others w → Checked out foreign init vars others w stops

theorem stopCheck_spec (h : Driving out foreign init (.checking vars) others w) :
    Upheld out foreign init others
      (do
        let w ← Program.get
        record (.stopCheck !w.inbox.nextStep.isEmpty)
        pure (vars.turnEnds.isSome && w.inbox.nextStep.isEmpty)) w
      (Leaves (fun stops others' later => Checked out foreign init vars others' later stops)
        fun _ => Driving out foreign init (.ending vars.turn none)) := by
  refine upholds_get.mpr ?_
  refine (driving_write _ _ h .stopCheck rfl rfl rfl).seq ?_ fun _ _ _ h => h.elim
  rintro _ others later ⟨-, h⟩
  show Checked out foreign init vars others later _
  cases hends : vars.turnEnds with
  | none =>
    refine .continues (.inr hends) (h.moves (.continues ?_))
    rw [hends]
    exact nofun
  | some reason =>
    cases hempty : w.inbox.nextStep.isEmpty with
    | true =>
      rw [hempty] at h
      exact .stops hends (h.moves (.stops hends))
    | false =>
      rw [hempty] at h
      exact .continues (.inl rfl) (h.moves (.continues fun _ => rfl))

theorem stopChecks_spec (h : Driving out foreign init (.checking vars) others w) :
    Upheld out foreign init others (stopChecks out vars.turnEnds) w
      (Leaves (fun stops others' later => Checked out foreign init vars others' later stops)
        fun _ => Driving out foreign init (.ending vars.turn none)) := by
  refine throwIfAborted_seq ?_ fun _ => h.moves (.fail rfl)
  refine upholds_get.mpr ?_
  dsimp only
  split
  · refine (keeps_ask _ _ h).seq ?_ fun _ _ _ h => h.moves (.fail rfl)
    intro question others later h
    refine ((keeps_fromExcept _).awaiting _ _ h).seq ?_ fun _ _ _ h => h.moves (.fail rfl)
    intro _ others later h
    refine throwIfAborted_seq ?_ fun _ => h.moves (.fail rfl)
    exact stopCheck_spec h
  · exact stopCheck_spec h

inductive StepLeft : Stage → Except Failure (Option StepEndReason) → Prop where
  | through (outcome : StepOutcome) : StepLeft (.through outcome) (.ok outcome.toStepEnd)
  | failed (failure : Failure) : StepLeft .failed (.error failure)

variable {stage : Stage}

theorem leaveStep_spec {outcome : Except Failure (Option StepEndReason)}
    (hleft : StepLeft stage outcome) (h : Driving out foreign init (.inStep vars step stage) others w) :
    Upheld out foreign init others (leaveStep out vars step outcome) w (GoesOn out foreign init) := by
  cases hleft with
  | through outcome =>
    refine (driving_append _ h fun _ => .stepEnd).catching ?_ ?_
    · intro seq others later h
      refine (stopChecks_spec h).catching ?_ ?_
      · intro stops others later h
        cases h with
        | stops hends h =>
          replace hends : nextTurnEnds vars.turnEnds outcome.toStepEnd = _ := hends
          simp only [hends]
          exact leaveTurn_spec h
        | continues hcontinues h =>
          have hgoesOn : Upheld out foreign init others
              (pure (some (.steps (vars.afterStep outcome)))) later (GoesOn out foreign init) := h.drives
          rcases hcontinues with rfl | hends
          · exact hgoesOn
          · replace hends : nextTurnEnds vars.turnEnds outcome.toStepEnd = _ := hends
            cases stops <;> simpa only [hends, TurnVars.afterStep] using hgoesOn
      · exact fun failure others later h => leaveTurn_spec h
    · rintro failure others later ⟨h, hrefuses⟩
      exact leaveTurn_spec (h.moves (.stepEndRefused rfl hrefuses))
  | failed failure =>
    refine (driving_append _ h fun _ => .stepFailed).catching ?_ ?_
    · exact fun seq others later h => leaveTurn_spec h
    · rintro failure others later ⟨h, hrefuses⟩
      exact leaveTurn_spec (h.moves (.stepEndRefused rfl hrefuses))

theorem stepReturns_spec {vars : StepVars} (outcome : StepOutcome)
    (h : Driving out foreign init (.inStep vars.toTurnVars vars.step stage) others w)
    (hdone : StepWrites out stage w (.through outcome)
      { w with history := w.history ++ [.stepDone outcome] }) :
    Upheld out foreign init others (stepReturns out vars outcome) w (GoesOn out foreign init) := by
  refine (driving_write _ _ h (.inStep hdone) rfl rfl rfl).seq ?_ fun _ _ _ h => h.elim
  rintro _ others later ⟨-, h⟩
  refine (driving_call (.awaiting .promise) h rfl rfl).seq ?_ fun _ _ _ h => h.elim
  rintro _ others later ⟨h, -⟩
  exact leaveStep_spec (.through outcome) h

theorem stepThrows_spec (failure : Failure)
    (h : Driving out foreign init (.inStep vars step .failed) others w) :
    Upheld out foreign init others (stepThrows out vars step failure) w (GoesOn out foreign init) := by
  refine (driving_call (.awaiting .promise) h rfl rfl).seq ?_ fun _ _ _ h => h.elim
  rintro _ others later ⟨h, -⟩
  exact leaveStep_spec (.failed failure) h

theorem keeps_beginStep (assembly : PromptAssembly) :
    Keeps out foreign init c (beginStep out assembly) := by
  refine Keeps.get fun w => ?_
  split
  · exact keeps_throw _
  · refine keeps_throwIfAborted.bind fun _ => ?_
    exact keeps_ask.bind fun question => keeps_fromExcept _

theorem steps_body (h : Driving out foreign init (.between vars) others w) :
    Upheld out foreign init others (steps out vars) w (GoesOn out foreign init) := by
  refine (enterStep_spec h).catching ?_ ?_
  · intro entry others later h
    cases entry with
    | ends ending => exact leaveTurn_spec h
    | entered step messages startsRequestSeries assembly =>
      refine (keeps_appendMessages messages _ _ h).catching ?_ ?_
      · intro _ others later h
        refine (keeps_beginStep assembly _ _ h).catching ?_ ?_
        · exact fun system others later h => h.drives
        · intro failure others later h
          exact stepThrows_spec failure (h.moves (.inStep .failRequest))
      · intro failure others later h
        exact leaveStep_spec (.failed failure) (h.moves (.inStep .failRequest))
  · exact fun failure others later h => leaveTurn_spec h

end Steps

end DshKernel.Agent
