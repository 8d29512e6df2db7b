import DshKernel.Agent.Standing

/-!
# Other code

What sends, cancels and edits the inbox, maintenance and foreign appends keep to the protocol, and
so does the start of a driver and the end of one.
-/

namespace DshKernel.Agent

open Js Lib Session Llm Program

variable {out : Outside} {foreign : Foreign} {init : AgentWorld} {a : Activity}
  {sites : List AgentSite} {others : Others AgentSite} {before w : AgentWorld} {c : Control}

section Wakes

theorem comes_of_delivered (hruns : AgentRuns out foreign init c w)
    (hidle : w.phase.isIdle = true → w.inbox.hasPending = false)
    (hmaintenance : w.phase.isMaintenance = true →
      w.inbox.hasPending = false ∨ w.phase.wakeRequested = true ∨ w.phase.reason = some .disposed) :
    Comes out foreign init sites w := by
  have hfits := hruns.fits
  cases c with
  | undriven due => exact ⟨_, hruns.step (.phase (.undue (hidle hfits))), nofun⟩
  | maintaining due => exact ⟨_, hruns.step (.phase (.delivered (hmaintenance hfits))), nofun⟩
  | _ => exact ⟨_, hruns, nofun⟩

theorem noted_sentHappenings (w : AgentWorld) (latched : Bool) (message : Option UserMessage) :
    Noted w latched (sentHappenings w latched message) := by
  cases message with
  | none => exact .nothing
  | some message =>
    simp only [sentHappenings]
    split
    case isTrue hpending => exact .sent hpending
    case isFalse => exact .nothing

theorem setPhase_spec (a' : Activity) {next : Phase} {happenings : List Happening} (site : AgentSite)
    (h : Steady out foreign init a others w) (howners : owners others.all = [])
    (hstands : Stands out foreign init others.all
      { w with phase := next, history := w.history ++ happenings } a')
    (howns : next.isRunning ≠ w.phase.isRunning → a'.Owns site)
    (hsite : site.isPublication = false) (hkick : site ≠ .kick) :
    Upheld out foreign init others (setPhase next happenings site) w
      (Leaves (fun _ others' later => Steady out foreign init a' others' later)
        fun _ _ _ => False) := by
  refine upholds_get.mpr ?_
  refine (write_spec a' (fun w => { w with phase := next, history := w.history ++ happenings }) h
    hstands (relies_of_owners howners rfl rfl) rfl).seq ?_ fun _ _ _ h => h.elim
  rintro _ others later ⟨rfl, -, h⟩
  split
  case isTrue hrunning =>
    refine (call_spec site h (howns hrunning) hsite hkick).weaken ?_ fun _ _ _ h => h
    exact fun _ _ _ h => h.1
  case isFalse => exact h

theorem kick_spec (h : Steady out foreign init (.driver .reserved) others w) :
    Upheld out foreign init others (call .kick) w
      (Leaves (fun _ others' later => Steady out foreign init .others others' later)
        fun _ _ _ => False) := by
  obtain ⟨-, hruns, howners⟩ := h.stands
  refine ⟨⟨nofun, nofun, nofun⟩, ⟨hruns, howners, h.publishes_cons⟩, ?_⟩
  intro others' later hresumes
  have hsettled := hresumes.settled
  exact ⟨⟨hsettled.comes.tail nofun, hsettled.owned.tail rfl⟩, hresumes.tasks,
    publishes_of_resumes hresumes rfl⟩

theorem wakeRequested_setWake {phase : Phase} (h : phase.isIdle = false) (wake : Bool) :
    (phase.setWake wake).wakeRequested = wake := by
  cases phase <;> first | rfl | cases h

theorem latch_spec (message : Option UserMessage) (wakeAfterAbort : Bool)
    (h : Steady out foreign init (.settling true) others w) (hidle : w.phase.isIdle = false) :
    Upheld out foreign init others
      (if w.phase.reason ≠ some .disposed ∧ (w.phase.isMaintenance ∨ wakeAfterAbort) then
        modify fun w =>
          { w with
            phase := w.phase.setWake true, history := w.history ++ sentHappenings w true message }
      else modify fun w => { w with history := w.history ++ sentHappenings w false message }) w
      (Leaves (fun _ others' later => Steady out foreign init .others others' later)
        fun _ _ _ => False) := by
  have hothers : ∀ later, Steady out foreign init (.settling true) others later →
      later.phase.isIdle = false →
      (later.phase.isMaintenance = true →
        later.phase.wakeRequested = true ∨ later.phase.reason = some .disposed) →
      Steady out foreign init .others others later := by
    intro later h hidle hmaintenance
    obtain ⟨c, hruns⟩ := h.stands.runs
    refine ⟨⟨comes_of_delivered hruns ?_ ?_, h.stands.2⟩, h.tasks, h.publishes⟩
    · intro h
      cases hidle.symm.trans h
    · exact fun h => .inr (hmaintenance h)
  split
  case isTrue hlatches =>
    have hstep : OthersStep foreign w _ := .latch hidle (noted_sentHappenings w true message) hlatches
    refine (others_spec (fun w => { w with
      phase := w.phase.setWake true, history := w.history ++ sentHappenings w true message }) h
      hstep rfl rfl).weaken ?_ fun _ _ _ h => h
    rintro _ others later ⟨rfl, rfl, h⟩
    refine hothers _ h ((isIdle_setWake _ _).trans hidle) fun _ => .inl ?_
    exact wakeRequested_setWake hidle true
  case isFalse hlatches =>
    have hstep : OthersStep foreign w _ := .note hidle (noted_sentHappenings w false message) hlatches
    refine (others_spec (fun w => { w with
      history := w.history ++ sentHappenings w false message }) h hstep rfl rfl).weaken ?_ fun _ _ _ h => h
    rintro _ others later ⟨rfl, rfl, h⟩
    refine hothers _ h hidle fun hmaintenance => .inr ?_
    by_contra hreason
    exact hlatches ⟨hreason, .inl hmaintenance⟩

theorem wakeDriver_spec (h : Steady out foreign init (.settling true) others w)
    (message : Option UserMessage) (wakeAfterAbort : Bool) :
    Upheld out foreign init others (wakeDriver message wakeAfterAbort) w
      (Leaves (fun _ others' later => Steady out foreign init .others others' later)
        fun _ _ _ => False) := by
  refine upholds_get.mpr ?_
  obtain ⟨c, hruns⟩ := h.stands.runs
  cases hphase : w.phase with
  | idle lastTurn =>
    dsimp only
    obtain ⟨due, rfl⟩ := none_of_fits hruns.fits (by rw [hphase]; rfl)
    have howners := h.stands.owned.2 (by rw [hphase]; rfl)
    have hstep := hruns.step (.phase (.wake hphase (noted_sentHappenings w false message)))
    refine (setPhase_spec (.driver .reserved) (.notification .driver) h howners
      ⟨rfl, hstep, howners⟩ (fun _ => rfl) rfl nofun).seq ?_ fun _ _ _ h => h.elim
    intro _ others later h
    exact kick_spec h
  | maintenance abort lastTurn wakeRequested =>
    have hlatch := latch_spec message wakeAfterAbort h (by rw [hphase]; rfl)
    rw [hphase] at hlatch
    exact hlatch
  | running abort turn step wakeRequested =>
    have hlatch := latch_spec message wakeAfterAbort h (by rw [hphase]; rfl)
    rw [hphase] at hlatch
    exact hlatch

theorem replay_spec {wakeRequested : Bool}
    (h : Steady out foreign init (.settling wakeRequested) others w) :
    Upheld out foreign init others
      (Program.get >>= fun w =>
        if wakeRequested && w.inbox.hasPending then wakeDriver none false else pure ()) w
      (Leaves (fun _ others' later => Steady out foreign init .others others' later)
        fun _ _ _ => False) := by
  refine upholds_get.mpr ?_
  split
  case isTrue hreplays =>
    obtain ⟨rfl, -⟩ := Bool.and_eq_true_iff.mp hreplays
    exact wakeDriver_spec h none false
  case isFalse hreplays =>
    refine ⟨⟨?_, h.stands.2⟩, h.tasks, h.publishes⟩
    cases wakeRequested with
    | false => exact h.stands.1.tail nofun
    | true =>
      have hpending : w.inbox.hasPending = false := by simpa using hreplays
      obtain ⟨c, hruns⟩ := h.stands.runs
      exact comes_of_delivered hruns (fun _ => hpending) fun _ => .inl hpending

theorem becomeIdle_spec (h : Steady out foreign init (.driver .exiting) others w) :
    Upheld out foreign init others (becomeIdle w.phase.turn w.phase.wakeRequested) w
      (Leaves (fun _ others' later => Steady out foreign init .others others' later)
        fun _ _ _ => False) := by
  obtain ⟨-, hruns, howners⟩ := h.stands
  have hwrites : Writes out .exiting w (.undriven w.phase.wakeRequested) _ := .settled id
  have hstep := hruns.step (.writes hwrites)
  refine (setPhase_spec (.settling w.phase.wakeRequested) _ h howners
    ⟨⟨_, hstep, fun h => ?_⟩, owned_of_owners howners⟩ (fun _ => rfl) rfl nofun).seq ?_ fun _ _ _ h => h.elim
  · exact List.mem_cons.mpr (.inl (congrArg AgentSite.settling h.symm))
  · intro _ others later h
    exact replay_spec h

theorem becomeIdle_maintenance_spec {lastTurn : Nat}
    (h : Steady out foreign init (.maintenance lastTurn) others w) :
    Upheld out foreign init others (becomeIdle lastTurn w.phase.wakeRequested) w
      (Leaves (fun _ others' later => Steady out foreign init .others others' later)
        fun _ _ _ => False) := by
  obtain ⟨⟨c, hruns, hdue⟩, hmaintenance, rfl, howners⟩ := h.stands
  obtain ⟨due, rfl⟩ := maintaining_of_fits hruns.fits hmaintenance
  have hphase : PhaseStep (.maintaining due) w (.undriven (due || w.phase.wakeRequested)) _ :=
    .maintained (fun h => by simp [h]) fun h => by simp [h]
  have hstep := hruns.step (.phase hphase)
  refine (setPhase_spec (.settling w.phase.wakeRequested) _ h howners
    ⟨⟨_, hstep, fun h => ?_⟩, owned_of_owners howners⟩ (fun _ => rfl) rfl nofun).seq ?_ fun _ _ _ h => h.elim
  · rcases Bool.or_eq_true_iff.mp h with h | h
    · exact List.mem_cons_of_mem _ (hdue h)
    · exact List.mem_cons.mpr (.inl (congrArg AgentSite.settling h.symm))
  · intro _ others later h
    exact replay_spec h

end Wakes

section Calls

def Returns (out : Outside) (foreign : Foreign) (init : AgentWorld) (others : Others AgentSite)
    {α : Type} (program : AgentProgram α) (w : AgentWorld) : Prop :=
  Upheld out foreign init others program w
    (Leaves (fun _ others' later => Steady out foreign init .others others' later)
      fun _ others' later => Steady out foreign init .others others' later)

theorem Steady.settling (h : Steady out foreign init .others others w) :
    Steady out foreign init (.settling true) others w :=
  ⟨⟨h.stands.1.cons, h.stands.2⟩, h.tasks, h.publishes⟩

theorem runMaintenance_spec (h : Steady out foreign init .others others w) :
    Returns out foreign init others runMaintenance w := by
  refine upholds_get.mpr ?_
  cases hphase : w.phase with
  | idle lastTurn =>
    dsimp only
    obtain ⟨⟨c, hruns, hdue⟩, howned⟩ := h.stands
    have howners := howned.2 (by rw [hphase]; rfl)
    obtain ⟨due, rfl⟩ := none_of_fits hruns.fits (by rw [hphase]; rfl)
    have hstep := hruns.step (.phase (.maintain hphase))
    refine (setPhase_spec (.maintenance lastTurn) (.notification .others) h howners ?_ ?_ rfl
      nofun).seq ?_ fun _ _ _ h => h.elim
    · rw [List.append_nil]
      exact ⟨⟨_, hstep, hdue⟩, rfl, rfl, howners⟩
    · intro hrunning
      rw [hphase] at hrunning
      exact absurd rfl hrunning
    intro _ others later h
    refine (call_spec .job h rfl rfl nofun).seq ?_ fun _ _ _ h => h.elim
    rintro _ others later ⟨h, -⟩
    refine (call_spec .maintenance h rfl rfl nofun).seq ?_ fun _ _ _ h => h.elim
    rintro _ others later ⟨h, -⟩
    exact (becomeIdle_maintenance_spec h).weaken (fun _ _ _ h => h) fun _ _ _ h => h.elim
  | maintenance abort lastTurn wakeRequested => exact h
  | running abort turn step wakeRequested => exact h

theorem send_spec (message : UserMessage) (target : InboxTarget) (wakeup : Bool)
    (h : Steady out foreign init .others others w) :
    Returns out foreign init others (send out message target wakeup) w := by
  refine upholds_get.mpr ?_
  refine (mutate_spec .others trivial _ _ _ _ _ h.stays).seq ?_ fun _ _ _ h => h.1
  intro _ others later h
  split
  · exact (wakeDriver_spec h.1.settling _ _).weaken (fun _ _ _ h => h) fun _ _ _ h => h.elim
  · exact h.1

theorem abort_spec (cause : CancelCause) (h : Steady out foreign init .others others w) :
    Returns out foreign init others (abort cause) w := by
  refine upholds_get.mpr ?_
  split
  case isTrue hlive =>
    obtain ⟨hidle, hreason⟩ := Bool.and_eq_true_iff.mp hlive
    have hidle : w.phase.isIdle = false := by simpa using hidle
    refine (others_spec (fun w => { w with phase := w.phase.setReason cause, history := _ }) h
      (.abort hidle (Option.isNone_iff_eq_none.mp hreason)) rfl rfl).seq ?_ fun _ _ _ h => h.elim
    rintro _ others later ⟨rfl, -, h⟩
    refine (call_spec (.notification .others) h ⟨rfl, nofun⟩ rfl nofun).weaken ?_ fun _ _ _ h => h.elim
    exact fun _ _ _ h => h.1
  case isFalse => exact h

theorem cancel_spec (cause : CancelCause) (keepInbox : Bool)
    (h : Steady out foreign init .others others w) :
    Returns out foreign init others (cancel out cause keepInbox) w := by
  unfold cancel
  split
  · exact abort_spec cause h
  · refine (clear_spec h.stays).seq ?_ fun _ _ _ h => h.1
    rintro _ others later ⟨h, -⟩
    refine (others_spec (fun w =>
      { w with phase := w.phase.setWake false, history := w.history ++ [.cleared] }) h
      .cleared rfl rfl).seq ?_ fun _ _ _ h => h.elim
    rintro _ others later ⟨rfl, -, h⟩
    exact abort_spec cause h

theorem settle_spec {index : Nat} (outcome : Except Failure Slot)
    (h : Steady out foreign init .others others w) (hflight : index ∈ w.tools.group.inFlight)
    (hsettled : index ∉ w.tools.group.settled) :
    Returns out foreign init others (settle index outcome) w := by
  refine (others_spec (fun w => { w with tools := w.tools.settle index outcome, history := _ }) h
    (.settle hflight hsettled) rfl rfl).weaken ?_ fun _ _ _ h => h.elim
  rintro _ others later ⟨rfl, -, h⟩
  exact h

theorem publish_spec {data : EventData} {sourceEventSeqs surfaceOp : Option Json}
    (h : Steady out foreign init .others others w)
    (hforeign : foreign w.log data sourceEventSeqs surfaceOp) :
    Returns out foreign init others (append out .others data sourceEventSeqs surfaceOp) w := by
  have happends : Appends out foreign w.log data sourceEventSeqs surfaceOp .others fun _ => .others := by
    refine .others fun _ event hlog hseq hdata hsource hop => ?_
    refine .foreign (hseq.trans (by rw [hlog])) ?_
    rw [hlog, hdata, hsource, hop]
    exact hforeign
  exact (append_spec h ⟨rfl, nofun⟩ happends fun _ => ⟨rfl, rfl, nofun⟩).weaken
    (fun _ _ _ h => h.1) fun _ _ _ h => h.1

theorem steady_of_settled (h : Settled out foreign init others.all w)
    (hhere : ∀ site ∈ others.all, Here out foreign init site w)
    (htasks : ∀ site ∈ others.tasks, (AgentSite.kind site).isAwait) :
    Steady out foreign init .others others w := by
  refine ⟨⟨h.comes, h.owned⟩, htasks, ?_, ?_⟩
  · intro happending
    obtain ⟨caller, hcaller⟩ := h.publishes happending
    rcases List.mem_append.mp hcaller with hcaller | hcaller
    · exact ⟨caller, hcaller⟩
    · cases not_isPublication_of_isAwait (htasks _ hcaller)
  · rintro ⟨caller, hcaller⟩
    exact (hhere _ (List.mem_append_left _ hcaller)).publication rfl

theorem Steady.settled (h : Steady out foreign init .others others w) :
    Settled out foreign init others.all w := by
  refine ⟨h.stands.1, fun happending => ?_, h.stands.2⟩
  obtain ⟨caller, hcaller⟩ := h.publishes.mp happending
  exact ⟨caller, List.mem_append_left _ hcaller⟩

theorem Returns.goesOn {α : Type} {program : AgentProgram α}
    (h : Returns out foreign init others program w) :
    Upheld out foreign init others (through program) w (agentContract out foreign init).goesOn := by
  refine Upholds.seq h ?_ ?_
  · exact fun _ _ _ h => h.settled
  · exact fun _ _ _ h => h.settled

end Calls

end DshKernel.Agent
