import DshKernel.Titles.TitleSteps

/-!
# Runs of the title service

No step but a rename or a refresh of a session adds to its titles once they are pinned.
-/

namespace DshKernel.Titles

open Js Lib TitleService TitleService

variable {config : Config}

section Calls

variable {pinned : Nat → Prop} {titles : Nat → List SessionTitleEventData}
  {allowed : Nat → SessionTitleEventData → Prop} {w : TitleService}

variable {session state : Nat}

theorem moves_setPublishing {publishing : Option Publishing}
    (hpublishing : (w.publishing? session).isSome = true)
    (h : ∀ state registration throughSeq, publishing = some (.scheduling state registration throughSeq) →
      ¬pinned session ∧ w.owner? state = some session) :
    Moves pinned allowed w (w.setPublishing session publishing) := by
  apply moves_modifySession
  intro found hfound
  unfold publishing? at hpublishing
  rw [hfound] at hpublishing
  refine ⟨id, .inl rfl, ?_, fun _ => .inr ⟨hpublishing, rfl⟩, [], (List.append_nil _).symm, nofun⟩
  exact fun _ _ _ hscheduling => .inr (h _ _ _ hscheduling)

theorem moves_delivered (hpublishing : (w.publishing? session).isSome = true) :
    Moves pinned allowed w (w.setPublishing session (some .delivered)) :=
  moves_setPublishing hpublishing nofun

theorem moves_supersede (w : TitleService) (state : Nat) : Moves pinned allowed w (w.supersede state) := by
  apply moves_modifyState
  intro found _
  exact ⟨rfl, Nat.le_succ _, nofun, fun _ => .inl⟩

theorem moves_modifyState_of_same {change : SessionTitleWorkState → SessionTitleWorkState}
    (hsession : ∀ found, (change found).session = found.session)
    (hrevision : ∀ found, (change found).revision = found.revision)
    (hpending : ∀ found pending, (change found).pending = some pending → found.pending = some pending)
    (hactive : ∀ found work, (change found).active = some work → found.active = some work) :
    Moves pinned allowed w (w.modifyState state change) := by
  apply moves_modifyState
  intro found _
  refine ⟨hsession found, Nat.le_of_eq (hrevision found).symm, ?_, ?_⟩
  · exact fun pending h => .inl (hpending found pending h)
  · exact fun work h => .inl (hactive found work h)

theorem moves_ensureFallback (h : Holds pinned titles w) (session : Nat) :
    Moves pinned allowed w (w.ensureFallback config session).1 := by
  unfold ensureFallback
  split
  · exact .refl w
  · split
    · exact .refl w
    · split
      · exact .refl w
      · dsimp only
        split
        · exact .refl w
        · have m : Moves pinned allowed w _ := (moves_stateFor h session).1
          generalize w.stateFor session = result at m
          obtain ⟨next, state⟩ := result
          dsimp only at m ⊢
          split
          · exact m
          · have mfallbacks : Moves pinned allowed next { next with fallbacks := next.fallbacks ++ [none] } :=
              moves_of_same id rfl rfl rfl fun _ => id
            refine ((m.trans mfallbacks).trans ?_).trans (moves_spawn (isNew_of_free trivial))
            exact moves_modifyState_of_same (fun _ => rfl) (fun _ => rfl) (fun _ _ => id) fun _ _ => id

theorem moves_proceed (w : TitleService) (session : Nat) (fulfilled : Bool) (next : Continuation) :
    Moves pinned allowed w (w.proceed session fulfilled next) := by
  cases next with
  | ignore => exact .refl w
  | generate work route =>
    unfold TitleService.proceed
    dsimp only
    split
    · exact moves_spawn (isNew_of_free trivial)
    · exact moves_spawn (isNew_of_free trivial)

theorem moves_awaitFallback (h : Holds pinned titles w) (session : Nat) (next : Continuation) :
    Moves pinned allowed w (w.awaitFallback config session next) := by
  have m : Moves pinned allowed w _ := @moves_ensureFallback config _ _ _ _ h session
  unfold awaitFallback
  generalize w.ensureFallback config session = result at m
  obtain ⟨after, ensured⟩ := result
  cases ensured with
  | threw => exact m.trans (moves_proceed _ _ _ _)
  | returned => exact m.trans (moves_proceed _ _ _ _)
  | awaits promise creator => exact m.trans (moves_spawn (isNew_of_free trivial))

theorem moves_startPending (h : Holds pinned titles w)
    {pending : PendingAutomaticWork} {route : Route} (hwork : w.work? session = some state)
    (hpending : w.pending? state = some pending) :
    Moves pinned allowed w (w.startPending session state pending route) := by
  have m : Moves pinned allowed w (w.modifyState state fun found => { found with pending := none }) :=
    moves_modifyState_of_same (fun _ => rfl) (fun _ => rfl) nofun fun _ _ => id
  apply m.spawn
  · exact m.owner _ _ (h.stored _ _ hwork)
  · exact .pending hpending

theorem isUserTitled_of_pinned (h : Holds pinned titles w)
    (huser : ∀ session, pinned session → (titles session).getLast?.any (·.source == .user) = true)
    (hpinned : pinned session) : isUserTitled (w.log session) = true := by
  unfold isUserTitled foldSessionTitle
  rw [(h.pinned session hpinned).titles]
  exact huser session hpinned

theorem isSome_of_isUserTitled {log : List SessionEvent} (h : isUserTitled log = true) :
    (foldSessionTitle log).isSome = true := by
  obtain ⟨data, hdata, -⟩ := (Option.any_eq_true _ _).mp h
  rw [hdata]
  rfl

theorem sessions_abortActive (w : TitleService) (state : Nat) :
    (w.abortActive state).sessions = w.sessions := by
  unfold abortActive
  split <;> rfl

theorem moves_abort (h : Holds pinned titles w) {after : TitleService}
    (hafter : after = (w.stateFor session).1.abortActive (w.stateFor session).2) :
    Moves pinned allowed w after ∧ after.owner? (w.stateFor session).2 = some session ∧
      (w.isLive session = true → after.work? session = some (w.stateFor session).2) ∧
      after.publishing? session = w.publishing? session := by
  obtain ⟨m, howner, hwork⟩ := @moves_stateFor pinned _ allowed w h session
  have mabort : Moves pinned allowed (w.stateFor session).1 after := hafter ▸ moves_abortActive _ _
  have hsessions : after.sessions = (w.stateFor session).1.sessions := hafter ▸ sessions_abortActive _ _
  refine ⟨m.trans mabort, mabort.owner _ _ howner, ?_, ?_⟩
  · intro hlive
    unfold work?
    rw [hsessions]
    exact hwork hlive
  · unfold publishing?
    rw [hsessions]
    unfold stateFor
    split
    · rfl
    · show (w.sessions.modify session _)[session]?.bind _ = _
      rw [List.getElem?_modify_eq]
      cases w.sessions[session]? <;> rfl

theorem moves_onUserMessage (h : Holds pinned titles w)
    (huser : ∀ session, pinned session → (titles session).getLast?.any (·.source == .user) = true)
    (hpublishing : (w.publishing? session).isSome = true) (seq : Nat) (event : SessionEvent) :
    Moves pinned allowed w (w.onUserMessage session seq event) := by
  unfold onUserMessage
  split
  · exact moves_delivered hpublishing
  · rename_i hopen
    have hunpinned : ¬pinned session := by
      intro hpinned
      rw [isUserTitled_of_pinned h huser hpinned, Bool.or_true] at hopen
      exact hopen rfl
    split
    · obtain ⟨m, howner, -, hsame⟩ := moves_abort h rfl
      refine m.trans (moves_setPublishing (hsame.symm ▸ hpublishing) ?_)
      intro other registration throughSeq hscheduling
      cases hscheduling
      exact ⟨hunpinned, howner⟩
    · exact (moves_delivered hpublishing).trans (moves_spawn (isNew_of_free trivial))

theorem moves_onRequestHeader (h : Holds pinned titles w)
    (hpublishing : (w.publishing? session).isSome = true) (seq : Nat) (route : Route) :
    Moves pinned allowed w (w.onRequestHeader session seq route) := by
  unfold onRequestHeader
  dsimp only
  have m : Moves pinned allowed w (w.setPublishing session (some .delivered)) := moves_delivered hpublishing
  split
  · exact m
  · rename_i state hwork
    split
    · exact m
    · rename_i pending hpending
      split
      · exact m
      · exact m.trans (moves_startPending (h.quiet (moves_delivered hpublishing)) hwork hpending)

theorem moves_deliver (h : Holds pinned titles w)
    (huser : ∀ session, pinned session → (titles session).getLast?.any (·.source == .user) = true)
    (hpublishing : (w.publishing? session).isSome = true) :
    Moves pinned allowed w (w.deliver session) := by
  unfold deliver
  dsimp only
  split
  · exact moves_onUserMessage h huser hpublishing _ _
  · exact moves_onRequestHeader h hpublishing _ _
  · exact moves_delivered hpublishing

theorem moves_schedule (h : Holds pinned titles w) {registration throughSeq : Nat}
    (hscheduling : w.publishing? session = some (.scheduling state registration throughSeq)) :
    Moves pinned allowed w (w.schedule session state registration throughSeq) := by
  have howner := h.scheduling _ _ _ _ hscheduling
  have hunpinned : ¬pinned session := fun hpinned =>
    (h.pinned session hpinned).unscheduled _ _ _ hscheduling
  unfold schedule
  dsimp only
  have m : Moves pinned allowed w (w.supersede state) := moves_supersede w state
  have mpending : Moves pinned allowed (w.supersede state) ((w.supersede state).modifyState state fun found =>
      { found with pending := some ⟨registration, found.revision, throughSeq⟩ }) := by
    apply moves_modifyState
    intro found hfound
    refine ⟨rfl, Nat.le_refl _, ?_, fun _ => .inl⟩
    intro pending hpending
    cases hpending
    refine .inr ⟨Nat.le_refl _, ?_⟩
    obtain ⟨before, hbefore, hsession⟩ := Option.map_eq_some_iff.mp (m.owner _ _ howner)
    cases hfound.symm.trans hbefore
    rw [hsession]
    exact hunpinned
  refine ((m.trans mpending).trans (moves_delivered ?_)).trans (moves_spawn (isNew_of_free trivial))
  exact congrArg Option.isSome hscheduling

theorem moves_onMainRequest (h : Holds pinned titles w) (session : Nat) (route : Route) :
    Moves pinned allowed w (w.onMainRequest session route) := by
  unfold onMainRequest
  split
  · exact .refl w
  · rename_i state hwork
    split
    · exact .refl w
    · rename_i pending hpending
      split
      · exact moves_startPending h hwork hpending
      · exact .refl w

theorem isLive_length (h : w.isLive session = true) : session < w.sessions.length := by
  obtain ⟨found, hfound, -⟩ := (Option.any_eq_true _ _).mp h
  exact (List.getElem?_eq_some_iff.mp hfound).1

theorem moves_rename (h : Holds pinned titles w) (session : Nat) (title : String) :
    Moves pinned allowed w (w.rename config session title) := by
  unfold rename
  dsimp only
  split
  · exact .refl w
  · rename_i hopen
    have hlive : w.isLive session = true := by
      cases hw : w.isLive session with
      | true => rfl
      | false => simp [hw] at hopen
    obtain ⟨m, howner, hwork, -⟩ := moves_abort h rfl
    refine m.trans (moves_spawn ⟨⟨?_, howner, fun _ _ => hwork hlive⟩, nofun⟩)
    exact Nat.lt_of_lt_of_le (isLive_length hlive) m.sessions

theorem moves_refresh (h : Holds pinned titles w) (upstream : Option Bool) (admitted : Bool)
    (hallowed : ∀ data, data.source = .fallback → allowed session data) :
    Moves pinned allowed w (w.refresh config session upstream admitted) := by
  unfold refresh
  dsimp only
  split
  · exact .refl w
  · split
    · obtain ⟨m, howner, -⟩ := moves_abort h rfl
      exact m.trans (moves_spawn ⟨howner, nofun⟩)
    · split
      · split
        · split
          · exact .refl w
          · apply moves_append_getD
            intro data hdata
            cases hdata
            exact hallowed _ rfl
        · exact moves_awaitFallback h _ _
      · exact moves_awaitFallback h _ _

theorem stateMoves_dropPending {found : SessionTitleWorkState} :
    StateMoves pinned w state found { found with pending := none } :=
  ⟨rfl, Nat.le_refl _, nofun, fun _ => .inl⟩

theorem moves_disposeProvider (w : TitleService) (registration : Nat) :
    Moves pinned allowed w (w.disposeProvider registration) := by
  refine moves_of_pointwise id sessions_refl (.mapIdx ?_) (.mapIdx ?_) fun _ => .inl
  · intro state found _
    split
    · exact stateMoves_dropPending
    · exact .refl _ _
  · intro work found _
    unfold WorkMoves
    split <;> rfl

theorem moves_dispose (w : TitleService) : Moves pinned allowed w w.dispose := by
  refine moves_of_pointwise (fun _ => rfl) sessions_refl (.mapIdx ?_) works_refl fun _ => .inl
  intro state found _
  split
  · exact stateMoves_dropPending
  · exact .refl _ _

theorem moves_onDisposed (hdead : ¬w.isLive session = true) :
    Moves pinned allowed w (w.onDisposed session) := by
  unfold onDisposed
  split
  · exact .refl w
  · rename_i state _
    refine (moves_abortActive w state).trans (moves_modifySession ?_)
    intro found hfound
    rw [sessions_abortActive] at hfound
    have hlive : found.live = false := by
      unfold isLive at hdead
      rw [hfound] at hdead
      exact eq_false_of_ne_true hdead
    exact ⟨id, .inr ⟨rfl, .inl hlive⟩, fun _ _ _ => .inl, fun h => .inr ⟨h, rfl⟩,
      [], (List.append_nil _).symm, nofun⟩

end Calls

section Tasks

variable {pinned : Nat → Prop} {titles : Nat → List SessionTitleEventData}
  {allowed : Nat → SessionTitleEventData → Prop} {w : TitleService}

variable {session work : Nat} {admitted : Bool} {messages : List SessionTitleUserMessage}

theorem isCurrent_iff : w.isCurrent session work = true ↔
    w.serviceActive = true ∧ w.isAborted work = false ∧ ∃ found state, w.works[work]? = some found ∧
      w.work? session = some state ∧ w.registration = some found.registration ∧
      w.active? state = some work ∧ w.revision state = found.revision ∧ w.isLive session = true := by
  unfold isCurrent
  cases hfound : w.works[work]? with
  | none => simp
  | some found =>
    cases hwork : w.work? session with
    | none => simp
    | some state => simp [and_assoc]

theorem not_isCurrent_of_pinned (h : Holds pinned titles w) (hpinned : pinned session)
    (work : Nat) : ¬w.isCurrent session work = true := by
  intro hcurrent
  obtain ⟨hactive, -, found, state, hfound, hwork, -, hstate, hrevision, hlive⟩ := isCurrent_iff.mp hcurrent
  have hrunning : w.lifetimeAborted = false := by
    unfold serviceActive at hactive
    simpa using (Bool.and_eq_true_iff.mp hactive).1
  have hbehind := (h.pinned session hpinned).behind hrunning hlive state hwork _ (.active hstate hfound)
  omega

theorem moves_settle (w : TitleService) (promise : Nat) (fulfilled : Bool) :
    Moves pinned allowed w (w.settle promise fulfilled) :=
  moves_of_same id rfl rfl rfl fun _ => id

theorem moves_commitFallback {promise : Nat} {title : String} {firstSeq : Nat}
    (hallowed : foldSessionTitle (w.log session) = none → allowed session ⟨title, [firstSeq], .fallback⟩) :
    Moves pinned allowed w (w.commitFallback promise session title firstSeq admitted) := by
  unfold commitFallback
  split
  · exact moves_settle _ _ _
  · split
    · exact moves_settle _ _ _
    · rename_i huntitled
      split
      · exact moves_settle _ _ _
      · rename_i after happend
        refine (moves_append ?_ happend).trans (moves_settle _ _ _)
        intro data hdata
        cases hdata
        exact hallowed (Option.not_isSome_iff_eq_none.mp huntitled)

theorem source_of_validateResult {id : String} {result : Option Json} {data : SessionTitleEventData}
    (h : validateResult config id messages result = .ok data) : ∃ model, data.source = .provider id model := by
  unfold validateResult at h
  split at h
  · split at h
    · dsimp only at h
      split at h
      · cases h
      · split at h
        · cases h
        · generalize normalizeSessionTitle _ config.maxTitleBytes = title at h
          generalize acceptMessageSeqs messages none _ = messageSeqs at h
          generalize acceptModel _ = model at h
          cases messageSeqs with
          | error message => cases h
          | ok messageSeqs =>
            cases model with
            | error message => cases h
            | ok model =>
              cases h
              exact ⟨model, rfl⟩
    · cases h
  · cases h

theorem moves_commitResult
    {outcome : Option (Option Json)}
    (hallowed : w.isCurrent session work = true → ∀ data, (∃ id model, data.source = .provider id model) →
      allowed session data) :
    Moves pinned allowed w (w.commitResult config session work messages outcome admitted) := by
  unfold commitResult
  dsimp only
  have m : Moves pinned allowed w (w.spawn (.finishing session work)) := moves_spawn (isNew_of_free trivial)
  split
  · split
    · rename_i hcurrent
      split
      · exact m
      · rename_i hresult
        refine m.trans (moves_append_getD ?_)
        intro data hdata
        cases hdata
        exact hallowed hcurrent _ ⟨_, source_of_validateResult hresult⟩
    · exact m
  · exact m

theorem activate_leave {task : Task} (htask : task ∈ w.tasks) (session state : Nat)
    (pending : PendingAutomaticWork) (upstream : Option Bool) (route : Option Route) :
    (w.leave task).activate session state pending upstream route =
      (w.activate session state pending upstream route).leave task := by
  unfold leave activate spawn
  dsimp only
  rw [show ∀ (change : SessionTitleWorkState → SessionTitleWorkState) (before : TitleService),
    (before.modifyState state change).tasks = before.tasks from fun _ _ => rfl]
  rw [show ∀ (change : SessionTitleWorkState → SessionTitleWorkState) (before : TitleService),
    (before.modifyState state change).tasks = before.tasks from fun _ _ => rfl]
  dsimp only
  rw [List.erase_append_left _ htask]
  rfl

end Tasks

def Action.Retitles (session : Nat) : Action → Prop
  | .refresh other _ _ => other = session
  | .resume (.rename other _ _) _ _ => other = session
  | .resume (.refresh other _ _ _ _) _ _ => other = session
  | _ => False

def Action.Adds (w : TitleService) : Action → Nat → SessionTitleEventData → Prop
  | .refresh session _ _, other, data => other = session ∧ data.source = .fallback
  | .resume (.fallback _ session _ _) _ _, other, data =>
    other = session ∧ data.source = .fallback ∧ foldSessionTitle (w.log session) = none
  | .resume (.generating session work _ _) _ _, other, data =>
    other = session ∧ w.isCurrent session work = true ∧ ∃ id model, data.source = .provider id model
  | .resume (.rename session _ _) _ _, other, data => other = session ∧ data.source = .user
  | _, _, _ => False

section Steps

variable {pinned : Nat → Prop} {titles : Nat → List SessionTitleEventData} {w : TitleService}

theorem moves_resume (h : Holds pinned titles w) {task : Task} (htask : task ∈ w.tasks) {admitted : Bool}
    {outcome : Option (Option Json)}
    (hunpinned : ∀ session, pinned session → ¬(Action.resume task admitted outcome).Retitles session) :
    Moves pinned ((Action.resume task admitted outcome).Adds w) w
      ((w.leave task).resume config admitted outcome task) := by
  have m : Moves pinned ((Action.resume task admitted outcome).Adds w) w (w.leave task) := moves_leave w task
  have hleft : Holds pinned titles (w.leave task) := h.quiet (moves_leave w task)
  cases task with
  | deferredFallback session =>
    unfold resume
    dsimp only
    split
    · exact m.trans (moves_awaitFallback hleft _ _)
    · exact m
  | deferredStart session state pending route =>
    unfold resume
    dsimp only
    split
    · rw [activate_leave htask]
      exact (moves_activate h fun _ _ => .inl (.deferred htask)).trans (moves_leave _ _)
    · exact m
  | run session work route =>
    unfold resume
    dsimp only
    split
    · exact m.trans (moves_awaitFallback hleft _ _)
    · exact m.trans (moves_spawn (isNew_of_free trivial))
  | fallback promise session title firstSeq =>
    exact m.trans (moves_commitFallback fun huntitled => ⟨rfl, rfl, huntitled⟩)
  | waiting promise creator session next =>
    unfold resume
    dsimp only
    refine (m.trans ?_).trans (moves_proceed _ _ _ _)
    cases creator with
    | none => exact .refl _
    | some state =>
      exact moves_modifyState_of_same (fun _ => rfl) (fun _ => rfl) (fun _ _ => id) fun _ _ => id
  | generate session work route =>
    unfold resume
    dsimp only
    split
    · exact m.trans (moves_spawn (isNew_of_free trivial))
    · exact m.trans (moves_spawn (isNew_of_free trivial))
  | generating session work messages route =>
    exact m.trans (moves_commitResult fun hcurrent _ hsource => ⟨rfl, hcurrent, hsource⟩)
  | finishing session work =>
    unfold resume
    dsimp only
    split
    · exact m
    · refine m.trans (moves_modifyState ?_)
      intro found _
      split
      · exact ⟨rfl, Nat.le_refl _, fun _ => .inl, nofun⟩
      · exact .refl _ _
  | rename session state title =>
    unfold resume
    dsimp only
    refine (m.trans (moves_supersede _ _)).trans (moves_append_getD ?_)
    intro data hdata
    cases hdata
    exact ⟨rfl, rfl⟩
  | refresh session state registration throughSeq upstream =>
    have hfree : ¬pinned session := fun hpinned => hunpinned session hpinned rfl
    unfold resume
    dsimp only
    refine (m.trans (moves_supersede _ state)).trans (moves_activate (hleft.quiet (moves_supersede _ state)) ?_)
    intro found hfound
    refine .inr ⟨?_, ?_⟩
    · unfold revision
      rw [hfound]
      exact Nat.le_refl _
    · have howner := (m.trans (moves_supersede _ state)).owner _ _ (h.tasks _ htask)
      unfold owner? at howner
      rw [hfound] at howner
      cases howner
      exact hfree

theorem moves_step (h : Holds pinned titles w)
    (huser : ∀ session, pinned session → (titles session).getLast?.any (·.source == .user) = true)
    {action : Action} (hunpinned : ∀ session, pinned session → ¬action.Retitles session) :
    Moves pinned (action.Adds w) w (w.step config action) := by
  cases action with
  | enter log isChild => exact moves_enter w _ rfl rfl
  | detach session =>
    apply moves_modifySession
    intro found _
    split
    · rename_i hidle
      refine ⟨nofun, .inl rfl, fun _ _ _ => .inl, ?_, [], (List.append_nil _).symm, nofun⟩
      intro hpublishing
      rw [show ({ found with live := false } : TitledSession).publishing = found.publishing from rfl, hidle]
        at hpublishing
      cases hpublishing
    · exact .refl _ _
  | disposed session =>
    unfold step
    dsimp only
    split
    · exact .refl w
    · rename_i hdead
      exact moves_onDisposed hdead
  | append session event admitted =>
    unfold step
    dsimp only
    split
    · exact .refl w
    · rename_i hevent
      apply moves_append_getD
      intro data hdata
      rw [hdata] at hevent
      exact absurd rfl hevent
  | deliver session =>
    unfold step
    dsimp only
    split
    · rename_i hcommitted
      apply moves_deliver h huser
      obtain ⟨found, hfound, hpublishing⟩ := (Option.any_eq_true _ _).mp hcommitted
      unfold publishing?
      rw [hfound, Option.bind_some, beq_iff_eq.mp hpublishing]
      rfl
    · exact .refl w
  | schedule session =>
    unfold step
    dsimp only
    split
    · rename_i hscheduling
      exact moves_schedule h hscheduling
    · exact .refl w
  | published session =>
    apply moves_modifySession
    intro found _
    split
    · exact ⟨id, .inl rfl, nofun, nofun, [], (List.append_nil _).symm, nofun⟩
    · exact .refl _ _
  | mainRequest session route => exact moves_onMainRequest h session route
  | register provider automatic =>
    unfold step
    dsimp only
    split
    · exact moves_of_same id rfl rfl rfl fun _ => id
    · exact .refl w
  | disposeProvider registration => exact moves_disposeProvider w registration
  | drained registration =>
    unfold step
    dsimp only
    split
    · exact moves_of_same id rfl rfl rfl fun _ => id
    · exact .refl w
  | fiber active => exact moves_of_same id rfl rfl rfl fun _ => id
  | dispose => exact moves_dispose w
  | clear =>
    unfold step
    dsimp only
    split
    · rename_i haborted
      refine moves_of_pointwise id (.map ?_) states_refl works_refl fun _ => .inl
      intro session found _
      exact ⟨id, .inr ⟨rfl, .inr haborted⟩, fun _ _ _ => .inl, fun h => .inr ⟨h, rfl⟩,
        [], (List.append_nil _).symm, nofun⟩
    · exact .refl w
  | cancel work =>
    refine moves_of_pointwise id sessions_refl states_refl ?_ fun _ => .inl
    exact .modify (fun _ found => Eq.refl found.revision) fun found _ => Eq.refl found.revision
  | rename session title => exact moves_rename h session title
  | refresh session upstream admitted =>
    exact moves_refresh h _ _ fun _ hsource => ⟨rfl, hsource⟩
  | resume task admitted outcome =>
    unfold step
    dsimp only
    split
    · rename_i hready
      rw [Bool.and_eq_true_iff, decide_eq_true_eq] at hready
      exact moves_resume h hready.1 hunpinned
    · exact .refl w

theorem not_adds_of_pinned (h : Holds pinned titles w)
    (huser : ∀ session, pinned session → (titles session).getLast?.any (·.source == .user) = true)
    {action : Action} {session : Nat} (hpinned : pinned session) (hretitles : ¬action.Retitles session)
    (data : SessionTitleEventData) : ¬action.Adds w session data := by
  intro hadds
  unfold Action.Adds at hadds
  split at hadds
  · exact hretitles hadds.1.symm
  · obtain ⟨rfl, -, huntitled⟩ := hadds
    have htitled := isSome_of_isUserTitled (isUserTitled_of_pinned h huser hpinned)
    rw [huntitled] at htitled
    cases htitled
  · obtain ⟨rfl, hcurrent, -⟩ := hadds
    exact not_isCurrent_of_pinned h hpinned _ hcurrent
  · exact hretitles hadds.1.symm
  · exact hadds

theorem holds_step (h : Holds pinned titles w)
    (huser : ∀ session, pinned session → (titles session).getLast?.any (·.source == .user) = true)
    {action : Action} (hunpinned : ∀ session, pinned session → ¬action.Retitles session) :
    Holds pinned titles (w.step config action) :=
  h.moves (moves_step h huser hunpinned) fun session hpinned data =>
    not_adds_of_pinned h huser hpinned (hunpinned session hpinned) data

theorem holds_run (h : Holds pinned titles w)
    (huser : ∀ session, pinned session → (titles session).getLast?.any (·.source == .user) = true)
    {actions : List Action}
    (hunpinned : ∀ action ∈ actions, ∀ session, pinned session → ¬action.Retitles session) :
    Holds pinned titles (w.run config actions) := by
  induction actions generalizing w with
  | nil => exact h
  | cons action rest ih =>
    have hnext : Holds pinned titles (w.step config action) :=
      holds_step h huser (hunpinned action List.mem_cons_self)
    exact ih hnext fun other hother => hunpinned other (List.mem_cons_of_mem _ hother)

theorem holds_reached (actions : List Action) :
    Holds (fun _ => False) (fun _ => []) (run config {} actions) := by
  have hinit : Holds (fun _ => False) (fun _ => []) {} :=
    ⟨nofun, nofun, nofun, nofun, nofun, ?_, nofun⟩
  · exact holds_run hinit nofun fun _ _ _ => False.elim
  · intro state revision hclaims
    rcases hclaims with hpending | ⟨hactive, -⟩ | hdeferred
    · cases hpending
    · cases hactive
    · cases hdeferred

end Steps

end DshKernel.Titles
