import DshKernel.Lib.Pointwise
import DshKernel.Titles.TitleMoves

/-!
# The steps of the title service

The updates that steps are made of leave pinned titles alone, and so does every step that is no
rename or refresh of a pinned session.
-/

namespace DshKernel.Titles

open Js Lib TitleService Option

section Entries

variable (pinned : Nat → Prop) (allowed : Nat → SessionTitleEventData → Prop) (w : TitleService)

structure SessionMoves (session : Nat) (found found' : TitledSession) : Prop where
  live : found'.live = true → found.live = true
  state : found'.state = found.state ∨
    found'.state = none ∧ (found'.live = false ∨ w.lifetimeAborted = true)
  publishing : ∀ state registration throughSeq,
    found'.publishing = some (.scheduling state registration throughSeq) →
      found.publishing = some (.scheduling state registration throughSeq) ∨
        ¬pinned session ∧ w.owner? state = some session
  published : found'.publishing.isSome = true → found'.live = true ∨
    found.publishing.isSome = true ∧ found'.live = found.live
  titles : ∃ news, titlesOf found'.log = titlesOf found.log ++ news ∧
    ∀ data ∈ news, allowed session data

structure StateMoves (state : Nat) (found found' : SessionTitleWorkState) : Prop where
  session : found'.session = found.session
  revision : found.revision ≤ found'.revision
  pending : ∀ pending, found'.pending = some pending →
    found.pending = some pending ∨ pending.revision ≤ found'.revision ∧ ¬pinned found.session
  active : ∀ work, found'.active = some work → found.active = some work ∨
    ∃ call, w.works[work]? = some call ∧
      (Claims w state call.revision ∨ call.revision ≤ found'.revision ∧ ¬pinned found.session)

def WorkMoves (_work : Nat) (found found' : ActiveProviderWork) : Prop :=
  found'.revision = found.revision

variable {pinned allowed w}

theorem SessionMoves.refl (session : Nat) (found : TitledSession) :
    SessionMoves pinned allowed w session found found :=
  ⟨id, .inl rfl, fun _ _ _ => .inl, fun h => .inr ⟨h, rfl⟩, [], (List.append_nil _).symm, nofun⟩

theorem StateMoves.refl (state : Nat) (found : SessionTitleWorkState) :
    StateMoves pinned w state found found :=
  ⟨rfl, Nat.le_refl _, fun _ => .inl, fun _ => .inl⟩

end Entries

section Updates

variable {pinned : Nat → Prop} {titles : Nat → List SessionTitleEventData}
  {allowed : Nat → SessionTitleEventData → Prop} {w w' : TitleService}

def Task.IsNew (w : TitleService) (task : Task) : Prop :=
  task.Fits w ∧ ∀ session state pending route, task ≠ .deferredStart session state pending route

theorem owner?_of_pointwise (hstates : Pointwise (StateMoves pinned w) w.states w'.states) (state : Nat) :
    w'.owner? state = w.owner? state := by
  unfold owner?
  cases hfound : w.states[state]? with
  | none =>
    have hlength := List.getElem?_eq_none_iff.mp hfound
    rw [← hstates.length] at hlength
    rw [List.getElem?_eq_none hlength]
  | some found =>
    obtain ⟨found', hfound', hmoves⟩ := hstates.forward hfound
    rw [hfound', map_some, map_some, hmoves.session]

variable {revision state : Nat} {task : Task} {pending : PendingAutomaticWork}

theorem claims_of_pointwise (hstates : Pointwise (StateMoves pinned w) w.states w'.states)
    (hworks : Pointwise WorkMoves w.works w'.works)
    (htasks : ∀ task ∈ w'.tasks, task ∈ w.tasks ∨ task.IsNew w') (h : Claims w' state revision) :
    Claims w state revision ∨
      revision ≤ w'.revision state ∧ ∃ session, w'.owner? state = some session ∧ ¬pinned session := by
  rcases h with hpending | ⟨hactive, hfound⟩ | hdeferred
  · obtain ⟨found', hstate', hpending⟩ := bind_eq_some_iff.mp hpending
    obtain ⟨found, hstate, hmoves⟩ := hstates.related state found' hstate'
    rcases hmoves.pending _ hpending with hbefore | ⟨hle, hunpinned⟩
    · exact .inl (.pending (bind_eq_some_iff.mpr ⟨found, hstate, hbefore⟩))
    · refine .inr ⟨?_, found.session, ?_, hunpinned⟩
      · unfold revision
        rw [hstate']
        exact hle
      · unfold owner?
        rw [hstate', map_some, hmoves.session]
  · obtain ⟨found', hstate', hactive⟩ := bind_eq_some_iff.mp hactive
    obtain ⟨found, hstate, hmoves⟩ := hstates.related state found' hstate'
    obtain ⟨before, hbefore, hsame⟩ := hworks.related _ _ hfound
    rw [hsame]
    rcases hmoves.active _ hactive with hkept | ⟨call, hcall, hclaims⟩
    · exact .inl (.active (bind_eq_some_iff.mpr ⟨found, hstate, hkept⟩) hbefore)
    · cases hbefore.symm.trans hcall
      refine hclaims.imp_right ?_
      rintro ⟨hle, hunpinned⟩
      refine ⟨?_, found.session, ?_, hunpinned⟩
      · unfold revision
        rw [hstate']
        exact hle
      · unfold owner?
        rw [hstate', map_some, hmoves.session]
  · rcases htasks _ hdeferred with hbefore | ⟨-, hnew⟩
    · exact .inl (.deferred hbefore)
    · exact absurd rfl (hnew _ _ _ _)

theorem moves_of_pointwise (haborted : w.lifetimeAborted = true → w'.lifetimeAborted = true)
    (hsessions : Pointwise (SessionMoves pinned allowed w') w.sessions w'.sessions)
    (hstates : Pointwise (StateMoves pinned w) w.states w'.states)
    (hworks : Pointwise WorkMoves w.works w'.works)
    (htasks : ∀ task ∈ w'.tasks, task ∈ w.tasks ∨ task.IsNew w') : Moves pinned allowed w w' where
  aborted := haborted
  sessions := Nat.le_of_eq hsessions.length.symm
  works := Nat.le_of_eq hworks.length.symm
  live session _ hlive := by
    obtain ⟨found', hfound', hlive⟩ := (any_eq_true _ _).mp hlive
    obtain ⟨found, hfound, hmoves⟩ := hsessions.related session found' hfound'
    exact (any_eq_true _ _).mpr ⟨found, hfound, hmoves.live hlive⟩
  work session state h := by
    obtain ⟨found', hfound', hstate⟩ := bind_eq_some_iff.mp h
    obtain ⟨found, hfound, hmoves⟩ := hsessions.related session found' hfound'
    rcases hmoves.state with hsame | ⟨hnone, -⟩
    · exact .inl (bind_eq_some_iff.mpr ⟨found, hfound, hsame ▸ hstate⟩)
    · cases hnone.symm.trans hstate
  kept session _ hrunning hlive state h := by
    obtain ⟨found, hfound, hstate⟩ := bind_eq_some_iff.mp h
    obtain ⟨found', hfound', hmoves⟩ := hsessions.forward hfound
    have hlive' : found'.live = true := by
      unfold isLive at hlive
      rw [hfound'] at hlive
      exact hlive
    refine bind_eq_some_iff.mpr ⟨found', hfound', ?_⟩
    rcases hmoves.state with hsame | ⟨-, hdead | hover⟩
    · exact hsame.trans hstate
    · cases hlive'.symm.trans hdead
    · cases hrunning.symm.trans hover
  owner state session h := (owner?_of_pointwise hstates state).trans h
  scheduling session state registration throughSeq h := by
    obtain ⟨found', hfound', hpublishing⟩ := bind_eq_some_iff.mp h
    obtain ⟨found, hfound, hmoves⟩ := hsessions.related session found' hfound'
    refine (hmoves.publishing _ _ _ hpublishing).imp_left fun hbefore => ?_
    exact bind_eq_some_iff.mpr ⟨found, hfound, hbefore⟩
  published session h := by
    unfold publishing? at h ⊢
    cases hfound' : w'.sessions[session]? with
    | none =>
      rw [hfound'] at h
      cases h
    | some found' =>
      obtain ⟨found, hfound, hmoves⟩ := hsessions.related session found' hfound'
      rw [hfound'] at h
      unfold isLive
      rw [hfound', hfound]
      exact hmoves.published h
  active state work h := by
    obtain ⟨found', hfound', hactive⟩ := bind_eq_some_iff.mp h
    obtain ⟨found, hfound, hmoves⟩ := hstates.related state found' hfound'
    rcases hmoves.active _ hactive with hkept | ⟨call, hcall, -⟩
    · exact .inl (bind_eq_some_iff.mpr ⟨found, hfound, hkept⟩)
    · refine .inr ?_
      rw [hworks.length]
      exact (List.getElem?_eq_some_iff.mp hcall).1
  revision state := by
    unfold revision
    cases hfound : w.states[state]? with
    | none => exact Nat.zero_le _
    | some found =>
      obtain ⟨found', hfound', hmoves⟩ := hstates.forward hfound
      rw [hfound']
      exact hmoves.revision
  claims _ _ := claims_of_pointwise hstates hworks htasks
  tasks task htask := (htasks task htask).imp_right And.left
  titles session hentered := by
    have hfound := List.getElem?_eq_getElem hentered
    obtain ⟨found', hfound', hmoves⟩ := hsessions.forward hfound
    unfold log
    rw [hfound', hfound]
    exact hmoves.titles

theorem sessions_refl : Pointwise (SessionMoves pinned allowed w') w.sessions w.sessions :=
  .refl SessionMoves.refl _

theorem states_refl : Pointwise (StateMoves pinned w) w.states w.states := .refl StateMoves.refl _

theorem works_refl : Pointwise WorkMoves w.works w.works :=
  .refl (fun _ found => Eq.refl found.revision) _

theorem moves_of_same (haborted : w.lifetimeAborted = true → w'.lifetimeAborted = true)
    (hsessions : w'.sessions = w.sessions) (hstates : w'.states = w.states)
    (hworks : w'.works = w.works) (htasks : ∀ task ∈ w'.tasks, task ∈ w.tasks) : Moves pinned allowed w w' := by
  apply moves_of_pointwise haborted
  · rw [hsessions]
    exact sessions_refl
  · rw [hstates]
    exact states_refl
  · rw [hworks]
    exact works_refl
  · exact fun task htask => .inl (htasks task htask)

theorem moves_modifySession {session : Nat} {change : TitledSession → TitledSession}
    (h : ∀ found, w.sessions[session]? = some found →
      SessionMoves pinned allowed (w.modifySession session change) session found (change found)) :
    Moves pinned allowed w (w.modifySession session change) :=
  moves_of_pointwise id (.modify SessionMoves.refl h) states_refl works_refl fun _ => .inl

theorem moves_modifyState {change : SessionTitleWorkState → SessionTitleWorkState}
    (h : ∀ found, w.states[state]? = some found → StateMoves pinned w state found (change found)) :
    Moves pinned allowed w (w.modifyState state change) :=
  moves_of_pointwise id sessions_refl (.modify StateMoves.refl h) works_refl fun _ => .inl

theorem moves_spawn (h : task.IsNew w) : Moves pinned allowed w (w.spawn task) := by
  refine moves_of_pointwise id sessions_refl states_refl works_refl ?_
  intro other hother
  rcases List.mem_append.mp hother with hbefore | hnew
  · exact .inl hbefore
  · rw [List.mem_singleton.mp hnew]
    exact .inr h

theorem moves_leave (w : TitleService) (task : Task) : Moves pinned allowed w (w.leave task) :=
  moves_of_same id rfl rfl rfl fun _ => List.mem_of_mem_erase

theorem moves_abortActive (w : TitleService) (state : Nat) : Moves pinned allowed w (w.abortActive state) := by
  unfold abortActive
  split
  · exact .refl w
  · refine moves_of_pointwise id sessions_refl states_refl ?_ fun _ => .inl
    exact .modify (fun _ found => Eq.refl found.revision) fun found _ => Eq.refl found.revision

theorem isNew_of_free (h : match task with
    | .rename .. | .refresh .. | .deferredStart .. => False
    | _ => True) : task.IsNew w := by
  cases task with
  | rename => exact h.elim
  | refresh => exact h.elim
  | deferredStart => exact h.elim
  | _ => exact ⟨trivial, nofun⟩

theorem Moves.spawn {session : Nat} {route : Route}
    (m : Moves pinned allowed w w') (howner : w'.owner? state = some session)
    (hclaims : Claims w state pending.revision) :
    Moves pinned allowed w (w'.spawn (.deferredStart session state pending route)) where
  aborted := m.aborted
  sessions := m.sessions
  works := m.works
  live := m.live
  work := m.work
  kept := m.kept
  owner := m.owner
  scheduling := m.scheduling
  published := m.published
  active := m.active
  revision := m.revision
  claims other revision h := by
    rcases h with hpending | ⟨hactive, hfound⟩ | hdeferred
    · exact m.claims _ _ (.pending hpending)
    · exact m.claims _ _ (.active hactive hfound)
    · rcases List.mem_append.mp hdeferred with hbefore | hnew
      · exact m.claims _ _ (.deferred hbefore)
      · cases List.mem_singleton.mp hnew
        exact .inl hclaims
  tasks task h := by
    rcases List.mem_append.mp h with hbefore | hnew
    · exact m.tasks task hbefore
    · rw [List.mem_singleton.mp hnew]
      exact .inr howner
  titles := m.titles

theorem moves_enter (w : TitleService) (session : TitledSession) (hstate : session.state = none)
    (hpublishing : session.publishing = none) :
    Moves pinned allowed w { w with sessions := w.sessions ++ [session] } := by
  have hbefore : ∀ other < w.sessions.length,
      (w.sessions ++ [session])[other]? = w.sessions[other]? := fun other hlt =>
    List.getElem?_append_left hlt
  have hafter : ∀ (other : Nat) (found : TitledSession), (w.sessions ++ [session])[other]? = some found →
      w.sessions[other]? = some found ∨ found = session := by
    intro other found hfound
    rcases Nat.lt_or_ge other w.sessions.length with hlt | hge
    · exact .inl ((hbefore other hlt).symm.trans hfound)
    · rw [List.getElem?_append_right hge] at hfound
      have hmem := List.mem_of_getElem? hfound
      exact .inr (List.mem_singleton.mp hmem)
  refine { (Moves.refl w : Moves pinned allowed w w) with
    sessions := ?_, live := ?_, work := ?_, kept := ?_, scheduling := ?_, published := ?_, titles := ?_
    tasks := fun _ => .inl
    claims := fun _ _ h => .inl ?_ }
  · rw [List.length_append]
    exact Nat.le_add_right _ _
  · intro other hlt hlive
    unfold isLive at hlive ⊢
    rwa [hbefore other hlt] at hlive
  · intro other state h
    obtain ⟨found, hfound, hwork⟩ := bind_eq_some_iff.mp h
    rcases hafter other found hfound with hsame | rfl
    · exact .inl (bind_eq_some_iff.mpr ⟨found, hsame, hwork⟩)
    · cases hstate.symm.trans hwork
  · intro other hlt _ _ state h
    unfold work? at h ⊢
    rwa [hbefore other hlt]
  · intro other state registration throughSeq h
    obtain ⟨found, hfound, hscheduling⟩ := bind_eq_some_iff.mp h
    rcases hafter other found hfound with hsame | rfl
    · exact .inl (bind_eq_some_iff.mpr ⟨found, hsame, hscheduling⟩)
    · cases hpublishing.symm.trans hscheduling
  · intro other h
    cases hfound : (w.sessions ++ [session])[other]? with
    | none =>
      unfold publishing? at h
      rw [hfound] at h
      cases h
    | some found =>
      rcases hafter other found hfound with hsame | rfl
      · refine .inr ?_
        unfold publishing? isLive at *
        rw [hfound] at h ⊢
        rw [hsame]
        exact ⟨h, rfl⟩
      · unfold publishing? at h
        rw [hfound, bind_some, hpublishing] at h
        cases h
  · rcases h with hpending | ⟨hactive, hfound⟩ | hdeferred
    · exact .pending hpending
    · exact .active hactive hfound
    · exact .deferred hdeferred
  · intro other hlt
    refine ⟨[], ?_, nofun⟩
    unfold log
    rw [List.append_nil, hbefore other hlt]

theorem moves_addWork (h : Holds pinned titles w) (call : ActiveProviderWork) :
    Moves pinned allowed w { w with works := w.works ++ [call] } := by
  refine { (Moves.refl w : Moves pinned allowed w w) with
    works := ?_
    active := fun _ _ => .inl
    tasks := fun _ => .inl
    claims := fun _ _ hclaims => .inl ?_ }
  · rw [List.length_append]
    exact Nat.le_add_right _ _
  · rcases hclaims with hpending | ⟨hactive, hfound⟩ | hdeferred
    · exact .pending hpending
    · rw [List.getElem?_append_left (h.active _ _ hactive)] at hfound
      exact .active hactive hfound
    · exact .deferred hdeferred

theorem claims_addWork (h : Holds pinned titles w) {call : ActiveProviderWork}
    (hclaims : Claims w state revision) :
    Claims { w with works := w.works ++ [call] } state revision := by
  rcases hclaims with hpending | ⟨hactive, hfound⟩ | hdeferred
  · exact .pending hpending
  · refine .active hactive ?_
    exact (List.getElem?_append_left (h.active _ _ hactive)).trans hfound
  · exact .deferred hdeferred

theorem moves_addState (w : TitleService) (session : Nat) :
    Moves pinned allowed w { w with states := w.states ++ [{ session := session : SessionTitleWorkState }] } := by
  have hafter : ∀ (state : Nat) (found : SessionTitleWorkState),
      (w.states ++ [{ session := session : SessionTitleWorkState }])[state]? = some found →
        w.states[state]? = some found ∨ found = { session := session } := by
    intro state found hfound
    rcases Nat.lt_or_ge state w.states.length with hlt | hge
    · rw [List.getElem?_append_left hlt] at hfound
      exact .inl hfound
    · rw [List.getElem?_append_right hge] at hfound
      exact .inr (List.mem_singleton.mp (List.mem_of_getElem? hfound))
  refine { (Moves.refl w : Moves pinned allowed w w) with
    owner := ?_, active := ?_, revision := ?_, claims := ?_
    work := fun _ _ => .inl
    scheduling := fun _ _ _ _ => .inl
    published := fun _ h => .inr ⟨h, rfl⟩
    tasks := fun _ => .inl }
  · intro state other h
    obtain ⟨found, hfound, hsession⟩ := map_eq_some_iff.mp h
    unfold owner?
    rw [List.getElem?_append_left (List.getElem?_eq_some_iff.mp hfound).1, hfound, map_some, hsession]
  · intro state work h
    obtain ⟨found, hfound, hactive⟩ := bind_eq_some_iff.mp h
    rcases hafter state found hfound with hsame | rfl
    · exact .inl (bind_eq_some_iff.mpr ⟨found, hsame, hactive⟩)
    · cases hactive
  · intro state
    unfold revision
    cases hfound : w.states[state]? with
    | none => exact Nat.zero_le _
    | some found =>
      rw [List.getElem?_append_left (List.getElem?_eq_some_iff.mp hfound).1, hfound]
  · intro state revision hclaims
    refine .inl ?_
    rcases hclaims with hpending | ⟨hactive, hwork⟩ | hdeferred
    · obtain ⟨found, hfound, hpending⟩ := bind_eq_some_iff.mp hpending
      rcases hafter state found hfound with hsame | rfl
      · exact .pending (bind_eq_some_iff.mpr ⟨found, hsame, hpending⟩)
      · cases hpending
    · obtain ⟨found, hfound, hactive⟩ := bind_eq_some_iff.mp hactive
      rcases hafter state found hfound with hsame | rfl
      · exact .active (bind_eq_some_iff.mpr ⟨found, hsame, hactive⟩) hwork
      · cases hactive
    · exact .deferred hdeferred

theorem moves_storeState {session : Nat} (hnone : w.work? session = none) :
    Moves pinned allowed w ({ w with states := w.states ++ [{ session := session : SessionTitleWorkState }] }.modifySession
      session fun found => { found with state := some w.states.length }) := by
  have hget : ∀ other, (w.sessions.modify session fun found =>
      { found with state := some w.states.length })[other]? = w.sessions[other]?.map fun found =>
        if session = other then { found with state := some w.states.length } else found := fun other =>
    List.getElem?_modify _ _ _ _
  have hfresh : w.owner? w.states.length = none := by
    unfold owner?
    rw [List.getElem?_eq_none (Nat.le_refl _)]
    rfl
  have m : Moves pinned allowed w _ := moves_addState w session
  refine { m with
    sessions := ?_, live := ?_, work := ?_, kept := ?_, scheduling := ?_, published := ?_, titles := ?_
    tasks := fun _ => .inl
    claims := fun state revision hclaims => m.claims state revision ?_ }
  · exact Nat.le_of_eq (List.length_modify _ _ _).symm
  · intro other _ hlive
    obtain ⟨found', hfound', hlive⟩ := (any_eq_true _ _).mp hlive
    obtain ⟨found, hfound, rfl⟩ := map_eq_some_iff.mp ((hget other).symm.trans hfound')
    refine (any_eq_true _ _).mpr ⟨found, hfound, ?_⟩
    split at hlive <;> exact hlive
  · intro other state h
    obtain ⟨found', hfound', hstate⟩ := bind_eq_some_iff.mp h
    obtain ⟨found, hfound, rfl⟩ := map_eq_some_iff.mp ((hget other).symm.trans hfound')
    split at hstate
    · rename_i heq
      cases hstate
      refine .inr ⟨hfresh, ?_⟩
      show (w.states ++ [_])[w.states.length]?.map _ = _
      rw [List.getElem?_concat_length, ← heq]
      rfl
    · exact .inl (bind_eq_some_iff.mpr ⟨found, hfound, hstate⟩)
  · intro other _ _ _ state h
    obtain ⟨found, hfound, hstate⟩ := bind_eq_some_iff.mp h
    refine bind_eq_some_iff.mpr ⟨_, (hget other).trans (by rw [hfound]; rfl), ?_⟩
    split
    · rename_i heq
      rw [← heq, hnone] at h
      cases h
    · exact hstate
  · intro other state registration throughSeq h
    obtain ⟨found', hfound', hscheduling⟩ := bind_eq_some_iff.mp h
    obtain ⟨found, hfound, rfl⟩ := map_eq_some_iff.mp ((hget other).symm.trans hfound')
    refine .inl (bind_eq_some_iff.mpr ⟨found, hfound, ?_⟩)
    split at hscheduling <;> exact hscheduling
  · intro other h
    refine .inr ?_
    unfold publishing? isLive at *
    change ((w.sessions.modify session _)[other]?.bind _).isSome = true at h
    change _ ∧ (w.sessions.modify session _)[other]?.any _ = _
    rw [hget] at h ⊢
    cases hfound : w.sessions[other]? with
    | none =>
      rw [hfound] at h
      cases h
    | some found =>
      rw [hfound] at h
      rw [map_some] at h ⊢
      by_cases heq : session = other
      · rw [if_pos heq] at h ⊢
        exact ⟨h, rfl⟩
      · rw [if_neg heq] at h ⊢
        exact ⟨h, rfl⟩
  · rcases hclaims with hpending | ⟨hactive, hfound⟩ | hdeferred
    · exact .pending hpending
    · exact .active hactive hfound
    · exact .deferred hdeferred
  · intro other hentered
    refine ⟨[], ?_, nofun⟩
    have hfound := List.getElem?_eq_getElem hentered
    show titlesOf (((w.sessions.modify session _)[other]?.map (·.log)).getD []) = _
    rw [List.append_nil, hget, log, hfound, map_some, map_some]
    split <;> rfl

theorem moves_stateFor (h : Holds pinned titles w) (session : Nat) :
    Moves pinned allowed w (w.stateFor session).1 ∧
      (w.stateFor session).1.owner? (w.stateFor session).2 = some session ∧
      (w.isLive session = true → (w.stateFor session).1.work? session = some (w.stateFor session).2) := by
  unfold stateFor
  split
  · rename_i state hwork
    exact ⟨.refl w, h.stored _ _ hwork, fun _ => hwork⟩
  · rename_i hnone
    refine ⟨moves_storeState hnone, ?_, ?_⟩
    · show (w.states ++ [_])[w.states.length]?.map _ = _
      rw [List.getElem?_concat_length]
      rfl
    · intro hlive
      obtain ⟨found, hfound, -⟩ := (any_eq_true _ _).mp hlive
      show (w.sessions.modify session _)[session]?.bind _ = _
      rw [List.getElem?_modify_eq, hfound]
      rfl

theorem moves_activate (h : Holds pinned titles w) {session : Nat}
    {upstream : Option Bool} {route : Option Route}
    (hclaims : ∀ found, w.states[state]? = some found → Claims w state pending.revision ∨
      pending.revision ≤ found.revision ∧ ¬pinned found.session) :
    Moves pinned allowed w (w.activate session state pending upstream route) := by
  unfold activate
  have m : Moves pinned allowed w _ := moves_addWork h { toPendingAutomaticWork := pending, upstream }
  refine (m.trans (moves_modifyState ?_)).trans (moves_spawn (isNew_of_free trivial))
  intro found hfound
  refine ⟨rfl, Nat.le_refl _, fun _ => .inl, ?_⟩
  intro work hwork
  cases hwork
  refine .inr ⟨_, List.getElem?_concat_length, ?_⟩
  exact (hclaims found hfound).imp_left (claims_addWork h)

end Updates

section Append

variable {pinned : Nat → Prop} {allowed : Nat → SessionTitleEventData → Prop} {w after : TitleService} {session : Nat} {event : SessionEvent}
  {admitted : Bool}

structure Appends (event : SessionEvent) (found found' : TitledSession) : Prop where
  log : found'.log = found.log ++ [event]
  live : found'.live = found.live
  state : found'.state = found.state
  publishing : found'.publishing = some .committed ∧ found.live = true ∨
    found'.publishing = found.publishing ∧ found.live = false

theorem append_eq_some (h : w.append session event admitted = some after) :
    ∃ found change, w.sessions[session]? = some found ∧ after = w.modifySession session change ∧
      Appends event found (change found) := by
  unfold append at h
  split at h
  · cases h
  · rename_i found hfound
    refine ⟨found, ?_⟩
    split at h
    · rename_i hdead
      cases h
      exact ⟨_, hfound, rfl, rfl, rfl, rfl, .inr ⟨rfl, hdead⟩⟩
    · rename_i hlive
      split at h
      · cases h
      · cases h
        exact ⟨_, hfound, rfl, rfl, rfl, rfl, .inl ⟨rfl, eq_true_of_ne_false hlive⟩⟩

theorem moves_append (hevent : ∀ data, event.title? = some data → allowed session data)
    (h : w.append session event admitted = some after) : Moves pinned allowed w after := by
  obtain ⟨found, change, hfound, rfl, happends⟩ := append_eq_some h
  apply moves_modifySession
  intro other hother
  cases hfound.symm.trans hother
  refine ⟨fun hlive => happends.live.symm.trans hlive, .inl happends.state, ?_, ?_, ?_⟩
  · intro state registration throughSeq hscheduling
    rcases happends.publishing with ⟨hcommitted, -⟩ | ⟨hsame, -⟩
    · cases hcommitted.symm.trans hscheduling
    · exact .inl (hsame.symm.trans hscheduling)
  · intro hpublishing
    rcases happends.publishing with ⟨-, hlive⟩ | ⟨hsame, -⟩
    · exact .inl (happends.live.trans hlive)
    · exact .inr ⟨hsame ▸ hpublishing, happends.live⟩
  · refine ⟨event.title?.toList, ?_, ?_⟩
    · unfold titlesOf
      rw [happends.log, List.filterMap_append]
      cases htitle : event.title? <;> simp [htitle]
    · intro data hdata
      exact hevent data (mem_toList.mp hdata)

theorem moves_append_getD (hevent : ∀ data, event.title? = some data → allowed session data) :
    Moves pinned allowed w ((w.append session event admitted).getD w) := by
  cases h : w.append session event admitted with
  | none => exact .refl w
  | some after => exact moves_append hevent h

end Append

end DshKernel.Titles
