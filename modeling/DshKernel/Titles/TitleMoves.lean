import DshKernel.Titles.TitleService

/-!
# What a step of the title service does

A revision of a state is claimed by the work that may still commit under it. Every step keeps the
claims within the revision of their state, and leaves a session alone whose title is pinned.
-/

namespace DshKernel.Titles

open Js TitleService

namespace TitleService

def owner? (w : TitleService) (state : Nat) : Option Nat := w.states[state]?.map (·.session)

def publishing? (w : TitleService) (session : Nat) : Option Publishing :=
  w.sessions[session]?.bind (·.publishing)

inductive Claims (w : TitleService) (state : Nat) : Nat → Prop where
  | pending {pending : PendingAutomaticWork} (h : w.pending? state = some pending) :
      Claims w state pending.revision
  | active {work : Nat} {found : ActiveProviderWork} (h : w.active? state = some work)
      (hfound : w.works[work]? = some found) : Claims w state found.revision
  | deferred {session : Nat} {pending : PendingAutomaticWork} {route : Route}
      (h : .deferredStart session state pending route ∈ w.tasks) : Claims w state pending.revision

end TitleService

def Task.Fits (w : TitleService) : Task → Prop
  | .rename session state _ => session < w.sessions.length ∧ w.owner? state = some session ∧
      (w.lifetimeAborted = false → w.isLive session = true → w.work? session = some state)
  | .refresh session state _ _ _ => w.owner? state = some session
  | .deferredStart session state _ _ => w.owner? state = some session
  | _ => True

/-- What holds of a session whose title is pinned: its titles are as they were, and nothing that may
still commit has the revision of its state. -/
structure PinnedAt (w : TitleService) (session : Nat) (titles : List SessionTitleEventData) : Prop where
  entered : session < w.sessions.length
  titles : titlesOf (w.log session) = titles
  unscheduled : ∀ state registration throughSeq,
    w.publishing? session ≠ some (.scheduling state registration throughSeq)
  behind : w.lifetimeAborted = false → w.isLive session = true →
    ∀ state, w.work? session = some state → ∀ revision, Claims w state revision →
      revision < w.revision state

structure Holds (pinned : Nat → Prop) (titles : Nat → List SessionTitleEventData)
    (w : TitleService) : Prop where
  stored : ∀ session state, w.work? session = some state → w.owner? state = some session
  scheduling : ∀ session state registration throughSeq,
    w.publishing? session = some (.scheduling state registration throughSeq) →
      w.owner? state = some session
  published : ∀ session, (w.publishing? session).isSome = true → w.isLive session = true
  active : ∀ state work, w.active? state = some work → work < w.works.length
  tasks : ∀ task ∈ w.tasks, task.Fits w
  claims : ∀ state revision, Claims w state revision → revision ≤ w.revision state
  pinned : ∀ session, pinned session → PinnedAt w session (titles session)

/-- What a step may change where it leaves the work for pinned sessions alone, with the titles that it
may append. -/
structure Moves (pinned : Nat → Prop) (allowed : Nat → SessionTitleEventData → Prop)
    (w w' : TitleService) : Prop where
  aborted : w.lifetimeAborted = true → w'.lifetimeAborted = true
  sessions : w.sessions.length ≤ w'.sessions.length
  works : w.works.length ≤ w'.works.length
  live : ∀ session < w.sessions.length, w'.isLive session = true → w.isLive session = true
  work : ∀ session state, w'.work? session = some state →
    w.work? session = some state ∨ w.owner? state = none ∧ w'.owner? state = some session
  kept : ∀ session < w.sessions.length, w'.lifetimeAborted = false → w'.isLive session = true →
    ∀ state, w.work? session = some state → w'.work? session = some state
  owner : ∀ state session, w.owner? state = some session → w'.owner? state = some session
  scheduling : ∀ session state registration throughSeq,
    w'.publishing? session = some (.scheduling state registration throughSeq) →
      w.publishing? session = some (.scheduling state registration throughSeq) ∨
        ¬pinned session ∧ w'.owner? state = some session
  published : ∀ session, (w'.publishing? session).isSome = true → w'.isLive session = true ∨
    (w.publishing? session).isSome = true ∧ w'.isLive session = w.isLive session
  active : ∀ state work, w'.active? state = some work →
    w.active? state = some work ∨ work < w'.works.length
  revision : ∀ state, w.revision state ≤ w'.revision state
  claims : ∀ state revision, Claims w' state revision →
    Claims w state revision ∨
      revision ≤ w'.revision state ∧ ∃ session, w'.owner? state = some session ∧ ¬pinned session
  tasks : ∀ task ∈ w'.tasks, task ∈ w.tasks ∨ task.Fits w'
  titles : ∀ session < w.sessions.length, ∃ news,
    titlesOf (w'.log session) = titlesOf (w.log session) ++ news ∧ ∀ data ∈ news, allowed session data

section Rules

variable {pinned : Nat → Prop} {titles : Nat → List SessionTitleEventData}
  {allowed : Nat → SessionTitleEventData → Prop} {w w' w'' : TitleService}

theorem lifetimeAborted_of_moves (m : Moves pinned allowed w w') (h : w'.lifetimeAborted = false) :
    w.lifetimeAborted = false := by
  cases hw : w.lifetimeAborted with
  | false => rfl
  | true => exact (m.aborted hw).symm.trans h

theorem Task.Fits.moves {task : Task} (h : task.Fits w) (m : Moves pinned allowed w w') : task.Fits w' := by
  cases task with
  | rename session state title =>
    obtain ⟨hentered, howner, hkept⟩ := h
    refine ⟨Nat.lt_of_lt_of_le hentered m.sessions, m.owner _ _ howner, ?_⟩
    intro haborted hlive
    apply m.kept session hentered haborted hlive
    exact hkept (lifetimeAborted_of_moves m haborted) (m.live session hentered hlive)
  | refresh session state registration throughSeq upstream => exact m.owner _ _ h
  | deferredStart session state pending route => exact m.owner _ _ h
  | _ => trivial

theorem Moves.refl (w : TitleService) : Moves pinned allowed w w where
  aborted := id
  sessions := Nat.le_refl _
  works := Nat.le_refl _
  live _ _ := id
  work _ _ := .inl
  kept _ _ _ _ _ := id
  owner _ _ := id
  scheduling _ _ _ _ := .inl
  published _ h := .inr ⟨h, rfl⟩
  active _ _ := .inl
  revision _ := Nat.le_refl _
  claims _ _ := .inl
  tasks _ := .inl
  titles _ _ := ⟨[], (List.append_nil _).symm, nofun⟩

theorem Moves.trans (m : Moves pinned allowed w w') (n : Moves pinned allowed w' w'') : Moves pinned allowed w w'' where
  aborted := n.aborted ∘ m.aborted
  sessions := Nat.le_trans m.sessions n.sessions
  works := Nat.le_trans m.works n.works
  live session hentered hlive :=
    m.live session hentered (n.live session (Nat.lt_of_lt_of_le hentered m.sessions) hlive)
  work session state h := by
    rcases n.work session state h with hbefore | ⟨hfresh, howner⟩
    · rcases m.work session state hbefore with hfirst | ⟨hfresh, howner⟩
      · exact .inl hfirst
      · exact .inr ⟨hfresh, n.owner _ _ howner⟩
    · refine .inr ⟨?_, howner⟩
      cases hfirst : w.owner? state with
      | none => rfl
      | some other => exact absurd (m.owner _ _ hfirst) (by rw [hfresh]; exact nofun)
  kept session hentered haborted hlive state h := by
    have hlength := Nat.lt_of_lt_of_le hentered m.sessions
    apply n.kept session hlength haborted hlive
    exact m.kept session hentered (lifetimeAborted_of_moves n haborted)
      (n.live session hlength hlive) state h
  owner state session h := n.owner _ _ (m.owner _ _ h)
  scheduling session state registration throughSeq h := by
    rcases n.scheduling session state registration throughSeq h with hbefore | hnew
    · rcases m.scheduling session state registration throughSeq hbefore with hfirst | ⟨hpinned, howner⟩
      · exact .inl hfirst
      · exact .inr ⟨hpinned, n.owner _ _ howner⟩
    · exact .inr hnew
  published session h := by
    rcases n.published session h with hlive | ⟨hbefore, hsame⟩
    · exact .inl hlive
    · rw [hsame]
      exact m.published session hbefore
  active state work h := by
    rcases n.active state work h with hbefore | hnew
    · rcases m.active state work hbefore with hfirst | hnew
      · exact .inl hfirst
      · exact .inr (Nat.lt_of_lt_of_le hnew n.works)
    · exact .inr hnew
  revision state := Nat.le_trans (m.revision state) (n.revision state)
  claims state revision h := by
    rcases n.claims state revision h with hbefore | hnew
    · rcases m.claims state revision hbefore with hfirst | ⟨hle, session, howner, hpinned⟩
      · exact .inl hfirst
      · exact .inr ⟨Nat.le_trans hle (n.revision state), session, n.owner _ _ howner, hpinned⟩
    · exact .inr hnew
  tasks task h := by
    rcases n.tasks task h with hbefore | hnew
    · exact (m.tasks task hbefore).imp_right fun hfits => hfits.moves n
    · exact .inr hnew
  titles session hentered := by
    obtain ⟨news, hnews, hallowed⟩ := m.titles session hentered
    obtain ⟨more, hmore, hallowedMore⟩ := n.titles session (Nat.lt_of_lt_of_le hentered m.sessions)
    refine ⟨news ++ more, ?_, ?_⟩
    · rw [hmore, hnews, List.append_assoc]
    · intro data hdata
      exact (List.mem_append.mp hdata).elim (hallowed data) (hallowedMore data)

theorem Holds.not_claims (h : Holds pinned titles w) {state revision : Nat} (hnone : w.owner? state = none) :
    ¬Claims w state revision := by
  have hstate : w.states[state]? = none := Option.map_eq_none_iff.mp hnone
  rintro (hpending | ⟨hactive, -⟩ | hdeferred)
  · rw [pending?, hstate] at hpending
    cases hpending
  · rw [active?, hstate] at hactive
    cases hactive
  · rw [h.tasks _ hdeferred] at hnone
    cases hnone

theorem PinnedAt.moves {session : Nat} (h : Holds pinned titles w) (m : Moves pinned allowed w w')
    (hpinned : pinned session) (hforbidden : ∀ data, ¬allowed session data) :
    PinnedAt w' session (titles session) := by
  have hbefore := h.pinned session hpinned
  refine ⟨Nat.lt_of_lt_of_le hbefore.entered m.sessions, ?_, ?_, ?_⟩
  · obtain ⟨news, hnews, hallowed⟩ := m.titles session hbefore.entered
    rw [hnews, hbefore.titles, List.eq_nil_iff_forall_not_mem.mpr fun data hdata =>
      hforbidden data (hallowed data hdata), List.append_nil]
  · intro state registration throughSeq hscheduling
    rcases m.scheduling _ _ _ _ hscheduling with hfirst | ⟨hunpinned, -⟩
    · exact hbefore.unscheduled _ _ _ hfirst
    · exact hunpinned hpinned
  · intro haborted hlive state hwork revision hclaims
    have howner : w'.owner? state = some session := by
      rcases m.work session state hwork with hfirst | ⟨-, howner⟩
      · exact m.owner _ _ (h.stored _ _ hfirst)
      · exact howner
    rcases m.claims state revision hclaims with hfirst | ⟨-, other, hother, hunpinned⟩
    · rcases m.work session state hwork with hsame | ⟨hfresh, -⟩
      · exact Nat.lt_of_lt_of_le (hbefore.behind (lifetimeAborted_of_moves m haborted)
          (m.live session hbefore.entered hlive) state hsame revision hfirst) (m.revision state)
      · exact absurd hfirst (h.not_claims hfresh)
    · cases howner.symm.trans hother
      exact absurd hpinned hunpinned

theorem Holds.moves (h : Holds pinned titles w) (m : Moves pinned allowed w w')
    (hforbidden : ∀ session, pinned session → ∀ data, ¬allowed session data) :
    Holds pinned titles w' where
  stored session state hwork := by
    rcases m.work session state hwork with hfirst | ⟨-, howner⟩
    · exact m.owner _ _ (h.stored _ _ hfirst)
    · exact howner
  scheduling session state registration throughSeq hscheduling := by
    rcases m.scheduling _ _ _ _ hscheduling with hfirst | ⟨-, howner⟩
    · exact m.owner _ _ (h.scheduling _ _ _ _ hfirst)
    · exact howner
  published session hpublishing := by
    rcases m.published session hpublishing with hlive | ⟨hbefore, hsame⟩
    · exact hlive
    · exact hsame.trans (h.published session hbefore)
  active state work hactive := by
    rcases m.active state work hactive with hfirst | hnew
    · exact Nat.lt_of_lt_of_le (h.active _ _ hfirst) m.works
    · exact hnew
  tasks task htask := by
    rcases m.tasks task htask with hfirst | hfits
    · exact (h.tasks task hfirst).moves m
    · exact hfits
  claims state revision hclaims := by
    rcases m.claims state revision hclaims with hfirst | ⟨hle, -⟩
    · exact Nat.le_trans (h.claims _ _ hfirst) (m.revision state)
    · exact hle
  pinned session hpinned := PinnedAt.moves h m hpinned (hforbidden session hpinned)

theorem Holds.quiet (h : Holds pinned titles w) (m : Moves pinned (fun _ _ => False) w w') :
    Holds pinned titles w' :=
  h.moves m fun _ _ _ => id

end Rules

end DshKernel.Titles
