import DshKernel.Goal.GoalCommits
import DshKernel.Lib.Machine

/-!
# Runs of a session with goals

In a run whose edits keep the cap at the rounds started or above, and whose rounds are appended at
the revision they were checked at, every state of the projection passes its schema, and a fold from
it agrees with the strict fold of the whole log.
-/

namespace DshKernel.Goal

open Js Lib

/-! ## Reservations -/

structure Advances (state next : GoalProjectionState) : Prop where
  seen : state.seenGoalIds ⊆ next.seenGoalIds
  current : ∀ moved ∈ next.current, moved.goal.id ∈ state.seenGoalIds →
    ∃ current ∈ state.current, current.goal.id = moved.goal.id ∧
      current.goal.revision < moved.goal.revision

structure Holds (P : GoalProjection → Prop) (state : GoalProjectionState)
    (source : GoalMessageSource) : Prop where
  seen : source.goalId ∈ state.seenGoalIds
  current : ∀ current ∈ state.current, current.goal.id = source.goalId →
    source.revision ≤ current.goal.revision ∧ (source.revision = current.goal.revision → P current)

theorem Holds.advance {P : GoalProjection → Prop} {state next : GoalProjectionState}
    {source : GoalMessageSource} (h : Holds P state source) (hadvance : Advances state next) :
    Holds P next source where
  seen := hadvance.seen h.seen
  current := fun moved hmoved hid => by
    have hknown : moved.goal.id ∈ state.seenGoalIds := by
      rw [hid]
      exact h.seen
    obtain ⟨current, hcurrent, hsame, hlt⟩ := hadvance.current moved hmoved hknown
    obtain ⟨hle, -⟩ := h.current current hcurrent (hsame.trans hid)
    exact ⟨by omega, fun heq => by omega⟩

def WithinCap (source : GoalMessageSource) (current : GoalProjection) : Prop :=
  source.round ≤ current.goal.maxGoalRounds

def IsNext (source : GoalMessageSource) (current : GoalProjection) : Prop :=
  source.round ≤ current.goal.maxGoalRounds ∧ source.round = current.roundsStarted + 1 ∧
    current.goal.phase = .active

structure World.Kept (world : World) : Prop where
  legal : world.state.Legal world.length
  length : world.length ≤ maxLogLength
  attempt : ∀ attempt ∈ world.attempt, Holds (WithinCap attempt.source) world.state attempt.source
  entered : ∀ source ∈ world.entered, Holds (IsNext source) world.state source

theorem kept_start : World.start.Kept where
  legal := legal_init
  length := Nat.zero_le _
  attempt := fun attempt h => by cases h
  entered := fun source h => by cases h

def Meets (world : World) : Action → Prop
  | .edit _ request _ => ∀ current ∈ world.state.current, ∀ value ∈ request.maxGoalRounds,
      (current.roundsStarted : Int) ≤ value.toInt
  | .admission => ∀ source ∈ world.entered, ∃ current ∈ world.state.current,
      current.goal.id = source.goalId ∧ current.goal.revision = source.revision
  | _ => True

/-! ## One step -/

section
variable {world next : World} {news : List GoalEvent} {body : GoalEventBody}

theorem of_append (h : world.append body = some (next, news)) :
    world.length < maxLogLength ∧ news = [⟨world.length, body⟩] ∧
      next = { world with
        length := world.length + 1
        state := applyGoalProjection world.state ⟨world.length, body⟩ } := by
  unfold World.append at h
  split at h
  · rename_i hlt
    cases h
    exact ⟨hlt, rfl, rfl⟩
  · cases h

theorem maxLogLength_lt : maxLogLength < maxSafeInteger := by decide

theorem legal_commit {state : GoalProjectionState} {bound seq : Nat} {committed : Commit}
    (hlegal : state.Legal bound) (hbound : bound < maxSafeInteger) (h : Commits state committed) :
    (applyGoalProjection state ⟨seq, .goalChange committed.change⟩).Legal (bound + 1) ∧
      Advances state (applyGoalProjection state ⟨seq, .goalChange committed.change⟩) := by
  cases h with
  | @create goal clock activation hfree hvalid hfirst hphase hnew =>
    rw [applyGoalProjection_create hlegal hvalid hfirst hphase hfree hnew]
    refine ⟨⟨rfl, ?_, ?_, ?_⟩, ⟨List.subset_append_left _ _, ?_⟩⟩
    · intro id hid
      rcases List.mem_append.mp hid with hold | hlast
      · exact hlegal.ids id hold
      · rw [List.mem_singleton.mp hlast]
        exact hvalid.id
    · apply List.nodup_append.mpr
      refine ⟨hlegal.nodup, by simp, ?_⟩
      intro id hid other hother heq
      rw [List.mem_singleton.mp hother] at heq
      exact hnew (heq ▸ hid)
    · intro current hcurrent
      cases hcurrent
      refine ⟨⟨hvalid, ?_, Nat.zero_le _, ⟨Nat.le_refl _, clock.valid⟩⟩, by simp⟩
      rw [hfirst]
      omega
    · intro moved hmoved hknown
      cases hmoved
      exact absurd hknown hnew
  | @move current operation goal clock activation hcurrent hmoves =>
    obtain ⟨hcurrentLegal, hseen⟩ := hlegal.current current hcurrent
    obtain ⟨hvalid, hrounds⟩ := hmoves.valid hcurrentLegal
    obtain ⟨hid, hrevision, -⟩ := hmoves.identity
    obtain ⟨hcreated, hupdated⟩ := hcurrentLegal.times
    have hold := hcurrentLegal.revision
    rw [commitCurrent, applyGoalProjection_move hlegal hbound hcurrent hmoves]
    refine ⟨⟨rfl, hlegal.ids, hlegal.nodup, ?_⟩, ⟨List.Subset.refl _, ?_⟩⟩
    · intro other hother
      cases hother
      refine ⟨⟨hvalid, ?_, hrounds, ?_, ?_⟩, ?_⟩
      · exact hrevision.le.trans (by omega)
      · exact hcreated.trans (le_max_right _ _)
      · exact max_le clock.valid hupdated
      · exact hid ▸ hseen
    · intro moved hmoved _
      cases hmoved
      exact ⟨current, hcurrent, hid.symm, by rw [hrevision]; omega⟩
  | @clear current clock activation hcurrent =>
    rw [applyGoalProjection_clear hlegal hbound hcurrent]
    refine ⟨⟨rfl, hlegal.ids, hlegal.nodup, ?_⟩, ⟨List.Subset.refl _, ?_⟩⟩
    · intro other hother
      cases hother
    · intro moved hmoved _
      cases hmoved

theorem kept_commit {request : Except ServiceError Commit} (hkept : world.Kept)
    (hcommits : ∀ committed, request = .ok committed → Commits world.state committed)
    (h : world.commit request = some (next, news)) :
    next.Kept ∧ next.state = news.foldl applyGoalProjection world.state := by
  cases hrequest : request with
  | error failure =>
    rw [hrequest] at h
    cases h
  | ok committed =>
    rw [hrequest] at h
    obtain ⟨hlt, hnews, hnext⟩ := of_append h
    simp only at hlt hnews hnext
    have hbound : world.length < maxSafeInteger := hlt.trans maxLogLength_lt
    obtain ⟨hlegal, hadvance⟩ := @legal_commit _ _ world.length _ hkept.legal hbound
      (hcommits committed hrequest)
    rw [hnext, hnews]
    refine ⟨⟨hlegal, hlt, ?_, ?_⟩, rfl⟩
    · intro attempt hattempt
      exact (hkept.attempt attempt hattempt).advance hadvance
    · intro source hsource
      exact (hkept.entered source hsource).advance hadvance

theorem kept_quiet {activation : GoalActivation} {attempt : Option RoundAttempt}
    {entered : Option GoalMessageSource} (hkept : world.Kept)
    (hattempt : ∀ a ∈ attempt, Holds (WithinCap a.source) world.state a.source)
    (hentered : ∀ source ∈ entered, Holds (IsNext source) world.state source) :
    World.Kept ⟨world.length, world.state, activation, attempt, entered⟩ :=
  ⟨hkept.legal, hkept.length, hattempt, hentered⟩

theorem kept_drive {clock : Clock} {current : GoalProjection} (hkept : world.Kept)
    (hcurrent : world.state.current = some current)
    (h : world.drive clock current = some (next, news)) :
    next.Kept ∧ next.state = news.foldl applyGoalProjection world.state := by
  unfold World.drive at h
  split at h
  · exact kept_commit hkept (fun _ => commits_block) h
  · rename_i hleft
    cases h
    refine ⟨kept_quiet hkept ?_ hkept.entered, rfl⟩
    intro attempt hattempt
    cases hattempt
    obtain ⟨-, hseen⟩ := hkept.legal.current current hcurrent
    refine ⟨hseen, ?_⟩
    intro other hother _
    rw [hcurrent] at hother
    cases hother
    refine ⟨Nat.le_refl _, fun _ => ?_⟩
    simp only [WithinCap, RoundAttempt.source]
    omega

theorem isNext_of_valid {attempt : RoundAttempt}
    (hholds : Holds (WithinCap attempt.source) world.state attempt.source)
    (hvalid : world.validReservation attempt = true) :
    Holds (IsNext attempt.source) world.state attempt.source := by
  refine ⟨hholds.seen, ?_⟩
  intro current hcurrent hid
  obtain ⟨hle, hcap⟩ := hholds.current current hcurrent hid
  refine ⟨hle, fun heq => ⟨hcap heq, ?_⟩⟩
  simp only [World.validReservation, Bool.and_eq_true, Option.any_eq_true, decide_eq_true_eq] at hvalid
  obtain ⟨-, other, hother, ⟨-, hphase⟩, hround⟩ := hvalid
  cases hcurrent.symm.trans hother
  exact ⟨hround, hphase⟩

theorem kept_admission {source : GoalMessageSource} (hkept : world.Kept)
    (hentered : world.entered = some source)
    (hcurrent : ∃ current ∈ world.state.current,
      current.goal.id = source.goalId ∧ current.goal.revision = source.revision)
    (h : ({ world with
      entered := none
      attempt := world.attempt.map fun attempt => { attempt with phase := .admitted } } : World).append
        (.userMessage (some source)) = some (next, news)) :
    next.Kept ∧ next.state = news.foldl applyGoalProjection world.state := by
  obtain ⟨current, hcurrent, hid, hrevision⟩ := hcurrent
  obtain ⟨hlt, hnews, hnext⟩ := of_append h
  obtain ⟨-, hisNext⟩ := (hkept.entered source hentered).current current hcurrent hid
  obtain ⟨hcap, hround, hphase⟩ := hisNext hrevision.symm
  have hstate := @applyGoalProjection_round _ _ world.length _ _ hkept.legal
    (hlt.trans maxLogLength_lt) hcurrent hphase hid.symm hrevision.symm hround hcap
  obtain ⟨hcurrentLegal, hseen⟩ := hkept.legal.current current hcurrent
  simp only at hlt hnews hnext
  rw [hnext, hnews]
  refine ⟨⟨?_, hlt, ?_, ?_⟩, rfl⟩
  · simp only [hstate]
    refine ⟨hkept.legal.failure, hkept.legal.ids, hkept.legal.nodup, ?_⟩
    intro other hother
    cases hother
    exact ⟨⟨hcurrentLegal.goal, hcurrentLegal.revision.trans (Nat.le_succ _), hcap,
      hcurrentLegal.times⟩, hseen⟩
  · simp only [hstate]
    intro attempt hattempt
    obtain ⟨old, hold, rfl⟩ := Option.map_eq_some_iff.mp hattempt
    obtain ⟨holdSeen, holds⟩ := hkept.attempt old hold
    refine ⟨holdSeen, ?_⟩
    intro other hother hsame
    cases hother
    exact holds current hcurrent hsame
  · intro other hother
    cases hother

theorem kept_step {defaultMaxGoalRounds : Nat} {action : Action} (hkept : world.Kept)
    (hmeets : Meets world action) (h : step defaultMaxGoalRounds world action = some (next, news)) :
    next.Kept ∧ next.state = news.foldl applyGoalProjection world.state := by
  cases action with
  | create uuid request clock =>
    simp only [step] at h
    split at h
    · cases h
    · rename_i hfresh
      exact kept_commit hkept (fun _ => commits_create hfresh) h
  | edit ref request clock =>
    exact kept_commit hkept (fun _ => commits_edit hkept.legal hmeets) h
  | pause ref clock => exact kept_commit hkept (fun _ => commits_pause) h
  | resume ref clock => exact kept_commit hkept (fun _ => commits_resume) h
  | complete ref clock => exact kept_commit hkept (fun _ => commits_complete) h
  | block ref reason clock => exact kept_commit hkept (fun _ => commits_block) h
  | clear ref clock => exact kept_commit hkept (fun _ => commits_clear) h
  | disarm =>
    cases h
    exact ⟨kept_quiet hkept hkept.attempt hkept.entered, rfl⟩
  | drive clock =>
    simp only [step] at h
    split at h
    · rename_i current hattempt hfailure hcurrent
      split at h
      · exact kept_drive hkept hcurrent h
      · cases h
    · cases h
  | claim =>
    obtain ⟨attempt, hattempt, heq⟩ := Option.map_eq_some_iff.mp h
    cases heq
    refine ⟨kept_quiet hkept ?_ hkept.entered, rfl⟩
    intro other hother
    cases hother
    exact hkept.attempt attempt hattempt
  | compete =>
    obtain ⟨attempt, hattempt, heq⟩ := Option.map_eq_some_iff.mp h
    cases heq
    refine ⟨kept_quiet hkept ?_ hkept.entered, rfl⟩
    intro other hother
    cases hother
    exact hkept.attempt attempt hattempt
  | release =>
    cases h
    refine ⟨kept_quiet hkept ?_ hkept.entered, rfl⟩
    intro other hother
    cases hother
  | enter =>
    simp only [step] at h
    split at h
    · rename_i attempt hattempt hentered
      split at h
      · rename_i hvalid
        cases h
        refine ⟨kept_quiet hkept hkept.attempt ?_, rfl⟩
        intro source hsource
        cases hsource
        exact isNext_of_valid (hkept.attempt attempt hattempt) hvalid
      · cases h
    · cases h
  | abandon =>
    cases h
    refine ⟨kept_quiet hkept hkept.attempt ?_, rfl⟩
    intro other hother
    cases hother
  | admission =>
    simp only [step] at h
    split at h
    · cases h
    · rename_i source hentered
      exact kept_admission hkept hentered (hmeets source hentered) h
  | append plain =>
    obtain ⟨hlt, hnews, hnext⟩ := of_append h
    have hstate : applyGoalProjection world.state
        ⟨world.length, if plain then .other else .userMessage none⟩ = world.state := by
      cases plain <;> simp [applyGoalProjection, GoalEventBody.isOwned]
    rw [hnext, hnews]
    refine ⟨⟨?_, hlt, ?_, ?_⟩, rfl⟩
    · simp only [hstate]
      exact hkept.legal.mono (Nat.le_succ _)
    · simp only [hstate]
      exact hkept.attempt
    · simp only [hstate]
      exact hkept.entered
  | restart =>
    cases h
    refine ⟨kept_quiet hkept ?_ ?_, rfl⟩
    · intro attempt hattempt
      cases hattempt
    · intro source hsource
      cases hsource

end

/-! ## Runs -/

section
variable {defaultMaxGoalRounds : Nat} {world last : World} {log more : List GoalEvent}

theorem kept_run (hkept : world.Kept)
    (run : Reaches (step defaultMaxGoalRounds) Meets world last log) :
    last.Kept ∧ last.state = log.foldl applyGoalProjection world.state := by
  refine @Reaches.invariant _ _ _ _ _ _ _ _
    (fun last log => last.Kept ∧ last.state = log.foldl applyGoalProjection world.state) run
    ⟨hkept, rfl⟩ ?_
  intro before after log news action hbefore hmeets hstep
  obtain ⟨hkept, hstate⟩ := hbefore
  obtain ⟨hafter, hfold⟩ := kept_step hkept hmeets hstep
  refine ⟨hafter, ?_⟩
  rw [hfold, hstate, List.foldl_append]

structure SameGoal (state : GoalProjectionState) (folded : FoldedGoal) : Prop where
  failure : state.failure = none
  goal : state.current.map (·.goal) = folded.goal
  rounds : state.current.elim 0 (·.roundsStarted) = folded.roundsStarted
  createdAt : state.current.map (·.createdAt) = folded.createdAt
  updatedAt : state.current.map (·.updatedAt) = folded.updatedAt

theorem sameGoal_of_foldl {log : List GoalEvent}
    (h : (log.foldl applyGoalProjection .init).failure = none) :
    ∃ folded, foldGoal log = .ok folded ∧ SameGoal (log.foldl applyGoalProjection .init) folded := by
  have hfollows := follows_foldl log follows_init
  cases hfold : log.foldlM applyGoalEvent emptyGoalFoldState with
  | error message =>
    rw [hfold] at hfollows
    exact absurd h hfollows
  | ok strict =>
    rw [hfold] at hfollows
    obtain ⟨-, hforget⟩ := hfollows
    refine ⟨⟨strict.goal, strict.roundsStarted, strict.createdAt, strict.updatedAt, strict.lastRef⟩,
      ?_, h, ?_, ?_, ?_, ?_⟩
    · simp only [foldGoal, hfold]
      rfl
    · exact (congrArg GoalFoldState.goal hforget).symm
    · exact (congrArg GoalFoldState.roundsStarted hforget).symm
    · exact (congrArg GoalFoldState.createdAt hforget).symm
    · exact (congrArg GoalFoldState.updatedAt hforget).symm

/-- Every state of a run passes its own schema, and the fold that goes on from the stored state
shows the goal of the strict fold of the whole log. -/
theorem checkpoint_continues
    (run : Reaches (step defaultMaxGoalRounds) Meets World.start world log)
    (later : Reaches (step defaultMaxGoalRounds) Meets world last more) :
    ∃ restored folded, restore world.state = some restored ∧ foldGoal (log ++ more) = .ok folded ∧
      SameGoal (more.foldl applyGoalProjection restored) folded := by
  obtain ⟨hkept, hstate⟩ := kept_run kept_start run
  obtain ⟨hlast, hend⟩ := kept_run hkept later
  have hwhole : more.foldl applyGoalProjection world.state =
      (log ++ more).foldl applyGoalProjection .init := by
    rw [List.foldl_append, hstate]
    rfl
  have hfailure : ((log ++ more).foldl applyGoalProjection .init).failure = none := by
    rw [← hwhole, ← hend]
    exact hlast.legal.failure
  obtain ⟨folded, hfolded, hsame⟩ := sameGoal_of_foldl hfailure
  refine ⟨world.state, folded, ?_, hfolded, ?_⟩
  · exact hkept.legal.restore (hkept.length.trans maxLogLength_lt.le)
  · rw [hwhole]
    exact hsame

end

/-! ## A cap below the rounds started -/

def epoch : Clock := ⟨0, Nat.zero_le _⟩

def shipping (revision length rounds cap : Nat) : World where
  length := length
  state := ⟨some ⟨⟨"goal-1", revision, "ship", .active, none, cap⟩, rounds, 0, 0⟩, ["goal-1"], none⟩
  activation := .armed
  attempt := none
  entered := none

theorem reaches_shipping : ∃ log, Reaches (step 256) Meets World.start (shipping 1 1 0 2) log :=
  ⟨_, .next .refl (.create "1" ⟨"ship", some (.ofNat 2)⟩ epoch) trivial rfl⟩

def underWay (rounds : Nat) : World :=
  { shipping 1 (rounds + 1) rounds 2 with
    attempt := some ⟨"goal-1", 1, rounds + 1, .claimed, false⟩
    entered := some ⟨"goal-1", 1, rounds + 1⟩ }

theorem reaches_underWay {rounds : Nat} (h : rounds = 0 ∨ rounds = 1) : ∃ log,
    Reaches (step 256) Meets (shipping 1 (rounds + 1) rounds 2) (underWay rounds) log := by
  rcases h with rfl | rfl
  · exact ⟨_, .next (.next (.next .refl (Action.drive epoch) trivial rfl) Action.claim trivial rfl)
      Action.enter trivial rfl⟩
  · exact ⟨_, .next (.next (.next .refl (Action.drive epoch) trivial rfl) Action.claim trivial rfl)
      Action.enter trivial rfl⟩

theorem meets_underWay (rounds : Nat) : Meets (underWay rounds) .admission := by
  intro source hsource
  cases hsource
  exact ⟨_, rfl, rfl, rfl⟩

theorem reaches_round {rounds : Nat} (h : rounds = 0 ∨ rounds = 1) : ∃ log, Reaches (step 256) Meets
    (shipping 1 (rounds + 1) rounds 2) (shipping 1 (rounds + 2) (rounds + 1) 2) log := by
  obtain ⟨log, hunderWay⟩ := reaches_underWay h
  have hmeets := meets_underWay rounds
  rcases h with rfl | rfl
  · exact ⟨_, .next (.next hunderWay Action.admission hmeets rfl) Action.release trivial rfl⟩
  · exact ⟨_, .next (.next hunderWay Action.admission hmeets rfl) Action.release trivial rfl⟩

/-- Two rounds of two are started, and an edit leaves a cap of one: the state is not read back. -/
theorem lowered_cap_refused : ∃ world log,
    Reaches (step 256) (fun _ _ => True) World.start world log ∧ restore world.state = none := by
  obtain ⟨created, hcreated⟩ := reaches_shipping
  obtain ⟨first, hfirst⟩ := reaches_round (.inl rfl)
  obtain ⟨second, hsecond⟩ := reaches_round (.inr rfl)
  have hrounds := ((hcreated.append hfirst).append hsecond).weaken (fun _ _ _ => trivial)
  exact ⟨shipping 2 4 2 1, _, .next hrounds
    (Action.edit ⟨"goal-1", 1⟩ ⟨none, some (.ofNat 1)⟩ epoch) trivial rfl, rfl⟩

/-- A checkpoint after the first round, and an edit behind it. -/
theorem checkpoint_continues_shipping : ∃ log more last, last = shipping 2 3 1 3 ∧
    Reaches (step 256) Meets World.start (shipping 1 2 1 2) log ∧
    Reaches (step 256) Meets (shipping 1 2 1 2) last more ∧
    ∃ restored folded, restore (shipping 1 2 1 2).state = some restored ∧
      foldGoal (log ++ more) = .ok folded ∧
      SameGoal (more.foldl applyGoalProjection restored) folded := by
  obtain ⟨created, hcreated⟩ := reaches_shipping
  obtain ⟨first, hfirst⟩ := reaches_round (.inl rfl)
  have hrun := hcreated.append hfirst
  have hmeets : Meets (shipping 1 2 1 2)
      (.edit ⟨"goal-1", 1⟩ ⟨none, some (.ofNat 3)⟩ epoch) := by
    intro current hcurrent value hvalue
    cases hcurrent
    cases hvalue
    decide
  have hlater : Reaches (step 256) Meets (shipping 1 2 1 2) (shipping 2 3 1 3) _ :=
    .next .refl (Action.edit ⟨"goal-1", 1⟩ ⟨none, some (.ofNat 3)⟩ epoch) hmeets rfl
  exact ⟨_, _, _, rfl, hrun, hlater, checkpoint_continues hrun hlater⟩

end DshKernel.Goal
