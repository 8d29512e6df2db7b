import DshKernel.Titles.TitleRuns

/-!
# Titles that are kept

A title that the user gave stays until the session is renamed again or refreshed, a provider titles
a session under its newest revision only, and one fallback at most comes of itself.
-/

namespace DshKernel.Titles

open Js Lib TitleService

section Contract

variable (config : Config) (w : TitleService) (session : Nat)

def RenameKept : Prop :=
  ∀ state title admitted outcome,
    let renamed := w.step config (.resume (.rename session state title) admitted outcome)
    titlesOf (renamed.log session) ≠ titlesOf (w.log session) →
      ∀ later : List Action, (∀ action ∈ later, ¬action.Retitles session) →
        titlesOf ((renamed.run config later).log session) = titlesOf (renamed.log session)

/-- The title of a provider is appended by the active call of its session, under the revision that
is the newest and that nothing else exceeds. -/
def ProviderNewest : Prop :=
  session < w.sessions.length → ∀ action news,
    titlesOf ((w.step config action).log session) = titlesOf (w.log session) ++ news →
      ∀ data ∈ news, (∃ id model, data.source = .provider id model) →
        ∃ work messages route admitted outcome state found,
          action = .resume (.generating session work messages route) admitted outcome ∧
            w.work? session = some state ∧ w.active? state = some work ∧ w.works[work]? = some found ∧
              found.revision = w.revision state ∧
                ∀ revision, Claims w state revision → revision ≤ found.revision

end Contract

def Action.commitsFallback (session : Nat) : Action → Bool
  | .resume (.fallback _ other _ _) _ _ => other == session
  | _ => false

def automaticFallbacks (config : Config) (session : Nat) : TitleService → List Action → Nat
  | _, [] => 0
  | w, action :: rest =>
    let after := w.step config action
    (if action.commitsFallback session && titlesOf (after.log session) != titlesOf (w.log session) then 1
      else 0) + automaticFallbacks config session after rest

section Renamed

variable {config : Config} {titles : Nat → List SessionTitleEventData} {w after : TitleService}
  {session state : Nat} {title : String} {admitted : Bool} {outcome : Option (Option Json)}

theorem revision_supersede {session : Nat} (howner : w.owner? state = some session) :
    (w.supersede state).revision state = w.revision state + 1 := by
  obtain ⟨found, hfound, -⟩ := Option.map_eq_some_iff.mp howner
  show ((w.states.modify state _)[state]?.map _).getD 0 = _
  rw [List.getElem?_modify_eq, TitleService.revision, hfound]
  rfl

theorem rename_steps
    (hchanged : titlesOf ((w.step config (.resume (.rename session state title) admitted outcome)).log session) ≠
      titlesOf (w.log session)) :
    .rename session state title ∈ w.tasks ∧
      ((w.leave (.rename session state title)).supersede state).append session
          (.title ⟨title, [], .user⟩) admitted =
        some (w.step config (.resume (.rename session state title) admitted outcome)) := by
  unfold step at hchanged ⊢
  dsimp only at hchanged ⊢
  split
  · rename_i hready
    rw [if_pos hready] at hchanged
    rw [Bool.and_eq_true_iff, decide_eq_true_eq] at hready
    refine ⟨hready.1, ?_⟩
    unfold resume at hchanged ⊢
    dsimp only at hchanged ⊢
    cases happend : ((w.leave (.rename session state title)).supersede state).append session
        (.title ⟨title, [], .user⟩) admitted with
    | none =>
      rw [happend] at hchanged
      exact absurd rfl hchanged
    | some after => rfl
  · rename_i hblocked
    rw [if_neg hblocked] at hchanged
    exact absurd rfl hchanged

theorem holds_renamed (h : Holds (fun _ => False) titles w)
    (hafter : after = w.step config (.resume (.rename session state title) admitted outcome))
    (hchanged : titlesOf (after.log session) ≠ titlesOf (w.log session)) :
    Holds (· = session) (fun _ => titlesOf (after.log session)) after ∧
      (titlesOf (after.log session)).getLast?.any (·.source == .user) = true := by
  subst hafter
  obtain ⟨htask, happend⟩ := rename_steps hchanged
  have hbefore : Holds (fun _ => False) titles
      (w.step config (.resume (.rename session state title) admitted outcome)) :=
    holds_step h nofun nofun
  generalize w.step config (.resume (.rename session state title) admitted outcome) = after at *
  obtain ⟨hentered, howner, hkept⟩ := h.tasks _ htask
  -- what claims a revision afterwards did so before
  have m : Moves (fun _ => True) (fun _ _ => True) w after :=
    ((moves_leave w _).trans (moves_supersede _ state)).trans (moves_append (fun _ _ => trivial) happend)
  obtain ⟨found, change, hfound, rfl, happends⟩ := append_eq_some happend
  have hfound' : (w.sessions.modify session change)[session]? = some (change found) := by
    rw [List.getElem?_modify_eq, show w.sessions[session]? = some found from hfound]
    rfl
  have hlog : (((w.leave (.rename session state title)).supersede state).modifySession session change).log
      session = found.log ++ [.title ⟨title, [], .user⟩] := by
    show ((w.sessions.modify session change)[session]?.map _).getD [] = _
    rw [hfound']
    exact happends.log
  refine ⟨⟨hbefore.stored, hbefore.scheduling, hbefore.published, hbefore.active, hbefore.tasks,
    hbefore.claims, ?_⟩, ?_⟩
  · rintro _ rfl
    refine ⟨?_, rfl, ?_, ?_⟩
    · exact Nat.lt_of_lt_of_le hentered m.sessions
    · intro other registration throughSeq hscheduling
      have hpublishing : (change found).publishing = some (.scheduling other registration throughSeq) := by
        obtain ⟨_, hsame, hscheduling⟩ := Option.bind_eq_some_iff.mp hscheduling
        cases hfound'.symm.trans hsame
        exact hscheduling
      rcases happends.publishing with ⟨hcommitted, -⟩ | ⟨hsame, hdead⟩
      · cases hcommitted.symm.trans hpublishing
      · have hlive := h.published _ (by
          unfold TitleService.publishing?
          rw [show w.sessions[_]? = some found from hfound, Option.bind_some, ← hsame, hpublishing]
          rfl)
        unfold TitleService.isLive at hlive
        rw [show w.sessions[_]? = some found from hfound] at hlive
        cases hdead.symm.trans hlive
    · intro hrunning hlive other hwork revision hclaims
      have hsame := hkept hrunning (m.live _ hentered hlive)
      have hother : other = state := by
        obtain ⟨_, hsession, hstate⟩ := Option.bind_eq_some_iff.mp hwork
        cases hfound'.symm.trans hsession
        obtain ⟨_, hsession, hstored⟩ := Option.bind_eq_some_iff.mp hsame
        cases hsession.symm.trans hfound
        rw [happends.state, hstored] at hstate
        exact (Option.some.inj hstate).symm
      subst hother
      rcases m.claims _ _ hclaims with hfirst | ⟨-, _, -, hfalse⟩
      · have hle := h.claims _ _ hfirst
        have hnew : (w.supersede other).revision other = w.revision other + 1 := revision_supersede howner
        change revision < (w.supersede other).revision other
        omega
      · exact absurd trivial hfalse
  · rw [hlog]
    unfold titlesOf
    rw [List.filterMap_append, show List.filterMap SessionEvent.title? [.title ⟨title, [], .user⟩] =
      [⟨title, [], .user⟩] from rfl, List.getLast?_concat]
    rfl

theorem renameKept (h : Holds (fun _ => False) titles w) (session : Nat) : RenameKept config w session := by
  intro state title admitted outcome
  dsimp only
  intro hchanged later hlater
  obtain ⟨hrenamed, huser⟩ := holds_renamed h rfl hchanged
  have hlast := @holds_run config _ _ _ hrenamed (fun _ _ => huser) later fun action haction other hother =>
    hother ▸ hlater action haction
  exact (hlast.pinned session rfl).titles

end Renamed

section Newest

variable {config : Config} {titles : Nat → List SessionTitleEventData} {w : TitleService} {session : Nat}

theorem adds_of_step (h : Holds (fun _ => False) titles w) (hentered : session < w.sessions.length)
    (action : Action) : ∃ news,
      titlesOf ((w.step config action).log session) = titlesOf (w.log session) ++ news ∧
        ∀ data ∈ news, action.Adds w session data :=
  (moves_step h nofun nofun).titles session hentered

theorem providerNewest (h : Holds (fun _ => False) titles w) (session : Nat) :
    ProviderNewest config w session := by
  intro hentered action news hnews data hdata hsource
  obtain ⟨added, hadded, hadds⟩ := @adds_of_step config _ _ _ h hentered action
  obtain rfl : news = added := List.append_cancel_left (hnews.symm.trans hadded)
  obtain ⟨id, model, hsource⟩ := hsource
  have hadd := hadds data hdata
  unfold Action.Adds at hadd
  split at hadd
  · exact absurd (hadd.2.symm.trans hsource) nofun
  · exact absurd (hadd.2.1.symm.trans hsource) nofun
  · rename_i other work messages route admitted outcome
    obtain ⟨rfl, hcurrent, -⟩ := hadd
    obtain ⟨-, -, found, state, hfound, hwork, -, hactive, hrevision, -⟩ := isCurrent_iff.mp hcurrent
    refine ⟨work, messages, route, admitted, outcome, state, found, rfl, hwork, hactive, hfound,
      hrevision.symm, ?_⟩
    intro revision hclaims
    rw [← hrevision]
    exact h.claims state revision hclaims
  · exact absurd (hadd.2.symm.trans hsource) nofun
  · exact hadd.elim

end Newest

section Fallbacks

variable {config : Config} {titles : Nat → List SessionTitleEventData} {w : TitleService} {session : Nat}

theorem titles_of_commitsFallback (h : Holds (fun _ => False) titles w)
    (hentered : session < w.sessions.length) (htitled : titlesOf (w.log session) ≠ []) {action : Action}
    (hfallback : action.commitsFallback session = true) :
    titlesOf ((w.step config action).log session) = titlesOf (w.log session) := by
  obtain ⟨news, hnews, hadds⟩ := @adds_of_step config _ _ _ h hentered action
  suffices hnil : news = [] by rw [hnews, hnil, List.append_nil]
  apply List.eq_nil_iff_forall_not_mem.mpr
  intro data hdata
  have hadd := hadds data hdata
  unfold Action.commitsFallback at hfallback
  split at hfallback
  · obtain ⟨rfl, -, huntitled⟩ := hadd
    exact htitled (List.getLast?_eq_none_iff.mp huntitled)
  · cases hfallback

theorem entered_of_commitsFallback {action : Action} (hfallback : action.commitsFallback session = true)
    (hchanged : titlesOf ((w.step config action).log session) ≠ titlesOf (w.log session)) :
    session < w.sessions.length := by
  unfold Action.commitsFallback at hfallback
  split at hfallback
  · rename_i promise other title firstSeq admitted outcome
    obtain rfl := beq_iff_eq.mp hfallback
    unfold step at hchanged
    dsimp only at hchanged
    split at hchanged
    · change titlesOf (((w.leave _).commitFallback promise other title firstSeq admitted).log other) ≠ _
        at hchanged
      unfold commitFallback at hchanged
      split at hchanged
      · exact absurd rfl hchanged
      · rename_i hopen
        have hlive : w.isLive other = true := by
          cases hw : w.isLive other with
          | true => rfl
          | false =>
            rw [show (w.leave (.fallback promise other title firstSeq)).isLive other = false from hw] at hopen
            exact absurd (Bool.or_true _) hopen
        exact isLive_length hlive
    · exact absurd rfl hchanged
  · cases hfallback

theorem automaticFallbacks_of_titled (h : Holds (fun _ => False) titles w)
    (hentered : session < w.sessions.length) (htitled : titlesOf (w.log session) ≠ [])
    (actions : List Action) : automaticFallbacks config session w actions = 0 := by
  induction actions generalizing w with
  | nil => rfl
  | cons action rest ih =>
    obtain ⟨news, hnews, -⟩ := @adds_of_step config _ _ _ h hentered action
    have m := @moves_step config _ _ _ h nofun action nofun
    have hrest := ih (holds_step h nofun nofun) (Nat.lt_of_lt_of_le hentered m.sessions) (by
      rw [hnews]
      exact List.append_ne_nil_of_left_ne_nil htitled _)
    rw [automaticFallbacks, hrest, if_neg]
    intro hcounted
    obtain ⟨hfallback, hchanged⟩ := Bool.and_eq_true_iff.mp hcounted
    exact bne_iff_ne.mp hchanged (titles_of_commitsFallback h hentered htitled hfallback)

theorem automaticFallbacks_le_one (h : Holds (fun _ => False) titles w) (session : Nat)
    (actions : List Action) : automaticFallbacks config session w actions ≤ 1 := by
  induction actions generalizing w with
  | nil => exact Nat.zero_le _
  | cons action rest ih =>
    have hnext : Holds (fun _ => False) titles (w.step config action) := holds_step h nofun nofun
    rw [automaticFallbacks]
    split
    · rename_i hcounted
      obtain ⟨hfallback, hchanged⟩ := Bool.and_eq_true_iff.mp hcounted
      have hchanged := bne_iff_ne.mp hchanged
      have hentered := entered_of_commitsFallback hfallback hchanged
      obtain ⟨news, hnews, -⟩ := @adds_of_step config _ _ _ h hentered action
      have m := @moves_step config _ _ _ h nofun action nofun
      rw [automaticFallbacks_of_titled hnext (Nat.lt_of_lt_of_le hentered m.sessions)]
      intro hnil
      rw [hnil] at hnews
      rw [hnil, (List.append_eq_nil_iff.mp hnews.symm).1] at hchanged
      exact hchanged rfl
    · rw [Nat.zero_add]
      exact ih hnext

end Fallbacks

/-- In every run, a renamed session keeps its title until it is renamed again or refreshed, the title
of a provider comes from the newest revision, and at most one fallback comes of itself. -/
theorem titles_kept (config : Config) (actions : List Action) (session : Nat) :
    RenameKept config (run config {} actions) session ∧
      ProviderNewest config (run config {} actions) session ∧
        automaticFallbacks config session {} actions ≤ 1 := by
  have h := @holds_reached config actions
  exact ⟨renameKept h session, providerNewest h session,
    automaticFallbacks_le_one (@holds_reached config []) session actions⟩

section Examples

def sampleConfig : Config := ⟨2, 8, 8, by decide, by decide, by decide⟩

def sampleRoute : Route := ⟨"p", "m"⟩

def callActions : List Action := [
  .enter [] false, .register "p" .allPrompts,
  .append 0 (.userMessage "user" [.text "hi"]) true, .deliver 0, .schedule 0, .published 0,
  .resume (.deferredFallback 0) true none,
  .append 0 (.requestHeader sampleRoute) true, .deliver 0, .published 0,
  .resume (.deferredStart 0 0 ⟨0, 1, 0⟩ sampleRoute) true none,
  .resume (.fallback 0 0 "hi" 0) true none, .deliver 0, .published 0,
  .resume (.waiting 0 (some 0) 0 .ignore) true none,
  .resume (.run 0 0 (some sampleRoute)) true none,
  .resume (.generate 0 0 (some sampleRoute)) true none]

def lateCall : Action :=
  .resume (.generating 0 0 [⟨0, "hi"⟩] (some sampleRoute)) true
    (some (some (.obj [("title", .str "late"), ("messageSeqs", .arr [.ofNat 0])])))

def renameActions : List Action := callActions ++ [.rename 0 "b"]

def renamedSample : TitleService :=
  (run sampleConfig {} renameActions).step sampleConfig (.resume (.rename 0 0 "b") true none)

example : titlesOf (renamedSample.log 0) = [⟨"hi", [0], .fallback⟩, ⟨"b", [], .user⟩] := by decide

theorem not_retitles_lateCall : ∀ action ∈ [lateCall], ¬action.Retitles 0 := by
  intro action haction
  rw [List.mem_singleton.mp haction]
  exact id

/-- The call titles the session, but not once the session is renamed. -/
theorem titles_kept_sample :
    titlesOf ((run sampleConfig {} (callActions ++ [lateCall])).log 0) =
        [⟨"hi", [0], .fallback⟩, ⟨"late", [0], .provider "p" none⟩] ∧
      titlesOf ((renamedSample.run sampleConfig [lateCall]).log 0) = titlesOf (renamedSample.log 0) := by
  constructor
  · decide
  · obtain ⟨hkept, -⟩ := titles_kept sampleConfig renameActions 0
    have hchanged : titlesOf (renamedSample.log 0) ≠ titlesOf ((run sampleConfig {} renameActions).log 0) := by
      decide
    exact hkept 0 "b" true none hchanged [lateCall] not_retitles_lateCall

end Examples

end DshKernel.Titles
