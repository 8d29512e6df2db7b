import DshKernel.SessionQuery.Generations
import DshKernel.SessionQuery.SearchResults

/-!
# Pages that belong together

A page is continued by a request with its cursor. As long as the cursors are accepted, the pages
are read from one ranked list.
-/

namespace DshKernel.SessionQuery

open Js Lib List

section Accepted

variable {env : Environment}

inductive Accepted (env : Environment) (answer : Answer) (found : SessionSearchPage) :
    Window SearchHit → CursorPayload → Prop where
  | sessions {request : SessionSearchRequest SessionSearchCursor}
      {normalized : NormalizedSessionRequest} {all : List SearchHit} {offset : Nat}
      (request_eq : answer.request = .sessions request)
      (normalizes : normalizeSessionRequest request env.config = .ok normalized)
      (identified : answer.after.lastPersistenceIdentity.isSome = true)
      (offset_eq : requestOffset request.cursor (answer.after.sessionPayload env normalized) =
        .ok offset)
      (hits_eq : answer.after.sessionHits env normalized = .ok all)
      (page_eq : found = page none ⟨all, offset, normalized.limit⟩
        (answer.after.sessionPayload env normalized)) :
      Accepted env answer found ⟨all, offset, normalized.limit⟩
        (answer.after.sessionPayload env normalized)
  | events {request : SessionEventSearchRequest SessionSearchCursor}
      {normalized : NormalizedEventRequest} {header : SessionHeader} {generation : Generation}
      {all : List SearchHit} {offset : Nat}
      (request_eq : answer.request = .events request)
      (normalizes : normalizeEventRequest request env.config = .ok normalized)
      (identified : answer.after.lastPersistenceIdentity.isSome = true)
      (target_eq : answer.after.targetObservation env normalized.sessionId =
        .ok (header, generation))
      (offset_eq : requestOffset request.cursor
        (answer.after.eventPayload env normalized generation) = .ok offset)
      (hits_eq : answer.after.eventHits env normalized = .ok all)
      (page_eq : found = page (some header) ⟨all, offset, normalized.limit⟩
        (answer.after.eventPayload env normalized generation)) :
      Accepted env answer found ⟨all, offset, normalized.limit⟩
        (answer.after.eventPayload env normalized generation)

theorem bind_eq_ok {α β : Type} {x : Except SearchFailure α} {f : α → Except SearchFailure β}
    {result : β} : x >>= f = .ok result ↔ ∃ value, x = .ok value ∧ f value = .ok result := by
  cases x with
  | error failure =>
    constructor
    · intro h
      cases h
    · rintro ⟨_, ⟨⟩, _⟩
  | ok value =>
    constructor
    · intro h
      exact ⟨value, rfl, h⟩
    · rintro ⟨_, ⟨⟩, h⟩
      exact h

theorem run_eq_ok {e next : Engine} {α : Type} {normalized : Except SearchFailure α}
    {exec : SearchExec} {answer : Engine → α → Except SearchFailure SessionSearchPage}
    {found : SessionSearchPage} (h : e.run env normalized exec answer = (next, .ok found)) :
    ∃ request, normalized = .ok request ∧ next.lastPersistenceIdentity.isSome = true ∧
      answer next request = .ok found := by
  rcases Engine.run_cases env e normalized exec with ⟨failure, hrun⟩ | ⟨request, after, hrequest,
    hrefresh, hrun⟩
  · rw [hrun answer] at h
    cases h
  · rw [hrun answer] at h
    cases haborted : exec.aborted with
    | true =>
      rw [haborted] at h
      cases h
    | false =>
      rw [haborted] at h
      obtain ⟨rfl, hanswer⟩ := Prod.mk.inj h
      exact ⟨request, hrequest, Engine.refresh_last hrefresh, hanswer⟩

theorem accepted_of_genuine {answer : Answer} {found : SessionSearchPage}
    (hgenuine : answer.Genuine env) (hresult : answer.result = .ok found) :
    ∃ window payload, Accepted env answer found window payload := by
  have hsearch : answer.before.search env answer.request answer.exec = (answer.after, .ok found) := by
    rw [← hresult, hgenuine]
    rfl
  cases hrequest : answer.request with
  | sessions request =>
    rw [hrequest] at hsearch
    obtain ⟨normalized, hnormalizes, hidentified, hanswer⟩ := run_eq_ok hsearch
    obtain ⟨offset, hoffset, hanswer⟩ := bind_eq_ok.mp hanswer
    obtain ⟨all, hall, hanswer⟩ := bind_eq_ok.mp hanswer
    exact ⟨_, _, .sessions hrequest hnormalizes hidentified hoffset hall
      (Except.ok.inj hanswer).symm⟩
  | events request =>
    rw [hrequest] at hsearch
    obtain ⟨normalized, hnormalizes, hidentified, hanswer⟩ := run_eq_ok hsearch
    obtain ⟨⟨header, generation⟩, htarget, hanswer⟩ := bind_eq_ok.mp hanswer
    obtain ⟨offset, hoffset, hanswer⟩ := bind_eq_ok.mp hanswer
    obtain ⟨all, hall, hanswer⟩ := bind_eq_ok.mp hanswer
    exact ⟨_, _, .events hrequest hnormalizes hidentified htarget hoffset hall
      (Except.ok.inj hanswer).symm⟩

namespace Accepted

variable {answer : Answer} {found : SessionSearchPage} {window : Window SearchHit}
variable {payload : CursorPayload}

theorem ranked (h : Accepted env answer found window payload) :
    answer.after.ranked env answer.request = .ok window.all := by
  cases h with
  | sessions request_eq normalizes identified offset_eq hits_eq page_eq =>
    rw [request_eq]
    exact bind_eq_ok.mpr ⟨_, normalizes, hits_eq⟩
  | events request_eq normalizes identified target_eq offset_eq hits_eq page_eq =>
    rw [request_eq]
    exact bind_eq_ok.mpr ⟨_, normalizes, hits_eq⟩

theorem items_eq (h : Accepted env answer found window payload) : found.items = window.items := by
  cases h with
  | sessions _ _ _ _ _ page_eq => rw [page_eq]; rfl
  | events _ _ _ _ _ _ page_eq => rw [page_eq]; rfl

theorem nextCursor_eq (h : Accepted env answer found window payload) :
    found.nextCursor = if window.hasMore then
      some (encodeCursor { payload with offset := window.stop }) else none := by
  cases h with
  | sessions _ _ _ _ _ page_eq => rw [page_eq]; rfl
  | events _ _ _ _ _ _ page_eq => rw [page_eq]; rfl

theorem offset_eq (h : Accepted env answer found window payload) :
    requestOffset answer.request.cursor payload = .ok window.offset := by
  cases h with
  | sessions request_eq _ _ offset_eq _ _ => rw [request_eq]; exact offset_eq
  | events request_eq _ _ _ offset_eq _ _ => rw [request_eq]; exact offset_eq

end Accepted

end Accepted

section Stamps

structure CursorPayload.Matches (payload other : CursorPayload) : Prop where
  instanceId : payload.instanceId = other.instanceId
  scope : payload.scope = other.scope
  fingerprint : payload.fingerprint = other.fingerprint
  generation : payload.generation = other.generation

theorem decodeCursor_encodeCursor {payload expected : CursorPayload} {offset : Nat}
    (h : decodeCursor (encodeCursor payload) expected = .ok offset) :
    payload.Matches expected ∧ offset = payload.offset := by
  unfold decodeCursor encodeCursor at h
  dsimp only at h
  split at h
  · cases h
  · rename_i hidentity
    split at h
    · cases h
    · split at h
      · cases h
      · rename_i hgeneration
        simp only [not_or, Decidable.not_not, Option.some.injEq] at hidentity hgeneration
        refine ⟨⟨hidentity.2.1, hidentity.2.2.1, hidentity.2.2.2, hgeneration⟩, ?_⟩
        exact (Except.ok.inj h).symm

variable {env : Environment} {earlier later : Answer} {found : SessionSearchPage}
variable {window next : Window SearchHit} {payload other : CursorPayload}

theorem map_eq_ok {α β : Type} {x : Except SearchFailure α} {f : α → β} {result : β} :
    f <$> x = .ok result ↔ ∃ value, x = .ok value ∧ f value = result := by
  cases x with
  | error failure =>
    constructor
    · intro h
      cases h
    · rintro ⟨_, ⟨⟩, _⟩
  | ok value =>
    constructor
    · intro h
      exact ⟨value, rfl, Except.ok.inj h⟩
    · rintro ⟨_, ⟨⟩, rfl⟩
      rfl

variable {corpus : Corpus} {fts : FullText} {rows : List SearchRow} {generation : Generation}

theorem querySessions_eq_ok {request : NormalizedSessionRequest}
    (h : querySessions fts corpus request = .ok rows) :
    ∃ sessionWhere eventWhere, buildSessionWhere request.sessionFilters = .ok sessionWhere ∧
      buildEventWhere request.eventFilters = .ok eventWhere ∧
      rankedSessions fts corpus request.query sessionWhere eventWhere = rows := by
  obtain ⟨sessionWhere, hsession, h⟩ := bind_eq_ok.mp h
  obtain ⟨eventWhere, hevent, h⟩ := bind_eq_ok.mp h
  obtain ⟨_, -, h⟩ := bind_eq_ok.mp h
  obtain ⟨_, -, h⟩ := bind_eq_ok.mp h
  exact ⟨sessionWhere, eventWhere, hsession, hevent, Except.ok.inj h⟩

theorem queryEvents_eq_ok {request : NormalizedEventRequest}
    (h : queryEvents fts corpus request = .ok rows) :
    ∃ eventWhere, buildEventWhere request.filters = .ok eventWhere ∧
      rankedEvents fts corpus request.query request.sessionId eventWhere = rows := by
  obtain ⟨eventWhere, hevent, h⟩ := bind_eq_ok.mp h
  obtain ⟨_, -, h⟩ := bind_eq_ok.mp h
  obtain ⟨_, -, h⟩ := bind_eq_ok.mp h
  exact ⟨eventWhere, hevent, Except.ok.inj h⟩

theorem corpus_eq_of_whole {e t : Engine} (hkeeps : e.Keeps t)
    (hidentified : e.lastPersistenceIdentity.isSome = true)
    (hwhole : e.globalGeneration = t.globalGeneration) : t.corpus env = e.corpus env := by
  obtain ⟨hpersisted, hlive⟩ := hkeeps.tables hwhole
  rw [Engine.corpus, Engine.corpus, hpersisted, hlive, hkeeps.whole hidentified hwhole]

theorem targetObservation_cases {e : Engine} {sessionId : String} {header : SessionHeader}
    (h : e.targetObservation env sessionId = .ok (header, generation)) :
    (∃ row, e.liveSessions.get? sessionId = some row ∧ generation = .live row.generation) ∨
      e.liveSessions.get? sessionId = none ∧
        ∃ row, e.main.persistedSessions.get? sessionId = some row ∧
          (e.corpus env).persistenceVisible = true ∧
            generation = .persisted e.persistenceEpoch row.generation := by
  unfold Engine.targetObservation at h
  cases hlive : e.liveSessions.get? sessionId with
  | some row =>
    rw [hlive] at h
    exact Or.inl ⟨row, rfl, (Prod.mk.inj (Except.ok.inj h)).2.symm⟩
  | none =>
    rw [hlive] at h
    cases hstored : e.main.persistedSessions.get? sessionId with
    | none =>
      rw [hstored] at h
      cases h
    | some row =>
      rw [hstored] at h
      dsimp only at h
      split at h
      · rename_i hvisible
        exact Or.inr ⟨rfl, row, rfl, hvisible, (Prod.mk.inj (Except.ok.inj h)).2.symm⟩
      · cases h

theorem eventHits_eq {e t : Engine} {request latter : NormalizedEventRequest}
    {header otherHeader : SessionHeader} {all rest : List SearchHit}
    (hsound : e.Sound) (hkeeps : e.Keeps t)
    (hfingerprint : request.fingerprint env.runtime = latter.fingerprint env.runtime)
    (htarget : e.targetObservation env request.sessionId = .ok (header, generation))
    (hlatter : t.targetObservation env latter.sessionId = .ok (otherHeader, generation))
    (hall : e.eventHits env request = .ok all) (hrest : t.eventHits env latter = .ok rest) :
    rest = all := by
  obtain ⟨hid, hquery, hfilters, -⟩ := RequestFingerprint.events.inj hfingerprint
  obtain ⟨rows, hrows, rfl⟩ := map_eq_ok.mp hall
  obtain ⟨others, hothers, rfl⟩ := map_eq_ok.mp hrest
  obtain ⟨condition, hcondition, rfl⟩ := queryEvents_eq_ok hrows
  obtain ⟨other, hother, rfl⟩ := queryEvents_eq_ok hothers
  have hholds := holds_of_canonicalEventFilters hother hcondition hfilters.symm
  rw [← hid] at hlatter ⊢
  rw [← hquery]
  rcases targetObservation_cases htarget with ⟨row, hrow, rfl⟩ | ⟨hnone, row, hrow, hvisible, rfl⟩
  · rcases targetObservation_cases hlatter with ⟨late, hlate, heq⟩ | ⟨-, _, -, -, heq⟩
    · have hsame : row.generation = late.generation := Generation.live.inj heq
      have hlate' := hkeeps.live _ late hlate (hsame ▸ hsound.live _ row hrow)
      have hrows : late = row := Option.some.inj (hlate'.symm.trans hrow)
      rw [hrows] at hlate
      have hhits : (rankedEvents env.fts (t.corpus env) request.query request.sessionId other).map
          (eventHit env.config) = (rankedEvents env.fts (e.corpus env) request.query
            request.sessionId condition).map (eventHit env.config) :=
        rankedEvents_of_live env.config hcondition hholds hrow hlate
      have hmap := congrArg (map SearchHit.event) hhits
      rw [map_map, map_map] at hmap
      exact hmap
    · cases heq
  · rcases targetObservation_cases hlatter with ⟨_, -, heq⟩ | ⟨hlateNone, late, hlate, hlateVisible,
      heq⟩
    · cases heq
    · obtain ⟨-, hsame⟩ := Generation.persisted.inj heq
      have hlate' := hkeeps.persisted _ late hlate (hsame ▸ hsound.persisted _ row hrow)
      have hrows : late = row := Option.some.inj (hlate'.symm.trans hrow)
      rw [hrows] at hlate
      have hranked : rankedEvents env.fts (t.corpus env) request.query request.sessionId other =
          rankedEvents env.fts (e.corpus env) request.query request.sessionId condition :=
        rankedEvents_of_persisted hholds hnone hlateNone hrow hlate hvisible hlateVisible
      rw [hranked]

theorem sessionHits_eq {e t : Engine} {request latter : NormalizedSessionRequest}
    {all rest : List SearchHit} (hcorpus : t.corpus env = e.corpus env)
    (hfingerprint : request.fingerprint env.runtime = latter.fingerprint env.runtime)
    (hall : e.sessionHits env request = .ok all) (hrest : t.sessionHits env latter = .ok rest) :
    rest = all := by
  obtain ⟨hquery, hsessions, hevents, -⟩ := RequestFingerprint.sessions.inj hfingerprint
  obtain ⟨rows, hrows, rfl⟩ := map_eq_ok.mp hall
  obtain ⟨others, hothers, rfl⟩ := map_eq_ok.mp hrest
  obtain ⟨sessionWhere, eventWhere, hsession, hevent, rfl⟩ := querySessions_eq_ok hrows
  obtain ⟨otherSession, otherEvent, hother, hotherEvent, rfl⟩ := querySessions_eq_ok hothers
  rw [hcorpus, ← hquery, rankedSessions, rankedSessions,
    holds_of_canonicalSessionFilters hother hsession hsessions.symm,
    holds_of_canonicalEventFilters hotherEvent hevent hevents.symm]

theorem Accepted.all_eq {latterFound : SessionSearchPage} (hsound : earlier.after.Sound)
    (hfollows : earlier.after.Follows later.after)
    (hearlier : Accepted env earlier found window payload)
    (hlater : Accepted env later latterFound next other) (hmatches : payload.Matches other) :
    next.all = window.all ∧ next.limit = window.limit := by
  have hkeeps : earlier.after.Keeps later.after := by
    refine hfollows.keeps ?_
    have hid := hmatches.instanceId
    cases hearlier <;> cases hlater <;> exact hid
  cases hearlier with
  | @sessions request normalized all offset _ _ identified _ hits_eq =>
    cases hlater with
    | @sessions latter latterNormalized rest _ _ _ _ _ rest_eq =>
      have hwhole : earlier.after.globalGeneration = later.after.globalGeneration :=
        Generation.whole.inj hmatches.generation
      have hlimit := (RequestFingerprint.sessions.inj hmatches.fingerprint).2.2.2
      exact ⟨sessionHits_eq (corpus_eq_of_whole hkeeps identified hwhole) hmatches.fingerprint
        hits_eq rest_eq, hlimit.symm⟩
    | events => exact absurd hmatches.scope CursorScope.noConfusion
  | @events request normalized header generation all offset _ _ identified target_eq _ hits_eq =>
    cases hlater with
    | sessions => exact absurd hmatches.scope CursorScope.noConfusion
    | @events latter latterNormalized _ latterGeneration rest _ _ _ _ latter_eq _ rest_eq =>
      have hgeneration : generation = latterGeneration := hmatches.generation
      rw [← hgeneration] at latter_eq
      have hlimit := (RequestFingerprint.events.inj hmatches.fingerprint).2.2.2
      exact ⟨eventHits_eq hsound hkeeps hmatches.fingerprint target_eq latter_eq hits_eq rest_eq,
        hlimit.symm⟩

end Stamps

section Chains

variable {env : Environment} {e : Engine} {log : List Answer} {first : Answer} {rest : List Answer}

def Answer.items (answer : Answer) : List SearchHit :=
  match answer.result with
  | .ok found => found.items
  | .error _ => []

def Answer.nextCursor (answer : Answer) : Option SessionSearchCursor :=
  match answer.result with
  | .ok found => found.nextCursor
  | .error _ => none

theorem Answer.items_of_ok {answer : Answer} {found : SessionSearchPage}
    (h : answer.result = .ok found) : answer.items = found.items := by
  rw [Answer.items, h]

theorem Answer.nextCursor_of_ok {answer : Answer} {found : SessionSearchPage}
    (h : answer.result = .ok found) : answer.nextCursor = found.nextCursor := by
  rw [Answer.nextCursor, h]

def Answer.IsAccepted (answer : Answer) : Prop := ∃ found, answer.result = .ok found

structure Answer.Continues (earlier later : Answer) : Prop where
  hasMore : earlier.nextCursor.isSome = true
  cursor_eq : later.request.cursor = earlier.nextCursor

theorem window_continues {earlier later : Answer} {found latterFound : SessionSearchPage}
    {window next : Window SearchHit} {payload other : CursorPayload}
    (hsound : earlier.after.Sound) (hfollows : earlier.after.Follows later.after)
    (hfound : earlier.result = .ok found) (hearlier : Accepted env earlier found window payload)
    (hlater : Accepted env later latterFound next other) (hcontinues : earlier.Continues later) :
    window.Continues next := by
  have hcursor := hcontinues.cursor_eq
  have hmore := hcontinues.hasMore
  rw [Answer.nextCursor_of_ok hfound, hearlier.nextCursor_eq] at hcursor hmore
  split at hcursor
  · have hoffset := hlater.offset_eq
    rw [hcursor] at hoffset
    obtain ⟨hmatches, hstop⟩ := decodeCursor_encodeCursor hoffset
    have hpayload : payload.Matches other :=
      ⟨hmatches.instanceId, hmatches.scope, hmatches.fingerprint, hmatches.generation⟩
    exact ⟨(hearlier.all_eq hsound hfollows hlater hpayload).1, hstop⟩
  · rename_i hnone
    rw [if_neg hnone] at hmore
    cases hmore

theorem windows_of_chain (hgenuine : ∀ answer ∈ first :: rest, answer.Genuine env)
    (hsound : ∀ answer ∈ first :: rest, answer.after.Sound)
    (hordered : (first :: rest).Pairwise fun earlier later => earlier.after.Follows later.after)
    (hchain : (first :: rest).IsChain Answer.Continues)
    (haccepted : ∀ answer ∈ first :: rest, answer.IsAccepted) :
    ∃ found window payload windows, first.result = .ok found ∧
      Accepted env first found window payload ∧
      (window :: windows).IsChain Window.Continues ∧
      (first :: rest).flatMap Answer.items = (window :: windows).flatMap Window.items ∧
      ((first :: rest).getLast (cons_ne_nil _ _)).nextCursor.isSome =
        ((window :: windows).getLast (cons_ne_nil _ _)).hasMore ∧
      ∀ answer ∈ first :: rest, answer.after.ranked env answer.request = .ok window.all := by
  induction rest generalizing first with
  | nil =>
    obtain ⟨found, hfound⟩ := haccepted first mem_cons_self
    obtain ⟨window, payload, hwindow⟩ :=
      accepted_of_genuine (hgenuine first mem_cons_self) hfound
    refine ⟨found, window, payload, [], hfound, hwindow, List.IsChain.singleton _, ?_, ?_, ?_⟩
    · rw [flatMap_singleton, flatMap_singleton, Answer.items_of_ok hfound]
      exact hwindow.items_eq
    · rw [getLast_singleton, getLast_singleton, Answer.nextCursor_of_ok hfound,
        hwindow.nextCursor_eq]
      cases window.hasMore <;> rfl
    · intro answer hmem
      rw [mem_singleton.mp hmem]
      exact hwindow.ranked
  | cons second rest ih =>
    obtain ⟨hfollows, hlater⟩ := pairwise_cons.mp hordered
    obtain ⟨hcontinues, htail⟩ := isChain_cons_cons.mp hchain
    obtain ⟨found, hfound⟩ := haccepted first mem_cons_self
    obtain ⟨window, payload, hwindow⟩ :=
      accepted_of_genuine (hgenuine first mem_cons_self) hfound
    obtain ⟨_, next, other, windows, _, hnext, hwindows, hitems, hlast, hranked⟩ :=
      ih (fun answer hmem => hgenuine answer (mem_cons_of_mem _ hmem))
        (fun answer hmem => hsound answer (mem_cons_of_mem _ hmem)) hlater htail
        (fun answer hmem => haccepted answer (mem_cons_of_mem _ hmem))
    have hon : window.Continues next :=
      window_continues (hsound first mem_cons_self) (hfollows second mem_cons_self) hfound
        hwindow hnext hcontinues
    refine ⟨found, window, payload, next :: windows, hfound, hwindow,
      isChain_cons_cons.mpr ⟨hon, hwindows⟩, ?_, ?_, ?_⟩
    · rw [flatMap_cons, hitems, @List.flatMap_cons _ _ window,
        Answer.items_of_ok hfound, hwindow.items_eq]
    · rw [getLast_cons_cons, getLast_cons_cons]
      exact hlast
    · intro answer hmem
      rcases mem_cons.mp hmem with heq | hmem
      · rw [heq]
        exact hwindow.ranked
      · rw [hranked answer hmem, hon.all_eq]

variable {failure : SearchFailure}

theorem requestOffset_error {payload expected : CursorPayload}
    (h : requestOffset (some (encodeCursor payload)) expected = .error failure) :
    failure = invalidCursor ∨ failure = staleCursor := by
  unfold requestOffset decodeCursor encodeCursor at h
  dsimp only at h
  split at h
  · exact Or.inl (Except.error.inj h).symm
  · split at h
    · exact Or.inl (Except.error.inj h).symm
    · split at h
      · exact Or.inr (Except.error.inj h).symm
      · cases h

theorem run_eq_error {t next : Engine} {α : Type} {normalized : Except SearchFailure α}
    {exec : SearchExec} {answer other : Engine → α → Except SearchFailure SessionSearchPage}
    {failure : SearchFailure} (h : t.run env normalized exec answer = (next, .error failure)) :
    t.run env normalized exec other = (next, .error failure) ∨
      ∃ request, answer next request = .error failure ∧
        t.run env normalized exec other = (next, other next request) := by
  rcases Engine.run_cases env t normalized exec with ⟨early, hrun⟩ | ⟨request, after, -, -, hrun⟩
  · rw [hrun answer] at h
    rw [hrun other]
    exact Or.inl h
  · rw [hrun answer] at h
    rw [hrun other]
    cases haborted : exec.aborted with
    | true =>
      rw [haborted] at h
      exact Or.inl h
    | false =>
      rw [haborted] at h
      obtain ⟨rfl, hanswer⟩ := Prod.mk.inj h
      exact Or.inr ⟨request, hanswer, rfl⟩

theorem bind_eq_error {α β : Type} {x : Except SearchFailure α} {f : α → Except SearchFailure β}
    (h : x >>= f = .error failure) :
    x = .error failure ∨ ∃ value, x = .ok value ∧ f value = .error failure := by
  cases x with
  | error other =>
    rw [Except.error.inj h]
    exact Or.inl rfl
  | ok value => exact Or.inr ⟨value, rfl, h⟩

theorem fails_without_cursor {answer : Answer} {payload : CursorPayload}
    (hgenuine : answer.Genuine env) (hresult : answer.result = .error failure)
    (hcursor : answer.request.cursor = some (encodeCursor payload)) :
    failure = invalidCursor ∨ failure = staleCursor ∨
      answer.before.search env answer.request.withoutCursor answer.exec =
        (answer.after, .error failure) := by
  have hsearch : answer.before.search env answer.request answer.exec =
      (answer.after, .error failure) := by
    rw [← hresult, hgenuine]
    rfl
  cases hrequest : answer.request with
  | sessions request =>
    rw [hrequest] at hsearch hcursor
    rcases @run_eq_error env _ _ _ _ _ _
      (fun next normalized => next.answerSessions env normalized none) _ hsearch with
      hsame | ⟨normalized, hanswer, hsame⟩
    · exact Or.inr (Or.inr hsame)
    · rcases bind_eq_error hanswer with hoffset | ⟨offset, -, hanswer⟩
      · rw [show request.cursor = _ from hcursor] at hoffset
        rcases requestOffset_error hoffset with hinvalid | hstale
        · exact Or.inl hinvalid
        · exact Or.inr (Or.inl hstale)
      · rcases bind_eq_error hanswer with hhits | ⟨all, -, hanswer⟩
        · refine Or.inr (Or.inr (hsame.trans ?_))
          rw [Engine.answerSessions, hhits]
          rfl
        · cases hanswer
  | events request =>
    rw [hrequest] at hsearch hcursor
    rcases @run_eq_error env _ _ _ _ _ _
      (fun next normalized => next.answerEvents env normalized none) _ hsearch with
      hsame | ⟨normalized, hanswer, hsame⟩
    · exact Or.inr (Or.inr hsame)
    · rcases bind_eq_error hanswer with htarget | ⟨target, htarget, hanswer⟩
      · refine Or.inr (Or.inr (hsame.trans ?_))
        rw [Engine.answerEvents, htarget]
        rfl
      · rcases bind_eq_error hanswer with hoffset | ⟨offset, -, hanswer⟩
        · rw [show request.cursor = _ from hcursor] at hoffset
          rcases requestOffset_error hoffset with hinvalid | hstale
          · exact Or.inl hinvalid
          · exact Or.inr (Or.inl hstale)
        · rcases bind_eq_error hanswer with hhits | ⟨all, -, hanswer⟩
          · refine Or.inr (Or.inr (hsame.trans ?_))
            rw [Engine.answerEvents, htarget, hhits]
            rfl
          · cases hanswer

end Chains

section Main

variable {e : Engine} {log : List Answer} {first : Answer} {rest : List Answer}

/-- A chain of pages in the order of a run: the first search has no cursor, and each later one has
the cursor of the page before. -/
structure PageChain (log : List Answer) (first : Answer) (rest : List Answer) : Prop where
  sublist : (first :: rest).Sublist log
  starts : first.request.cursor = none
  continues : (first :: rest).IsChain Answer.Continues

theorem continues_of_mem {answer : Answer} (hchain : (first :: rest).IsChain Answer.Continues)
    (hmem : answer ∈ first :: rest) :
    answer = first ∨ ∃ earlier ∈ first :: rest, earlier.Continues answer := by
  induction rest generalizing first with
  | nil => exact Or.inl (mem_singleton.mp hmem)
  | cons second rest ih =>
    obtain ⟨hcontinues, htail⟩ := isChain_cons_cons.mp hchain
    rcases mem_cons.mp hmem with heq | hmem
    · exact Or.inl heq
    · rcases ih htail hmem with rfl | ⟨earlier, hearlier, hlater⟩
      · exact Or.inr ⟨first, mem_cons_self, hcontinues⟩
      · exact Or.inr ⟨earlier, mem_cons_of_mem _ hearlier, hlater⟩

theorem exists_payload {env : Environment} {answer : Answer} {cursor : SessionSearchCursor}
    (hgenuine : answer.Genuine env) (hcursor : answer.nextCursor = some cursor) :
    ∃ payload, cursor = encodeCursor payload := by
  cases hresult : answer.result with
  | error failure =>
    rw [Answer.nextCursor, hresult] at hcursor
    cases hcursor
  | ok found =>
    obtain ⟨window, payload, haccepted⟩ := accepted_of_genuine hgenuine hresult
    rw [Answer.nextCursor_of_ok hresult, haccepted.nextCursor_eq] at hcursor
    split at hcursor
    · exact ⟨_, (Option.some.inj hcursor).symm⟩
    · cases hcursor

theorem withoutCursor_of_none {request : SearchRequest} (h : request.cursor = none) :
    request.withoutCursor = request := by
  cases request with
  | sessions request =>
    obtain ⟨query, sessionFilters, eventFilters, limit, cursor⟩ := request
    cases h
    rfl
  | events request =>
    obtain ⟨sessionId, query, filters, limit, cursor⟩ := request
    cases h
    rfl

/-- Pages whose cursors are all accepted are the full ranked list over one state of the index, in
order, up to where the last of them stops. -/
theorem pages_belong_together (env : Environment) (run : Searches env e log)
    (hchain : PageChain log first rest) :
    ((∀ answer ∈ first :: rest, answer.IsAccepted) →
      ∃ all, (∀ answer ∈ first :: rest, answer.after.ranked env answer.request = .ok all) ∧
        (first :: rest).flatMap Answer.items <+: all ∧
          (((first :: rest).getLast (cons_ne_nil _ _)).nextCursor = none →
            (first :: rest).flatMap Answer.items = all)) ∧
      ∀ answer ∈ first :: rest, ∀ failure, answer.result = .error failure →
        failure = invalidCursor ∨ failure = staleCursor ∨
          answer.before.search env answer.request.withoutCursor answer.exec =
            (answer.after, .error failure) := by
  have hdated := dated_run run
  have hmem : ∀ answer ∈ first :: rest, answer ∈ log := fun answer h => hchain.sublist.subset h
  constructor
  · intro haccepted
    obtain ⟨found, window, payload, windows, hfound, hwindow, hwindows, hitems, hlast, hranked⟩ :=
      windows_of_chain (fun answer h => (hdated.genuine answer (hmem answer h)).1)
        (fun answer h => (hdated.genuine answer (hmem answer h)).2)
        (hdated.ordered.sublist hchain.sublist) hchain.continues haccepted
    have hoffset : window.offset = 0 := by
      have hoffset := hwindow.offset_eq
      rw [hchain.starts] at hoffset
      exact (Except.ok.inj hoffset).symm
    refine ⟨window.all, hranked, ?_, ?_⟩
    · have hpages := Window.take_append_pages hwindows
      rw [hoffset, take_zero, nil_append] at hpages
      rw [hitems, hpages]
      exact take_prefix _ _
    · intro hnone
      rw [hnone] at hlast
      rw [hitems, Window.pages_eq_all hwindows hoffset hlast.symm]
  · intro answer hanswer failure hresult
    have hgenuine := (hdated.genuine answer (hmem answer hanswer)).1
    rcases continues_of_mem hchain.continues hanswer with heq | ⟨earlier, hearlier, hcontinues⟩
    · refine Or.inr (Or.inr ?_)
      rw [withoutCursor_of_none (heq ▸ hchain.starts), ← hresult, hgenuine]
      rfl
    · obtain ⟨cursor, hcursor⟩ := Option.isSome_iff_exists.mp hcontinues.hasMore
      obtain ⟨payload, rfl⟩ :=
        exists_payload (hdated.genuine earlier (hmem earlier hearlier)).1 hcursor
      exact fails_without_cursor hgenuine hresult (hcontinues.cursor_eq.trans hcursor)

end Main

section Needle

def needleSession : ObservedSession where
  header := { version := 0, id := "a", createdAt := 0 }
  documents := [⟨1, "user/message", 10, .current, "needle"⟩,
    ⟨4, "user/message", 20, .current, "needle"⟩]
  fingerprint := "f"
  ascending := by decide

def needleLive : OrderedMap String ObservedSession := ⟨[("a", needleSession)], by decide⟩

def needleSearch : Environment where
  config := {}
  runtime :=
    { localeCompare := compare, sessionFilterText := fun _ => "", eventFilterText := fun _ => "" }
  fts := fun expression text =>
    if expression = "\"needle\"" ∧ text = "needle".toList then
      some (ftsHighlightStart :: text ++ [ftsHighlightEnd])
    else none
  hasService := fun _ => false

def needleRequest (cursor : Option SessionSearchCursor) : SearchRequest :=
  .events { sessionId := "a", query := "needle", limit := some (.ofNat 1), cursor }

def observing (live : OrderedMap String ObservedSession) : SearchExec where
  observed := .ok ⟨0, .empty, live⟩

def needlePage : Answer := Engine.answer needleSearch {} (needleRequest none) (observing needleLive)

def needleNext (live : OrderedMap String ObservedSession) : Answer :=
  needlePage.after.answer needleSearch (needleRequest needlePage.nextCursor) (observing live)

theorem needle_run (live : OrderedMap String ObservedSession) :
    Searches needleSearch (needleNext live).after [needlePage, needleNext live] := by
  have hfirst : Searches needleSearch needlePage.after [needlePage] :=
    Reaches.next Reaches.refl (SearchAction.search (needleRequest none) (observing needleLive))
      trivial rfl
  exact Reaches.next hfirst
    (SearchAction.search (needleRequest needlePage.nextCursor) (observing live)) trivial rfl

theorem needle_chain (live : OrderedMap String ObservedSession) :
    PageChain [needlePage, needleNext live] needlePage [needleNext live] where
  sublist := List.Sublist.refl _
  starts := rfl
  continues := isChain_cons_cons.mpr ⟨⟨rfl, rfl⟩, List.IsChain.singleton _⟩

theorem pages_belong_together_needle :
    ∃ all, needlePage.after.ranked needleSearch needlePage.request = .ok all ∧
      needlePage.items ++ (needleNext needleLive).items = all := by
  obtain ⟨haccepted, -⟩ :=
    pages_belong_together needleSearch (needle_run needleLive) (needle_chain needleLive)
  obtain ⟨all, hranked, -, hall⟩ := haccepted (by
    intro answer hmem
    rcases mem_cons.mp hmem with rfl | hmem
    · exact ⟨_, rfl⟩
    · rw [mem_singleton.mp hmem]
      exact ⟨_, rfl⟩)
  have hpages := hall rfl
  rw [flatMap_cons, flatMap_singleton] at hpages
  exact ⟨all, hranked needlePage mem_cons_self, hpages⟩

/-- A session that is gone is not found before its cursor is read. -/
theorem not_refused_by_cursor :
    ¬ ∀ (env : Environment) (e : Engine) (log : List Answer) (first : Answer) (rest : List Answer),
      Searches env e log → PageChain log first rest →
        (∀ answer ∈ first :: rest, answer.IsAccepted) ∨
          ∃ answer ∈ first :: rest,
            answer.result = .error staleCursor ∨ answer.result = .error invalidCursor := by
  intro h
  have hgone : (needleNext .empty).result = .error (sessionNotFound "a") := rfl
  rcases h _ _ _ _ _ (needle_run .empty) (needle_chain .empty) with hall | ⟨answer, hmem, hcursor⟩
  · obtain ⟨found, hfound⟩ := hall (needleNext .empty) (mem_cons_of_mem _ mem_cons_self)
    rw [hgone] at hfound
    cases hfound
  · rcases mem_cons.mp hmem with rfl | hmem
    · rcases hcursor with hcursor | hcursor <;> cases hcursor
    · rw [mem_singleton.mp hmem, hgone] at hcursor
      rcases hcursor with hcursor | hcursor
      · have hcode := congrArg SearchFailure.code (Except.error.inj hcursor)
        cases hcode
      · have hcode := congrArg SearchFailure.code (Except.error.inj hcursor)
        cases hcode

end Needle

end DshKernel.SessionQuery
