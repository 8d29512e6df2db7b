import DshKernel.Session.SessionLog

/-!
# Reloading a live log

A log that grew by `append` is passed back to `Session.create` as a seed, and to
`Session.fromRestore` after the storage contract. It comes back exactly when each of its events
would pass the shape checks, which `append` does not make.
-/

namespace DshKernel.Session

open Js SurfaceManager Session

variable {platform : Platform} {s copy : Session} {now : Clock}

structure SameReads (s copy : Session) : Prop where
  events : ∃ marker, copy.events = s.events ++ marker ∧
    (marker = [] ∨ ∃ event, marker = [event] ∧ event.data = .endSeed)
  nodes : (readNodes copy.log copy.manager).1 = (readNodes s.log s.manager).1
  generation : (readReplaceGeneration copy.log copy.manager).1 =
    (readReplaceGeneration s.log s.manager).1
  messages : copy.deriveMessages.1 = s.deriveMessages.1

def Reloads (platform : Platform) (s : Session) (now : Clock) : Prop :=
  (∃ copy, Session.create platform (headerId s.header) (some s.events) (some s.header)
      (some s.inheritedEventCount) now = .ok copy ∧ SameReads s copy) ∧
    ∃ stored copy, validateStoredEvents s.header s.events = .ok stored ∧
      fromRestore platform (headerId s.header) stored s.header s.inheritedEventCount now =
        .ok copy ∧ SameReads s copy

variable {replacements : List SurfaceFoldReplacement} {state : SurfaceFoldState}

theorem sameReads_of_folds (hlive : Live s.log s.manager s.nextRef) (hcached : Cached s)
    (hlive' : Live copy.log copy.manager copy.nextRef) (hcached' : Cached copy)
    (hfold : Folds s.events state replacements)
    (hfold' : ∃ marker, copy.events = s.events ++ marker ∧
      (marker = [] ∨ ∃ event, marker = [event] ∧ event.data = .endSeed) ∧
      Folds copy.events state replacements) : SameReads s copy := by
  obtain ⟨marker, hevents, hmarker, hfold'⟩ := hfold'
  obtain ⟨heap, htracks⟩ := hlive.tracks
  obtain ⟨heap', htracks'⟩ := hlive'.tracks
  refine ⟨⟨marker, hevents, hmarker⟩, ?_, ?_, ?_⟩
  · rw [readNodes_eq htracks hfold, readNodes_eq htracks' hfold']
  · rw [readReplaceGeneration_eq htracks hfold, readReplaceGeneration_eq htracks' hfold']
  · obtain ⟨_, heq, -⟩ := deriveMessages_eq hlive hcached hfold
    obtain ⟨_, heq', -⟩ := deriveMessages_eq hlive' hcached' hfold'
    rw [heq, heq', hevents, surfaceMessages_append marker hfold.nodes_lt]

theorem Folds.push_endSeed {log : List SessionEvent} (h : Folds log state replacements)
    (hle : log.length ≤ maxSafeInteger) (time : Number) :
    Folds (log ++ [⟨log.length, time, .endSeed, none, none, false⟩]) state replacements := by
  have hplan : planSurfaceEvent state ⟨log.length, time, .endSeed, none, none, false⟩ log.length
      log 0 = .ok none := by
    simp [planSurfaceEvent, surfaceOpOf, SessionEvent.type, EventData.type, isSurfaceEligibleType,
      surfaceEventTypes]
  have hnext := h.snoc hle hplan
  simpa [applySurfacePlan] using hnext

theorem append_endSeed (hlive : Live s.log s.manager s.nextRef)
    (hle : s.log.length ≤ maxSafeInteger) :
    ∃ manager, s.append .endSeed {} now none =
        (.ok ⟨s.log.length, .ofInt now.millis, .endSeed, none, none, false⟩, { s with
          log := s.log ++
            [⟨s.nextRef, ⟨s.log.length, .ofInt now.millis, .endSeed, none, none, false⟩⟩]
          manager, nextRef := s.nextRef + 1 }) ∧
      Live (s.log ++
        [⟨s.nextRef, ⟨s.log.length, .ofInt now.millis, .endSeed, none, none, false⟩⟩])
        manager (s.nextRef + 1) := by
  obtain ⟨state, replacements, hfold⟩ := hlive.folds
  have hnext := hfold.push_endSeed (by simpa using hle) (.ofInt now.millis)
  rw [events_length] at hnext
  have hvalid := hlive.validateNext_eq_ok ⟨_, _, hnext⟩
  have hpush := hlive.push hvalid
  obtain ⟨manager, hpair⟩ : ∃ manager, validateNext s.log s.manager
      ⟨s.nextRef, ⟨s.log.length, .ofInt now.millis, .endSeed, none, none, false⟩⟩ =
        (.ok (), manager) := ⟨_, Prod.ext hvalid rfl⟩
  rw [hpair] at hpush
  refine ⟨manager, ?_, hpush⟩
  have hlossless : EventData.endSeed.toJson.isLossless = true := rfl
  have hsupported : ∀ location, assertSupportedRequestHeader EventData.endSeed.type
      EventData.endSeed.toJson location = .ok () :=
    fun _ => assertSupportedRequestHeader_eq_ok.mpr (by simp [EventData.type])
  unfold append
  simp only [hlossless, hsupported, Option.all_none, SessionSeq, hle, hpair, Bool.and_self,
    Bool.not_true, Bool.false_eq_true, if_false, if_true]

theorem markSeed_complete (hlive : Live s.log s.manager s.nextRef) (hcached : Cached s)
    (hle : s.log.length ≤ maxSafeInteger) {state : SurfaceFoldState}
    {replacements : List SurfaceFoldReplacement} (hfold : Folds s.events state replacements) :
    ∃ copy, s.markSeed now = .ok copy ∧ Live copy.log copy.manager copy.nextRef ∧ Cached copy ∧
      ∃ marker, copy.events = s.events ++ marker ∧
        (marker = [] ∨ ∃ event, marker = [event] ∧ event.data = .endSeed) ∧
        Folds copy.events state replacements := by
  unfold markSeed
  split
  · exact ⟨s, rfl, hlive, hcached, [], (List.append_nil _).symm, Or.inl rfl, hfold⟩
  · obtain ⟨manager, happend, hmarked⟩ := @append_endSeed s now hlive hle
    rw [happend]
    have hevents : SurfaceManager.events (s.log ++
        [⟨s.nextRef, ⟨s.log.length, .ofInt now.millis, .endSeed, none, none, false⟩⟩]) =
          s.events ++ [⟨s.events.length, .ofInt now.millis, .endSeed, none, none, false⟩] := by
      rw [events_append, length_events]
      rfl
    refine ⟨_, rfl, hmarked, hcached.push, _, hevents, Or.inr ⟨_, rfl, rfl⟩, ?_⟩
    rw [events_eq, hevents]
    exact hfold.push_endSeed (by simpa using hle) _

theorem build_of_reloadable (h : Sound platform s) (restored : Bool)
    (hle : s.log.length ≤ maxSafeInteger)
    (hreloadable : ∀ event ∈ s.events, Reloadable event.data) :
    ∃ copy, build restored (some s.events) (.ok s.header) (some s.inheritedEventCount)
      now = .ok copy ∧ SameReads s copy := by
  obtain ⟨state, replacements, hfold⟩ := h.live.folds
  have hok : ∀ (i : Nat) (hi : i < s.events.length), SeedOk restored (0 + i) s.events[i] := by
    intro i hi
    have hmem := List.getElem_mem hi
    have hadmitted := h.admitted _ hmem
    have hseq : s.events[i].seq = i := hfold.seq_eq i hi
    rw [length_events] at hi
    exact ⟨fun _ => hadmitted.lossless, hadmitted.supported, by omega, by omega, hadmitted.time,
      hreloadable _ hmem⟩
  obtain ⟨seeded, hseed⟩ := @adoptSeed_complete restored 0 {} s.events live_create hok
    ⟨state, replacements, hfold⟩
  obtain ⟨hlive, hevents, -⟩ := adoptSeed_sound hseed live_create
  have hevents' : SurfaceManager.events seeded.log = s.events := hevents
  have hlength : seeded.log.length = s.log.length := by
    have hlengths := congrArg List.length hevents'
    simpa using hlengths
  have hfinish : ∃ built, finish (.ok s.header) (some s.events)
      (some s.inheritedEventCount) seeded = .ok built := by
    refine ⟨_, finish_eq_ok.mpr ⟨by omega, s.header, rfl, fun _ => ⟨rfl, rfl⟩, h.inherited_le.2,
      h.inherited_eq, ?_, rfl⟩⟩
    rw [hlength]
    exact h.inherited_le.1
  obtain ⟨built, hfinish⟩ := hfinish
  have hadmitted : ∀ event ∈ SurfaceManager.events seeded.log, Admitted event := by
    rw [hevents']
    exact h.admitted
  obtain ⟨hbuilt, hlog⟩ := sound_finish hfinish hlive hadmitted fun _ heq => by
    cases heq
    exact h.header
  have hbuiltEvents : built.events = s.events := by rw [events_eq, hlog, hevents']
  obtain ⟨copy, hmark, hcopy, hcached, hmarked⟩ := @markSeed_complete built now hbuilt.live
    hbuilt.cached (by rw [hlog, hlength]; exact hle) state replacements
    (by rw [hbuiltEvents]; exact hfold)
  rw [hbuiltEvents] at hmarked
  refine ⟨copy, ?_, sameReads_of_folds h.live h.cached hcopy hcached hfold hmarked⟩
  simp only [build, Option.getD_some, hseed, hfinish, Option.isNone_some,
    Bool.false_eq_true, if_false, hmark]

theorem reloadable_of_build {restored : Bool} {seed : List SessionEvent}
    {header : Except String Json} {supplied : Option Nat}
    (h : build restored (some seed) header supplied now = .ok copy) :
    seed.length ≤ maxSafeInteger ∧ ∀ event ∈ seed, Reloadable event.data := by
  unfold build at h
  cases hseed : adoptSeed restored 0 seed {} with
  | error message => simp [hseed] at h
  | ok seeded =>
    obtain ⟨-, hevents, hok⟩ := adoptSeed_sound hseed live_create
    simp only [Option.getD_some, hseed] at h
    cases hfinish : finish header (some seed) supplied seeded with
    | error message => simp [hfinish] at h
    | ok built =>
      obtain ⟨hle, -⟩ := finish_eq_ok.mp hfinish
      have hlength : seeded.log.length = seed.length := by
        have hlengths := congrArg List.length hevents
        simpa [SurfaceManager.events] using hlengths
      refine ⟨by omega, ?_⟩
      intro event hevent
      obtain ⟨i, hi, rfl⟩ := List.mem_iff_getElem.mp hevent
      exact (hok i hi).reloadable

/-- The live log of a process is rebuilt by both reloads exactly when every event has what
the reload checks ask of it, and the length of the log is a safe integer. -/
theorem reloads_iff (h : Reachable platform s)
    (hdeclared : ∀ event ∈ s.events, event.type ∈ KNOWN_SESSION_EVENT_TYPES) :
    Reloads platform s now ↔
      s.events.length ≤ maxSafeInteger ∧ ∀ event ∈ s.events, Reloadable event.data := by
  have hsound := h.sound
  constructor
  · rintro ⟨⟨copy, hcreate, -⟩, -⟩
    exact reloadable_of_build hcreate
  · rintro ⟨hle, hreloadable⟩
    rw [length_events] at hle
    have hstored : validateStoredEvents s.header s.events = .ok s.events :=
      validateStoredEvents_eq_ok.mpr ⟨fun event hevent => Or.inl (hdeclared event hevent),
        fun event hevent => (hreloadable event hevent).1, rfl⟩
    refine ⟨?_, s.events, ?_⟩
    · obtain ⟨copy, hbuild, hsame⟩ := @build_of_reloadable _ _ now hsound false hle hreloadable
      refine ⟨copy, ?_, hsame⟩
      rw [Session.create, hsound.header.2]
      exact hbuild
    · obtain ⟨copy, hbuild, hsame⟩ := @build_of_reloadable _ _ now hsound true hle hreloadable
      refine ⟨copy, hstored, ?_, hsame⟩
      rw [fromRestore, hsound.header.1]
      exact hbuild

section Example

def posix : Platform where
  isAbsolute path := path.startsWith "/"
  toText _ := ""

def epoch : Clock := ⟨0, by decide⟩

def freshSession : Session :=
  ⟨[], SurfaceManager.create 0, 0, defaultHeader "s" 0, 0, 0, [], 0, 0⟩

theorem create_freshSession : Session.create posix "s" none none none epoch = .ok freshSession :=
  rfl

def sessionWithResult (callId : String) : Session :=
  (freshSession.append
    (.toolResult ⟨.ofNat 1, .ofNat 1, ⟨"m", ⟨callId, [], none⟩, ⟨callId⟩⟩, none, none⟩)
    { surfaceOp := some (.str "append") } epoch none).2

theorem reachable_sessionWithResult (callId : String) :
    Reachable posix (sessionWithResult callId) :=
  .append _ _ _ _ (.create create_freshSession)

/-- A result with an empty call id is appended, and both reloads refuse the log. -/
theorem not_reloads_sessionWithResult :
    Reachable posix (sessionWithResult "") ∧ (sessionWithResult "").events.length = 1 ∧
      (∀ event ∈ (sessionWithResult "").events, event.type ∈ KNOWN_SESSION_EVENT_TYPES) ∧
      Session.create posix "s" (some (sessionWithResult "").events)
        (some (sessionWithResult "").header) (some 0) epoch =
          .error "seed tool/result at index 0 message must have tool source" ∧
      ¬ Reloads posix (sessionWithResult "") epoch := by
  have hrefused : Session.create posix "s" (some (sessionWithResult "").events)
      (some (sessionWithResult "").header) (some 0) epoch =
        .error "seed tool/result at index 0 message must have tool source" := rfl
  refine ⟨reachable_sessionWithResult "", rfl, ?_, hrefused, ?_⟩
  · intro event hevent
    have hevent' : event ∈ [(sessionWithResult "").events.head (by decide)] := hevent
    rw [List.mem_singleton.mp hevent']
    decide
  · rintro ⟨⟨copy, hcreate, -⟩, -⟩
    have hcreate' : Session.create posix "s" (some (sessionWithResult "").events)
      (some (sessionWithResult "").header) (some 0) epoch = .ok copy := hcreate
    rw [hrefused] at hcreate'
    cases hcreate'

theorem reloads_sessionWithResult : Reloads posix (sessionWithResult "call") epoch := by
  refine (reloads_iff (reachable_sessionWithResult "call") ?_).mpr ⟨by decide, ?_⟩
  · intro event hevent
    have hevent' : event ∈ [(sessionWithResult "call").events.head (by decide)] := hevent
    rw [List.mem_singleton.mp hevent']
    decide
  · intro event hevent
    have hevent' : event ∈ [(sessionWithResult "call").events.head (by decide)] := hevent
    rw [List.mem_singleton.mp hevent']
    exact ⟨⟨by decide, by decide, rfl⟩, trivial⟩

end Example

end DshKernel.Session
