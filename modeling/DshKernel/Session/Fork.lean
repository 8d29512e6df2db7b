import DshKernel.Session.Reload
import Mathlib.Data.List.Perm.Subperm
import Mathlib.Data.List.Nodup
import Mathlib.Logic.Relation

/-!
# Forks

A live session is forked through one of its events. The child is created with the prefix of the
log as its seed, so the fork succeeds where `Session.create` takes that prefix.
-/

namespace DshKernel.Session

open Js Lib SurfaceManager Option
set_option linter.dupNamespace false

structure Sessions where
  objects : List Session := []
  store : OrderedMap String Nat := .empty
  counter : Nat := 0

inductive SessionForkErrorCode where
  | sessionNotFound
  | sessionNotLive
  | sessionAlreadyExists
  | invalidBoundary
  | openTurn
  deriving DecidableEq

/-- A `SessionForkError`, or another error. -/
inductive ForkFailure where
  | fork (message : String) (code : SessionForkErrorCode)
  | error (message : String)

inductive SessionForkSource where
  | id (id : String)
  | object (address : Nat)

namespace Session

def id (s : Session) : String := headerId s.header

def isOwnSeq (s : Session) (seq : Nat) : Bool := s.inheritedEventCount ≤ seq && seq < s.log.length

end Session

def isTurnBoundary (event : SessionEvent) : Bool :=
  match event.data with
  | .turnStart _ => true
  | .turnEnd _ _ => true
  | _ => false

def openTurn (events : List SessionEvent) : Option Number :=
  match events.reverse.find? isTurnBoundary with
  | some ⟨_, _, .turnStart turn, _, _, _⟩ => some turn
  | _ => none

def asBoundary : Number → Option Nat
  | .integral value => if value.isSafe && decide (0 ≤ value.toInt) then some value.toInt.toNat else none
  | _ => none

def forkSeed (platform : Platform) (s : Session) (requestedBoundary : Option Number) :
    Except ForkFailure (List SessionEvent) :=
  match SessionLogOffset s.log.length with
  | .error message => .error (.error message)
  | .ok seq =>
    let lastSeq := s.events.getLast?.map SessionEvent.seq
    match requestedBoundary.or (lastSeq.map Number.ofNat) with
    | none => .ok []
    | some number =>
      let text := platform.toText (some (.num number))
      match asBoundary number with
      | none =>
        .error (.fork (s!"fork boundary for session \"{s.id}\" must be a non-negative safe integer, "
          ++ s!"got {text}") .invalidBoundary)
      | some boundary =>
        if seq ≤ boundary then
          .error (.fork (s!"fork boundary {text} does not exist in session \"{s.id}\" "
            ++ "(last seq: " ++ (lastSeq.map toString).getD "none" ++ ")") .invalidBoundary)
        else if s.events[boundary]?.any fun event => event.seq == boundary then
          let events := s.events.take (boundary + 1)
          match openTurn events with
          | some turn =>
            .error (.fork (s!"fork boundary {text} in session \"{s.id}\" ends inside open turn "
              ++ platform.toText (some (.num turn))) .openTurn)
          | none => .ok events
        else
          .error (.fork (s!"fork boundary {text} does not match a contiguous event seq in session "
            ++ s!"\"{s.id}\"") .invalidBoundary)

/-- The header that `prepare` makes for the child. -/
def forkHeader (id : String) (parent : Session) (now : Clock) : Json :=
  .obj ([("version", .ofNat SESSION_FORMAT_VERSION), ("id", .str id), ("createdAt", .ofInt now.millis)]
    ++ optional "cwd" (parent.header.get? "cwd")
    ++ [("parentSession", .str parent.id), ("isSeeded", .bool true)])

def sessionName (count : Nat) : String := "session-" ++ toString count

namespace Sessions

def idOf (w : Sessions) (address : Nat) : String := (w.objects[address]?.map Session.id).getD ""

def resolveForkSource (w : Sessions) : SessionForkSource → Except ForkFailure Nat
  | .id id =>
    match w.store.get? id with
    | none => .error (.fork s!"session \"{id}\" not found" .sessionNotFound)
    | some address => .ok address
  | .object address =>
    match w.store.get? (w.idOf address) with
    | none => .error (.fork s!"session \"{w.idOf address}\" not found" .sessionNotFound)
    | some live =>
      if live = address then .ok address
      else .error (.fork s!"session \"{w.idOf address}\" is not the live store instance" .sessionNotLive)

/-- The count of the first free name after this one. The last try needs no look: some name
is free. -/
def mintFrom (store : OrderedMap String Nat) : Nat → Nat → Nat
  | 0, counter => counter + 1
  | tries + 1, counter =>
    if (store.get? (sessionName (counter + 1))).isSome then mintFrom store tries (counter + 1)
    else counter + 1

def mint (w : Sessions) : Option String → String × Nat
  | some id => (id, w.counter)
  | none =>
    let counter := mintFrom w.store w.store.entries.length w.counter
    (sessionName counter, counter)

def add (w : Sessions) (s : Session) : Sessions := { w with objects := w.objects ++ [s] }

def enter (w : Sessions) (id : String) (address : Nat) : Sessions :=
  { w with store := w.store.set id address }

def detach (w : Sessions) (id : String) : Sessions := { w with store := w.store.delete id }

def update (w : Sessions) (address : Nat) (method : Session → Session) : Sessions :=
  { w with objects := w.objects.modify address method }

def append (w : Sessions) (address : Nat) (data : EventData) (opts : SurfaceIntent) (now : Clock)
    (veto : Option String) : Sessions :=
  w.update address fun s => (s.append data opts now veto).2

/-- `create`: what a listener of the announcement throws undoes the entry. -/
def create (platform : Platform) (w : Sessions) (id : Option String) (seed : Option (List SessionEvent))
    (header : String → Json) (inheritedEventCount : Option Nat) (now : Clock) (veto : Option String) :
    Except ForkFailure Nat × Sessions :=
  let (sessionId, counter) := w.mint id
  let w := { w with counter }
  if (w.store.get? sessionId).isSome then (.error (.error s!"session \"{sessionId}\" already exists"), w)
  else
    match Session.create platform sessionId seed (some (header sessionId)) inheritedEventCount now with
    | .error message => (.error (.error message), w)
    | .ok s =>
      match veto with
      | some message => (.error (.error message), w.add s)
      | none => (.ok w.objects.length, (w.add s).enter sessionId w.objects.length)

def fork (platform : Platform) (w : Sessions) (source : SessionForkSource) (boundary : Option Number)
    (childSessionId : Option String) (now : Clock) (veto : Option String) :
    Except ForkFailure Nat × Sessions :=
  if childSessionId.any fun id => (w.store.get? id).isSome then
    (.error (.fork ("session \"" ++ childSessionId.getD "" ++ "\" already exists")
      .sessionAlreadyExists), w)
  else
    match w.resolveForkSource source with
    | .error failure => (.error failure, w)
    | .ok address =>
      match w.objects[address]? with
      | none => (.error (.fork "session not found" .sessionNotFound), w)
      | some parent =>
        match forkSeed platform parent boundary with
        | .error failure => (.error failure, w)
        | .ok seed =>
          w.create platform childSessionId (some seed) (fun id => forkHeader id parent now)
            (some seed.length) now veto

end Sessions

/-- What the process does with its sessions: they are created or restored, entered and detached,
appended to, read and forked. -/
inductive SessionsStep (platform : Platform) (w : Sessions) : Sessions → Prop where
  | create {id : String} {seed : Option (List SessionEvent)} {header : Option Json}
      {inheritedEventCount : Option Nat} {now : Clock} {s : Session} :
      Session.create platform id seed header inheritedEventCount now = .ok s →
      SessionsStep platform w (w.add s)
  | restore {id : String} {seed : List SessionEvent} {header : Json} {inheritedEventCount : Nat}
      {now : Clock} {s : Session} :
      Session.fromRestore platform id seed header inheritedEventCount now = .ok s →
      SessionsStep platform w (w.add s)
  | enter {address : Nat} : address < w.objects.length → w.store.get? (w.idOf address) = none →
      SessionsStep platform w (w.enter (w.idOf address) address)
  | detach (id : String) : SessionsStep platform w (w.detach id)
  | append (address : Nat) (data : EventData) (opts : SurfaceIntent) (now : Clock)
      (veto : Option String) : SessionsStep platform w (w.append address data opts now veto)
  | deriveMessages (address : Nat) :
      SessionsStep platform w (w.update address fun s => s.deriveMessages.2)
  | fork (source : SessionForkSource) (boundary : Option Number) (childSessionId : Option String)
      (now : Clock) (veto : Option String) :
      SessionsStep platform w (w.fork platform source boundary childSessionId now veto).2

abbrev SessionsRun (platform : Platform) : Sessions → Sessions → Prop :=
  Relation.ReflTransGen (SessionsStep platform)

section Kept

variable {platform : Platform} {s copy : Session}

structure Kept (platform : Platform) (s : Session) : Prop where
  live : Live s.log s.manager s.nextRef
  cached : Cached s
  supported : ∀ event ∈ s.events, event.type ≠ "request/header-delta"
  time : ∀ event ∈ s.events, event.time.isSafeInteger = true
  header : headerFieldProblem platform s.header = none

theorem Kept.append (h : Kept platform s) (data : EventData) (opts : SurfaceIntent) (now : Clock)
    (veto : Option String) : Kept platform (s.append data opts now veto).2 := by
  rcases append_cases h.live data opts now veto with
    ⟨message, manager, nextRef, heq, hlive⟩ | ⟨event, manager, heq, hlive, hadmitted, -⟩
  · rw [heq]
    exact ⟨hlive, h.cached, h.supported, h.time, h.header⟩
  · rw [heq]
    have hevents : ∀ other ∈ SurfaceManager.events (s.log ++ [⟨s.nextRef, event⟩]),
        other ∈ s.events ∨ other = event := by
      intro other hother
      rw [events_append] at hother
      rcases List.mem_append.mp hother with hother | hother
      · exact .inl hother
      · exact .inr (List.mem_singleton.mp hother)
    refine ⟨hlive, h.cached.push, ?_, ?_, h.header⟩
    · intro other hother
      rcases hevents other hother with hold | rfl
      · exact h.supported other hold
      · exact hadmitted.supported
    · intro other hother
      rcases hevents other hother with hold | rfl
      · exact h.time other hold
      · exact hadmitted.time

theorem Kept.deriveMessages (h : Kept platform s) : Kept platform s.deriveMessages.2 := by
  obtain ⟨state, replacements, hfold⟩ := h.live.folds
  obtain ⟨manager, heq, hlive⟩ := deriveMessages_eq h.live h.cached hfold
  rw [heq]
  refine ⟨hlive, ?_, h.supported, h.time, h.header⟩
  refine ⟨s.log.length, state, replacements, Nat.le_refl _, ?_, rfl, rfl, rfl⟩
  have hall : s.events.take s.log.length = s.events := List.take_of_length_le (by simp)
  show Folds (s.events.take s.log.length) state replacements
  rw [hall]
  exact hfold

theorem kept_build {restored : Bool} {seed : Option (List SessionEvent)} {header : Except String Json}
    {supplied : Option Nat} {now : Clock}
    (h : Session.build restored seed header supplied now = .ok s)
    (hheader : ∀ validHeader, header = .ok validHeader → headerFieldProblem platform validHeader = none) :
    Kept platform s := by
  unfold Session.build at h
  cases hseed : adoptSeed restored 0 (seed.getD []) {} with
  | error message => simp [hseed] at h
  | ok seeded =>
    simp only [hseed] at h
    obtain ⟨hlive, hevents, hok⟩ := adoptSeed_sound hseed live_create
    have hpassed : ∀ event ∈ SurfaceManager.events seeded.log, ∃ index, SeedOk restored index event := by
      intro event hevent
      rw [hevents] at hevent
      obtain ⟨i, hi, rfl⟩ := List.mem_iff_getElem.mp (show event ∈ seed.getD [] from hevent)
      exact ⟨0 + i, hok i hi⟩
    cases hfinish : Session.finish header seed supplied seeded with
    | error message => simp [hfinish] at h
    | ok built =>
      simp only [hfinish] at h
      have hbuilt : Kept platform built := by
        obtain ⟨-, validHeader, hvalid, -, -, -, -, rfl⟩ := finish_eq_ok.mp hfinish
        refine ⟨hlive, ⟨0, createFoldState, [], Nat.zero_le _, Folds.nil, rfl, rfl, rfl⟩, ?_, ?_,
          hheader validHeader hvalid⟩
        · intro event hevent
          obtain ⟨index, hindex⟩ := hpassed event hevent
          exact hindex.supported
        · intro event hevent
          obtain ⟨index, hindex⟩ := hpassed event hevent
          exact hindex.time
      cases seed with
      | none =>
        cases h
        exact hbuilt
      | some seed =>
        rcases markSeed_eq_ok h with rfl | rfl
        · exact hbuilt
        · exact hbuilt.append _ _ _ _

theorem headerFieldProblem_of_snapshot {id : String} {source : Option Json} {now : Int} {header : Json}
    (h : snapshotSessionHeader platform id source now = .ok header) :
    headerFieldProblem platform header = none :=
  (validateSessionHeader_eq_ok.mp (snapshotSessionHeader_again h).1).2.1

theorem kept_create {id : String} {seed : Option (List SessionEvent)} {header : Option Json}
    {supplied : Option Nat} {now : Clock}
    (h : Session.create platform id seed header supplied now = .ok s) : Kept platform s :=
  kept_build h fun _ hvalid => headerFieldProblem_of_snapshot hvalid

theorem kept_fromRestore {id : String} {seed : List SessionEvent} {header : Json} {supplied : Nat}
    {now : Clock} (h : Session.fromRestore platform id seed header supplied now = .ok s) :
    Kept platform s := by
  unfold Session.fromRestore at h
  cases hvalid : validateSessionHeader platform id header with
  | error message => simp [hvalid] at h
  | ok validHeader =>
    simp only [hvalid] at h
    refine kept_build h fun _ heq => ?_
    cases heq
    obtain ⟨-, hfields, rfl⟩ := validateSessionHeader_eq_ok.mp hvalid
    exact hfields

end Kept

section Child

variable {platform : Platform} {parent child : Session} {now : Clock} {id : String}

/-- What `Session.create` asks of an event of a seed that a live log holds. -/
def Seedable (event : SessionEvent) : Prop := event.toJson.isLossless = true ∧ Reloadable event.data

theorem cwd_of_headerFieldProblem {header cwd : Json} (h : headerFieldProblem platform header = none)
    (hcwd : header.get? "cwd" = some cwd) :
    ∃ path, cwd = .str path ∧ platform.isAbsolute path = true := by
  simp only [headerFieldProblem, hcwd, any_some] at h
  split at h
  · cases h
  · split at h
    · cases h
    · split at h
      · cases h
      · rename_i hstring habsolute
        cases cwd with
        | str path => exact ⟨path, rfl, by simpa [Json.asString] using habsolute⟩
        | null | bool | num | arr | obj => simp [Json.asString] at hstring

theorem get?_forkHeader (key : String) :
    (forkHeader id parent now).get? key =
      if key = "version" then some (.ofNat SESSION_FORMAT_VERSION)
      else if key = "id" then some (.str id)
      else if key = "createdAt" then some (.ofInt now.millis)
      else if key = "cwd" then parent.header.get? "cwd"
      else if key = "parentSession" then some (.str parent.id)
      else if key = "isSeeded" then some (.bool true)
      else none := by
  simp only [forkHeader, Json.get?, List.cons_append, List.nil_append,
    List.lookup_cons, lookup_optional]
  by_cases hversion : key = "version"
  · simp [hversion]
  by_cases hid : key = "id"
  · simp [hid]
  by_cases hcreated : key = "createdAt"
  · simp [hcreated]
  by_cases hcwd : key = "cwd"
  · simp [hcwd]
  by_cases hparent : key = "parentSession"
  · simp [hparent]
  by_cases hseeded : key = "isSeeded"
  · simp [hseeded]
  simp [beq_false_of_ne hversion, beq_false_of_ne hid, beq_false_of_ne hcreated,
    beq_false_of_ne hparent, beq_false_of_ne hseeded, hversion, hid, hcreated, hcwd, hparent, hseeded]

theorem isLossless_forkHeader (h : headerFieldProblem platform parent.header = none) :
    (forkHeader id parent now).isLossless = true := by
  have hcwd : (parent.header.get? "cwd").all Json.isLossless = true := by
    cases hread : parent.header.get? "cwd" with
    | none => rfl
    | some cwd =>
      obtain ⟨path, rfl, -⟩ := cwd_of_headerFieldProblem h hread
      rfl
  rw [forkHeader, Json.isLossless, fieldsLossless_append, fieldsLossless_append,
    fieldsLossless_optional, hcwd]
  rfl

theorem snapshot_forkHeader (h : headerFieldProblem platform parent.header = none) {header : Json} :
    snapshotSessionHeader platform id (some (forkHeader id parent now)) now.millis = .ok header ↔
      0 ≤ now.millis ∧ forkHeader id parent now = header := by
  have hsafe : (Integral.int now.millis).isSafe = true := by
    have hrange := now.inRange
    rw [Integral.isSafe_iff, Integral.toInt_int]
    unfold maxSafeInteger
    omega
  have hobject : (forkHeader id parent now).isObject = true := rfl
  have harray : (forkHeader id parent now).isArray = false := rfl
  have hidentity : headerIdentityProblem platform id (forkHeader id parent now) = none := by
    simp [headerIdentityProblem, get?_forkHeader, hobject, harray, isNumber, Json.ofNat, Json.asString]
  have hcwd : (parent.header.get? "cwd").any (fun value => value.asString.isNone) = false ∧
      (parent.header.get? "cwd").any
        (fun value => value.asString.any fun path => !platform.isAbsolute path) = false := by
    cases hread : parent.header.get? "cwd" with
    | none => exact ⟨rfl, rfl⟩
    | some cwd =>
      obtain ⟨path, rfl, habsolute⟩ := cwd_of_headerFieldProblem h hread
      simp [Json.asString, habsolute]
  have hcreated : isNonNegativeSafeInteger (Json.ofInt now.millis) = decide (0 ≤ now.millis) := by
    show ((Integral.int now.millis).isSafe && decide (0 ≤ now.millis)) = _
    rw [hsafe, Bool.true_and]
  have hfields : headerFieldProblem platform (forkHeader id parent now) = none ↔ 0 ≤ now.millis := by
    have hparent : (Json.str parent.id).asString = some parent.id := rfl
    have hseeded : (Json.bool true).asBool = some true := rfl
    simp [headerFieldProblem, get?_forkHeader, hcwd.1, hcwd.2, hcreated, hparent, hseeded]
  rw [snapshotSessionHeader, getD_some, Json.snapshotJsonValue,
    if_pos (isLossless_forkHeader h)]
  simp only [validateSessionHeader_eq_ok, hidentity, hfields, true_and]

theorem isSeeded_forkHeader : isSeeded (forkHeader id parent now) = true := by
  rw [isSeeded, get?_forkHeader]
  rfl

theorem headerId_forkHeader : headerId (forkHeader id parent now) = id := by
  rw [headerId, get?_forkHeader]
  rfl

end Child

section Build

variable {platform : Platform} {seed : List SessionEvent} {header : Except String Json}
  {supplied : Option Nat} {now : Clock} {built child : Session}

theorem built_of_build (h : Session.build false (some seed) header supplied now = .ok child) :
    ∃ built : Session, built.markSeed now = .ok child ∧ Live built.log built.manager built.nextRef ∧
      built.events = seed ∧ built.inheritedEventCount = supplied.getD 0 ∧ header = .ok built.header ∧
      seed.length ≤ maxSafeInteger ∧ ∀ event ∈ seed, Seedable event := by
  unfold Session.build at h
  cases hadopt : adoptSeed false 0 seed {} with
  | error message => simp [hadopt] at h
  | ok seeded =>
    obtain ⟨hlive, hevents, hok⟩ := adoptSeed_sound hadopt live_create
    have hevents : SurfaceManager.events seeded.log = seed := hevents
    simp only [getD_some, hadopt, isNone_some, Bool.false_eq_true, if_false] at h
    cases hfinish : Session.finish header (some seed) supplied seeded with
    | error message => simp [hfinish] at h
    | ok built =>
      simp only [hfinish] at h
      obtain ⟨hlength, validHeader, hvalid, -, -, -, -, rfl⟩ := finish_eq_ok.mp hfinish
      refine ⟨_, h, hlive, hevents, rfl, hvalid, ?_, ?_⟩
      · rw [← hevents, events_length]
        exact hlength
      · intro event hevent
        obtain ⟨i, hi, rfl⟩ := List.mem_iff_getElem.mp hevent
        exact ⟨(hok i hi).lossless rfl, (hok i hi).reloadable⟩

theorem events_markSeed (hlive : Live built.log built.manager built.nextRef)
    (h : built.markSeed now = .ok child) :
    child.events = built.events ++
      (if built.events.getLast?.map SessionEvent.type = some "session/end-seed" then []
      else [⟨built.log.length, .ofInt now.millis, .endSeed, none, none, false⟩]) ∧
    child.inheritedEventCount = built.inheritedEventCount ∧ child.header = built.header := by
  unfold Session.markSeed at h
  split at h
  case isTrue hlast =>
    cases h
    rw [if_pos hlast, List.append_nil]
    exact ⟨rfl, rfl, rfl⟩
  case isFalse hlast =>
    rw [if_neg hlast]
    rcases append_cases hlive .endSeed {} now none with
      ⟨message, manager, nextRef, heq, -⟩ | ⟨event, manager, heq, -, -, hevent⟩
    · rw [heq] at h
      cases h
    · rw [heq] at h
      cases h
      refine ⟨?_, rfl, rfl⟩
      show SurfaceManager.events (built.log ++ [⟨built.nextRef, event⟩]) = _
      rw [events_append, hevent]
      rfl

theorem build_complete {validHeader : Json} {count : Nat} (hheader : header = .ok validHeader)
    (hlength : seed.length ≤ maxSafeInteger) (hok : ∀ i (hi : i < seed.length), SeedOk false i seed[i])
    (hfold : ∃ state replacements, Folds seed state replacements) (hcount : count ≤ seed.length)
    (hzero : isSeeded validHeader = false → count = 0) :
    ∃ child, Session.build false (some seed) header (some count) now = .ok child := by
  obtain ⟨seeded, hadopt⟩ := @adoptSeed_complete false 0 {} seed live_create
    (fun i hi => (Nat.zero_add i).symm ▸ hok i hi) hfold
  obtain ⟨hlive, hevents, -⟩ := adoptSeed_sound hadopt live_create
  have hevents : SurfaceManager.events seeded.log = seed := hevents
  have hseeded : seeded.log.length = seed.length := by rw [← hevents, events_length]
  obtain ⟨built, hfinish⟩ : ∃ built, Session.finish header (some seed) (some count) seeded = .ok built :=
    ⟨_, finish_eq_ok.mpr ⟨by omega, validHeader, hheader, fun _ => ⟨rfl, rfl⟩,
      by simp only [getD_some]; omega, hzero, by simp only [getD_some]; omega, rfl⟩⟩
  have hbuilt : Live built.log built.manager built.nextRef ∧ built.log.length = seed.length := by
    obtain ⟨-, _, -, -, -, -, -, rfl⟩ := finish_eq_ok.mp hfinish
    exact ⟨hlive, hseeded⟩
  simp only [Session.build, getD_some, hadopt, hfinish, isNone_some,
    Bool.false_eq_true, if_false]
  unfold Session.markSeed
  split
  · exact ⟨_, rfl⟩
  · obtain ⟨manager, happend, -⟩ := @append_endSeed built now hbuilt.1 (by omega)
    rw [happend]
    exact ⟨_, rfl⟩

end Build

section Child

variable {platform : Platform} {parent child : Session} {now : Clock} {id : String} {n : Nat}
  {seed : List SessionEvent}

theorem create_prefix_iff (h : Kept platform parent) (hseed : seed = parent.events.take n) :
    (∃ child, Session.create platform id (some seed) (some (forkHeader id parent now))
      (some seed.length) now = .ok child) ↔
      seed.length ≤ maxSafeInteger ∧ 0 ≤ now.millis ∧ ∀ event ∈ seed, Seedable event := by
  obtain ⟨state, replacements, hfold⟩ := h.live.folds
  obtain ⟨state', replacements', hprefix⟩ := hfold.take n
  have hprefix : Folds seed state' replacements' := hseed ▸ hprefix
  constructor
  · rintro ⟨child, hcreate⟩
    obtain ⟨built, -, -, -, -, hheader, hlength, hseedable⟩ := built_of_build hcreate
    exact ⟨hlength, ((snapshot_forkHeader h.header).mp hheader).1, hseedable⟩
  · rintro ⟨hlength, hmillis, hseedable⟩
    have hsub : ∀ event ∈ seed, event ∈ parent.events := by
      intro event hevent
      rw [hseed] at hevent
      exact List.mem_of_mem_take hevent
    apply build_complete ((snapshot_forkHeader h.header).mpr ⟨hmillis, rfl⟩) hlength
    · intro i hi
      have hevent := List.getElem_mem hi
      have hparent : seed[i] ∈ parent.events := hsub _ hevent
      obtain ⟨hlossless, hreloadable⟩ := hseedable _ hevent
      have hseq := hprefix.seq_eq i hi
      exact ⟨fun _ => hlossless, h.supported _ hparent, hseq, by omega, h.time _ hparent, hreloadable⟩
    · exact ⟨_, _, hprefix⟩
    · exact Nat.le_refl _
    · intro hfalse
      cases hfalse.symm.trans isSeeded_forkHeader

structure StartsWith (seed : List SessionEvent) (now : Clock) (child : Session) : Prop where
  events : child.events = seed ++
    (if seed.getLast?.map SessionEvent.type = some "session/end-seed" then []
    else [⟨seed.length, .ofInt now.millis, .endSeed, none, none, false⟩])
  inherited : child.inheritedEventCount = seed.length
  history : ∃ result, foldSurface seed = .ok result ∧
    child.deriveMessages.1 = .ok (surfaceMessages seed result.nodes)

theorem startsWith_of_create (h : Kept platform parent) (hseed : seed = parent.events.take n)
    (hcreate : Session.create platform id (some seed) (some (forkHeader id parent now))
      (some seed.length) now = .ok child) : StartsWith seed now child ∧ child.id = id := by
  obtain ⟨state, replacements, hfold⟩ := h.live.folds
  obtain ⟨state', replacements', hprefix⟩ := hfold.take n
  have hprefix : Folds seed state' replacements' := hseed ▸ hprefix
  obtain ⟨built, hmark, hlive, hbuilt, hinherited, hheader, hlength, -⟩ := built_of_build hcreate
  obtain ⟨hevents, hcount, hsame⟩ := events_markSeed hlive hmark
  have hlog : built.log.length = seed.length := by rw [← hbuilt, length_events]
  rw [hbuilt, hlog] at hevents
  have hchild := kept_create hcreate
  have hfolds : Folds child.events state' replacements' := by
    rw [hevents]
    split
    · rw [List.append_nil]
      exact hprefix
    · exact hprefix.push_endSeed hlength _
  obtain ⟨_, hderive, -⟩ := deriveMessages_eq hchild.live hchild.cached hfolds
  refine ⟨⟨hevents, by rw [hcount, hinherited]; rfl, _, hprefix.foldSurface_eq, ?_⟩, ?_⟩
  · rw [hderive, hevents, surfaceMessages_append _ hprefix.nodes_lt]
  · rw [Session.id, hsame, ← ((snapshot_forkHeader h.header).mp hheader).2, headerId_forkHeader]

end Child

section Boundary

variable {platform : Platform} {s : Session} {events : List SessionEvent} {boundary : Option Number}

def throughBoundary (events : List SessionEvent) : Option Number → List SessionEvent
  | none => events
  | some boundary =>
    match events.findIdx? fun event => boundary.strictEq (.ofNat event.seq) with
    | some index => events.take (index + 1)
    | none => []

structure ForkAllowed (events : List SessionEvent) (boundary : Option Number) : Prop where
  exists_seq : ∀ number ∈ boundary, ∃ event ∈ events, number.strictEq (.ofNat event.seq) = true
  closed : openTurn (throughBoundary events boundary) = none

variable {number : Number}

theorem asBoundary_eq_some {n : Nat} (hle : n ≤ maxSafeInteger) :
    asBoundary number = some n ↔ number.strictEq (.ofNat n) = true := by
  cases number with
  | integral value =>
    have hstrict : Number.strictEq (.integral value) (.ofNat n) = decide (value.toInt = n) := by
      simp [Number.strictEq, Number.ofNat, Integral.strictEq, Bool.beq_eq_decide_eq]
    rw [hstrict, decide_eq_true_iff]
    unfold asBoundary
    constructor
    · intro h
      dsimp only at h
      split at h
      · rename_i hsafe
        rw [Bool.and_eq_true, decide_eq_true_iff] at hsafe
        have hvalue := some.inj h
        omega
      · cases h
    · intro h
      have hsafe : value.isSafe = true := by
        rw [Integral.isSafe_iff]
        omega
      simp [hsafe, h]
  | fractional bits => simp [asBoundary, Number.strictEq, Number.ofNat]
  | infinity negative => simp [asBoundary, Number.strictEq, Number.ofNat]
  | nan => simp [asBoundary, Number.strictEq]

theorem findIdx?_seq (hseq : ∀ i (hi : i < events.length), events[i].seq = i)
    (hle : events.length ≤ maxSafeInteger) {index : Nat} :
    (events.findIdx? fun event => number.strictEq (.ofNat event.seq)) = some index ↔
      asBoundary number = some index ∧ index < events.length := by
  rw [List.findIdx?_eq_some_iff_getElem]
  constructor
  · rintro ⟨hindex, hfound, -⟩
    rw [hseq index hindex] at hfound
    exact ⟨(asBoundary_eq_some (by omega)).mpr hfound, hindex⟩
  · rintro ⟨hnumber, hindex⟩
    refine ⟨hindex, ?_, ?_⟩
    · rw [hseq index hindex]
      exact (asBoundary_eq_some (by omega)).mp hnumber
    · intro j hj hother
      rw [hseq j (by omega)] at hother
      have hother := (asBoundary_eq_some (by omega)).mpr hother
      rw [hnumber] at hother
      have heq := some.inj hother
      omega

theorem forkSeed_some (hseq : ∀ i (hi : i < s.events.length), s.events[i].seq = i)
    (hle : s.log.length ≤ maxSafeInteger) {seed : List SessionEvent} :
    forkSeed platform s (some number) = .ok seed ↔
      ForkAllowed s.events (some number) ∧ seed = throughBoundary s.events (some number) := by
  have hlength : s.events.length ≤ maxSafeInteger := by simpa using hle
  unfold forkSeed
  rw [SessionLogOffset, if_pos hle]
  dsimp only [some_or]
  cases hnumber : asBoundary number with
  | none =>
    refine iff_of_false (by simp) fun h => ?_
    obtain ⟨event, hevent, hfound⟩ := h.1.exists_seq number rfl
    obtain ⟨i, hi, rfl⟩ := List.mem_iff_getElem.mp hevent
    rw [hseq i hi, ← asBoundary_eq_some (by omega), hnumber] at hfound
    cases hfound
  | some boundary =>
    dsimp only
    by_cases hout : s.log.length ≤ boundary
    · rw [if_pos hout]
      refine iff_of_false (by simp) fun h => ?_
      obtain ⟨event, hevent, hfound⟩ := h.1.exists_seq number rfl
      obtain ⟨i, hi, rfl⟩ := List.mem_iff_getElem.mp hevent
      rw [hseq i hi, ← asBoundary_eq_some (by omega), hnumber] at hfound
      have heq := some.inj hfound
      rw [length_events] at hi
      omega
    · have hi : boundary < s.events.length := by simpa using hout
      have hthrough : throughBoundary s.events (some number) = s.events.take (boundary + 1) := by
        rw [throughBoundary, (findIdx?_seq hseq hlength).mpr ⟨hnumber, hi⟩]
      have hexists : ∃ event ∈ s.events, number.strictEq (.ofNat event.seq) = true := by
        refine ⟨_, List.getElem_mem hi, ?_⟩
        rw [hseq boundary hi]
        exact (asBoundary_eq_some (by omega)).mp hnumber
      have hfound : (s.events[boundary]?.any fun event => event.seq == boundary) = true := by
        rw [List.getElem?_eq_getElem hi, any_some, hseq boundary hi, beq_self_eq_true]
      rw [if_neg hout, if_pos hfound, hthrough]
      cases hopen : openTurn (s.events.take (boundary + 1)) with
      | some turn =>
        refine iff_of_false (by simp) fun h => ?_
        have hclosed := h.1.closed
        rw [hthrough, hopen] at hclosed
        cases hclosed
      | none =>
        constructor
        · intro h
          refine ⟨⟨?_, by rw [hthrough, hopen]⟩, (Except.ok.inj h).symm⟩
          intro other hother
          cases hother
          exact hexists
        · rintro ⟨-, rfl⟩
          rfl

theorem throughBoundary_last (hseq : ∀ i (hi : i < events.length), events[i].seq = i)
    (hle : events.length ≤ maxSafeInteger) {last : SessionEvent} (hlast : events.getLast? = some last) :
    throughBoundary events (some (.ofNat last.seq)) = events := by
  have hne : events ≠ [] := by
    rintro rfl
    cases hlast
  have hpos := List.length_pos_iff.mpr hne
  have hlast : events[events.length - 1] = last := by
    rw [List.getLast?_eq_getElem?, List.getElem?_eq_getElem (by omega)] at hlast
    exact some.inj hlast
  have hseqLast : last.seq = events.length - 1 := by
    rw [← hlast]
    exact hseq _ (by omega)
  have hboundary : asBoundary (.ofNat last.seq) = some (events.length - 1) := by
    rw [asBoundary_eq_some (by omega), hseqLast]
    simp
  rw [throughBoundary, (findIdx?_seq hseq hle).mpr ⟨hboundary, by omega⟩]
  exact List.take_of_length_le (by omega)

theorem forkSeed_eq_ok (hseq : ∀ i (hi : i < s.events.length), s.events[i].seq = i)
    {seed : List SessionEvent} :
    forkSeed platform s boundary = .ok seed ↔
      s.log.length ≤ maxSafeInteger ∧ ForkAllowed s.events boundary ∧
        seed = throughBoundary s.events boundary := by
  by_cases hle : s.log.length ≤ maxSafeInteger
  · rw [and_iff_right hle]
    cases boundary with
    | some number => exact forkSeed_some hseq hle
    | none =>
      have hlength : s.events.length ≤ maxSafeInteger := by simpa using hle
      cases hlast : s.events.getLast? with
      | none =>
        have hempty : s.events = [] := List.getLast?_eq_none_iff.mp hlast
        have hseed : forkSeed platform s none = .ok [] := by
          unfold forkSeed
          rw [SessionLogOffset, if_pos hle, hlast]
          rfl
        rw [hseed, throughBoundary, hempty]
        constructor
        · intro h
          exact ⟨⟨by simp, rfl⟩, (Except.ok.inj h).symm⟩
        · rintro ⟨-, rfl⟩
          rfl
      | some last =>
        have hsame : forkSeed platform s none = forkSeed platform s (some (.ofNat last.seq)) := by
          unfold forkSeed
          rw [hlast]
          rfl
        have hthrough := throughBoundary_last hseq hlength hlast
        rw [hsame, forkSeed_some hseq hle, hthrough]
        apply and_congr_left
        intro _
        constructor
        · intro h
          exact ⟨by simp, hthrough ▸ h.closed⟩
        · intro h
          refine ⟨?_, hthrough.symm ▸ h.closed⟩
          intro number hnumber
          cases hnumber
          exact ⟨last, List.mem_of_getLast? hlast, by simp⟩
  · have herror : ∃ failure, forkSeed platform s boundary = .error failure := by
      unfold forkSeed
      rw [SessionLogOffset, if_neg hle]
      exact ⟨_, rfl⟩
    obtain ⟨failure, herror⟩ := herror
    rw [herror]
    exact iff_of_false (by simp) fun h => hle h.1

theorem throughBoundary_eq_take (events : List SessionEvent) (boundary : Option Number) :
    ∃ n, throughBoundary events boundary = events.take n := by
  unfold throughBoundary
  split
  · exact ⟨events.length, List.take_length.symm⟩
  · split
    · exact ⟨_, rfl⟩
    · exact ⟨0, List.take_zero.symm⟩

end Boundary

section Mint

variable {store : OrderedMap String Nat} {tries counter : Nat}

theorem sessionName_injective : Function.Injective sessionName := by
  intro a b h
  have hlists := congrArg String.toList h
  rw [sessionName, sessionName, String.toList_append, String.toList_append] at hlists
  have hdigits : (toString a).toList = (toString b).toList := List.append_cancel_left hlists
  have hdigits : Nat.toDigits 10 a = Nat.toDigits 10 b := by
    rw [← Nat.toList_repr, ← Nat.toList_repr]
    exact hdigits
  rw [← @Nat.ofDigitChars_ten_toDigits a, hdigits, Nat.ofDigitChars_ten_toDigits]

theorem taken_of_mintFrom
    (h : (store.get? (sessionName (Sessions.mintFrom store tries counter))).isSome = true) :
    ∀ i, i ≤ tries → (store.get? (sessionName (counter + 1 + i))).isSome = true := by
  induction tries generalizing counter with
  | zero =>
    intro i hi
    rw [Nat.le_zero.mp hi]
    exact h
  | succ tries ih =>
    intro i hi
    unfold Sessions.mintFrom at h
    split at h
    case isTrue htaken =>
      cases i with
      | zero => exact htaken
      | succ i =>
        have hnext := ih h i (by omega)
        rwa [Nat.add_right_comm (counter + 1) 1 i] at hnext
    case isFalse hfree => exact absurd h hfree

theorem get?_mintFrom :
    store.get? (sessionName (Sessions.mintFrom store store.entries.length counter)) = none := by
  cases hget : store.get? (sessionName (Sessions.mintFrom store store.entries.length counter)) with
  | none => rfl
  | some address =>
    have htaken := taken_of_mintFrom (by rw [hget]; rfl)
    have hnodup : ((List.range (store.entries.length + 1)).map
        fun i => sessionName (counter + 1 + i)).Nodup := by
      apply List.Nodup.map _ List.nodup_range
      intro a b h
      have heq := sessionName_injective h
      omega
    have hsub : ((List.range (store.entries.length + 1)).map
        fun i => sessionName (counter + 1 + i)) ⊆ store.keys := by
      intro name hname
      obtain ⟨i, hi, rfl⟩ := List.mem_map.mp hname
      have hsome := htaken i (by have := List.mem_range.mp hi; omega)
      obtain ⟨value, hvalue⟩ := isSome_iff_exists.mp hsome
      exact List.mem_map_of_mem (OrderedMap.get?_eq_some.mp hvalue)
    have hle := (hnodup.subperm hsub).length_le
    rw [List.length_map, List.length_range, OrderedMap.keys, List.length_map] at hle
    omega

theorem get?_mint (w : Sessions) (id : Option String) :
    w.store.get? (w.mint id).1 = none ↔ ∀ given ∈ id, w.store.get? given = none := by
  cases id with
  | none => exact ⟨fun _ => nofun, fun _ => get?_mintFrom⟩
  | some id =>
    constructor
    · intro h given hgiven
      cases hgiven
      exact h
    · intro h
      exact h id rfl

end Mint

section Runs

variable {platform : Platform} {w next later : Sessions} {s : Session}

theorem create_cases (id : Option String) (seed : Option (List SessionEvent)) (header : String → Json)
    (inheritedEventCount : Option Nat) (now : Clock) (veto : Option String) :
    (∃ failure, (w.create platform id seed header inheritedEventCount now veto).1 = .error failure ∧
      ¬ ((∀ given ∈ id, w.store.get? given = none) ∧ veto = none ∧
        ∃ s, Session.create platform (w.mint id).1 seed (some (header (w.mint id).1)) inheritedEventCount
          now = .ok s) ∧
      ((w.create platform id seed header inheritedEventCount now veto).2.objects = w.objects ∨
        ∃ s, Session.create platform (w.mint id).1 seed (some (header (w.mint id).1)) inheritedEventCount
          now = .ok s ∧
        (w.create platform id seed header inheritedEventCount now veto).2.objects = w.objects ++ [s])) ∨
    ∃ s, Session.create platform (w.mint id).1 seed (some (header (w.mint id).1)) inheritedEventCount
        now = .ok s ∧ (∀ given ∈ id, w.store.get? given = none) ∧ veto = none ∧
      (w.create platform id seed header inheritedEventCount now veto).1 = .ok w.objects.length ∧
      (w.create platform id seed header inheritedEventCount now veto).2.objects = w.objects ++ [s] := by
  unfold Sessions.create
  dsimp only
  cases hget : w.store.get? (w.mint id).1 with
  | some address =>
    refine .inl ⟨_, rfl, ?_, .inl rfl⟩
    rintro ⟨hfree, -⟩
    rw [(get?_mint w id).mpr hfree] at hget
    cases hget
  | none =>
    have hfree := (get?_mint w id).mp hget
    cases hcreate : Session.create platform (w.mint id).1 seed (some (header (w.mint id).1))
        inheritedEventCount now with
    | error message =>
      refine .inl ⟨_, rfl, ?_, .inl rfl⟩
      rintro ⟨-, -, s, hs⟩
      cases hs
    | ok s =>
      cases veto with
      | some message =>
        refine .inl ⟨_, rfl, ?_, .inr ⟨s, rfl, rfl⟩⟩
        rintro ⟨-, hveto, -⟩
        cases hveto
      | none => exact .inr ⟨s, rfl, hfree, rfl, rfl, rfl⟩

theorem objects_fork (source : SessionForkSource) (boundary : Option Number) (childSessionId : Option String)
    (now : Clock) (veto : Option String) :
    (w.fork platform source boundary childSessionId now veto).2.objects = w.objects ∨
      ∃ s, Kept platform s ∧
        (w.fork platform source boundary childSessionId now veto).2.objects = w.objects ++ [s] := by
  unfold Sessions.fork
  split
  · exact .inl rfl
  · cases hsource : w.resolveForkSource source with
    | error failure => exact .inl rfl
    | ok address =>
      dsimp only
      cases hparent : w.objects[address]? with
      | none => exact .inl rfl
      | some parent =>
        dsimp only
        cases hseed : forkSeed platform parent boundary with
        | error failure => exact .inl rfl
        | ok seed =>
          rcases create_cases childSessionId (some seed) (fun id => forkHeader id parent now)
            (some seed.length) now veto with
            ⟨failure, -, -, hsame | ⟨s, hcreate, hobjects⟩⟩ | ⟨s, hcreate, -, -, -, hobjects⟩
          · exact .inl hsame
          · exact .inr ⟨s, kept_create hcreate, hobjects⟩
          · exact .inr ⟨s, kept_create hcreate, hobjects⟩

def Grows (w next : Sessions) : Prop :=
  ∀ (address : Nat) (s : Session), w.objects[address]? = some s → ∃ s' : Session,
    next.objects[address]? = some s' ∧ s.events <+: s'.events ∧
    s'.inheritedEventCount = s.inheritedEventCount

theorem Grows.of_append {new : List Session} (h : next.objects = w.objects ++ new) : Grows w next := by
  intro address s hs
  refine ⟨s, ?_, List.prefix_refl _, rfl⟩
  rw [h]
  obtain ⟨hlt, -⟩ := List.getElem?_eq_some_iff.mp hs
  rwa [List.getElem?_append_left hlt]

theorem Grows.of_eq (h : next.objects = w.objects) : Grows w next :=
  .of_append (h.trans (List.append_nil _).symm)

variable {method : Session → Session}

theorem getElem?_update_ne {address other : Nat} (h : address ≠ other) :
    (w.update address method).objects[other]? = w.objects[other]? := by
  show (w.objects.modify address method)[other]? = _
  exact List.getElem?_modify_ne method w.objects h

theorem Grows.update {address : Nat}
    (hmethod : ∀ s ∈ w.objects, s.events <+: (method s).events ∧
      (method s).inheritedEventCount = s.inheritedEventCount) : Grows w (w.update address method) := by
  intro other s hs
  have hmem := List.mem_of_getElem? hs
  by_cases heq : address = other
  · refine ⟨method s, ?_, hmethod s hmem⟩
    show (w.objects.modify address method)[other]? = _
    rw [heq, List.getElem?_modify_eq, hs]
    rfl
  · exact ⟨s, (getElem?_update_ne heq).trans hs, List.prefix_refl _, rfl⟩

theorem events_append_prefix (h : Kept platform s) (data : EventData) (opts : SurfaceIntent) (now : Clock)
    (veto : Option String) :
    s.events <+: (s.append data opts now veto).2.events ∧
      (s.append data opts now veto).2.inheritedEventCount = s.inheritedEventCount := by
  rcases append_cases h.live data opts now veto with
    ⟨message, manager, nextRef, heq, -⟩ | ⟨event, manager, heq, -⟩
  · rw [heq]
    exact ⟨List.prefix_refl _, rfl⟩
  · rw [heq]
    refine ⟨⟨[event], ?_⟩, rfl⟩
    show _ = SurfaceManager.events (s.log ++ [⟨s.nextRef, event⟩])
    rw [events_append]
    rfl

theorem events_deriveMessages (h : Kept platform s) :
    s.events <+: s.deriveMessages.2.events ∧
      s.deriveMessages.2.inheritedEventCount = s.inheritedEventCount := by
  obtain ⟨state, replacements, hfold⟩ := h.live.folds
  obtain ⟨manager, heq, -⟩ := deriveMessages_eq h.live h.cached hfold
  rw [heq]
  exact ⟨List.prefix_refl _, rfl⟩

theorem kept_update {address : Nat}
    (hmethod : ∀ s, Kept platform s → Kept platform (method s)) (h : ∀ s ∈ w.objects, Kept platform s) :
    ∀ s ∈ (w.update address method).objects, Kept platform s := by
  intro s hs
  obtain ⟨other, hother⟩ := List.mem_iff_getElem?.mp hs
  rw [Sessions.update, List.getElem?_modify] at hother
  obtain ⟨old, hold, rfl⟩ := map_eq_some_iff.mp hother
  have hkept := h old (List.mem_of_getElem? hold)
  split
  · exact hmethod old hkept
  · exact hkept

theorem SessionsStep.kept (hstep : SessionsStep platform w next) (h : ∀ s ∈ w.objects, Kept platform s) :
    (∀ s ∈ next.objects, Kept platform s) ∧ Grows w next := by
  have hadd : ∀ {next : Sessions} {s : Session}, Kept platform s → next.objects = w.objects ++ [s] →
      (∀ s ∈ next.objects, Kept platform s) ∧ Grows w next := by
    intro next s hs hobjects
    refine ⟨?_, .of_append hobjects⟩
    intro other hother
    rw [hobjects] at hother
    rcases List.mem_append.mp hother with hold | hnew
    · exact h other hold
    · exact List.mem_singleton.mp hnew ▸ hs
  cases hstep with
  | create hcreate => exact hadd (kept_create hcreate) rfl
  | restore hrestore => exact hadd (kept_fromRestore hrestore) rfl
  | enter => exact ⟨h, .of_eq rfl⟩
  | detach => exact ⟨h, .of_eq rfl⟩
  | append address data opts now veto =>
    exact ⟨kept_update (fun s hs => hs.append data opts now veto) h,
      .update fun s hs => events_append_prefix (h s hs) data opts now veto⟩
  | deriveMessages address =>
    exact ⟨kept_update (fun s hs => hs.deriveMessages) h, .update fun s hs => events_deriveMessages (h s hs)⟩
  | fork source boundary childSessionId now veto =>
    rcases objects_fork source boundary childSessionId now veto with hsame | ⟨s, hs, hobjects⟩
    · exact ⟨fun s hs => h s (hsame ▸ hs), .of_eq hsame⟩
    · exact hadd hs hobjects

theorem Grows.trans (h : Grows w next) (hnext : Grows next later) : Grows w later := by
  intro address s hs
  obtain ⟨s', hs', hprefix, hcount⟩ := h address s hs
  obtain ⟨s'', hs'', hprefix', hcount'⟩ := hnext address s' hs'
  exact ⟨s'', hs'', hprefix.trans hprefix', hcount'.trans hcount⟩

theorem SessionsRun.kept (hrun : SessionsRun platform w next) (h : ∀ s ∈ w.objects, Kept platform s) :
    (∀ s ∈ next.objects, Kept platform s) ∧ Grows w next := by
  induction hrun with
  | refl => exact ⟨h, .of_eq rfl⟩
  | tail hrun hstep ih =>
    obtain ⟨hkept, hgrows⟩ := hstep.kept ih.1
    exact ⟨hkept, ih.2.trans hgrows⟩

end Runs

section Fork

variable {platform : Platform} {w : Sessions} {source : SessionForkSource} {address : Nat}
  {parent : Session} {boundary : Option Number} {childSessionId : Option String} {now : Clock}
  {veto : Option String}

structure ExactPrefix (platform : Platform) (w : Sessions) (source : SessionForkSource) (address : Nat)
    (parent : Session) (boundary : Option Number) (childSessionId : Option String) (now : Clock)
    (veto : Option String) : Prop where
  succeeds_iff : (∃ child, (w.fork platform source boundary childSessionId now veto).1 = .ok child) ↔
    ForkAllowed parent.events boundary
  starts : ∀ child, (w.fork platform source boundary childSessionId now veto).1 = .ok child →
    ∃ s, (w.fork platform source boundary childSessionId now veto).2.objects[child]? = some s ∧
      StartsWith (throughBoundary parent.events boundary) now s
  keeps : ∀ child, (w.fork platform source boundary childSessionId now veto).1 = .ok child →
    ∀ later, SessionsRun platform (w.fork platform source boundary childSessionId now veto).2 later →
      ∃ parent' child', later.objects[address]? = some parent' ∧ later.objects[child]? = some child' ∧
        parent.events <+: parent'.events ∧ throughBoundary parent.events boundary <+: child'.events ∧
        ∀ seq, child'.isOwnSeq seq = true ↔
          (throughBoundary parent.events boundary).length ≤ seq ∧ seq < child'.events.length
  apart : ∀ child, (w.fork platform source boundary childSessionId now veto).1 = .ok child →
    ∀ (later : Sessions) (data : EventData) (opts : SurfaceIntent) (now : Clock) (veto : Option String),
      (later.append address data opts now veto).objects[child]? = later.objects[child]? ∧
        (later.append child data opts now veto).objects[address]? = later.objects[address]?
  marksOnce : ∀ (id : String) (seed : List SessionEvent) (header : Option Json) (count : Option Nat)
    (s : Session), seed.getLast?.map SessionEvent.type = some "session/end-seed" →
      Session.create platform id (some seed) header count now = .ok s → s.events = seed

structure ForkReady (w : Sessions) (parent : Session) (boundary : Option Number)
    (childSessionId : Option String) (now : Clock) (veto : Option String) : Prop where
  free : ∀ id ∈ childSessionId, w.store.get? id = none
  published : veto = none
  room : parent.events.length ≤ maxSafeInteger
  clock : 0 ≤ now.millis
  seedable : ∀ event ∈ throughBoundary parent.events boundary, Seedable event

theorem marksOnce_create (id : String) (seed : List SessionEvent) (header : Option Json)
    (count : Option Nat) (s : Session)
    (hlast : seed.getLast?.map SessionEvent.type = some "session/end-seed")
    (hcreate : Session.create platform id (some seed) header count now = .ok s) : s.events = seed := by
  obtain ⟨built, hmark, hlive, hbuilt, -⟩ := built_of_build hcreate
  obtain ⟨hevents, -⟩ := events_markSeed hlive hmark
  rw [hevents, hbuilt, if_pos hlast, List.append_nil]

/-- A fork that succeeds adds the session that `Session.create` makes of the prefix. -/
theorem fork_cases (hkept : ∀ s ∈ w.objects, Kept platform s)
    (hsource : w.resolveForkSource source = .ok address) (hparent : w.objects[address]? = some parent) :
    (∃ failure, (w.fork platform source boundary childSessionId now veto).1 = .error failure ∧
      ¬ (ForkAllowed parent.events boundary ∧ ForkReady w parent boundary childSessionId now veto)) ∨
    ∃ s, (w.fork platform source boundary childSessionId now veto).1 = .ok w.objects.length ∧
      (w.fork platform source boundary childSessionId now veto).2.objects = w.objects ++ [s] ∧
      ForkAllowed parent.events boundary ∧ ForkReady w parent boundary childSessionId now veto ∧
      StartsWith (throughBoundary parent.events boundary) now s := by
  have hparentKept := hkept parent (List.mem_of_getElem? hparent)
  obtain ⟨state, replacements, hfold⟩ := hparentKept.live.folds
  obtain ⟨n, htake⟩ := throughBoundary_eq_take parent.events boundary
  unfold Sessions.fork
  split
  case isTrue htaken =>
    refine .inl ⟨_, rfl, fun h => ?_⟩
    cases childSessionId with
    | none => cases htaken
    | some id =>
      have htaken : (w.store.get? id).isSome = true := htaken
      rw [h.2.free id rfl] at htaken
      cases htaken
  case isFalse hfree =>
    rw [hsource]
    dsimp only
    rw [hparent]
    dsimp only
    cases hseed : forkSeed platform parent boundary with
    | error failure =>
      refine .inl ⟨_, rfl, fun h => ?_⟩
      have hok : forkSeed platform parent boundary = .ok (throughBoundary parent.events boundary) :=
        (forkSeed_eq_ok hfold.seq_eq).mpr ⟨by simpa using h.2.room, h.1, rfl⟩
      rw [hseed] at hok
      cases hok
    | ok seed =>
      obtain ⟨hroom, hallowed, rfl⟩ := (forkSeed_eq_ok hfold.seq_eq).mp hseed
      rcases create_cases childSessionId (some (throughBoundary parent.events boundary))
        (fun id => forkHeader id parent now) (some (throughBoundary parent.events boundary).length) now
        veto with ⟨failure, herror, hnot, -⟩ | ⟨s, hcreate, hfree, hveto, hok, hobjects⟩
      · refine .inl ⟨failure, herror, fun h => hnot ⟨h.2.free, h.2.published, ?_⟩⟩
        apply (create_prefix_iff hparentKept htake).mpr ⟨?_, h.2.clock, h.2.seedable⟩
        rw [htake, List.length_take]
        exact Nat.le_trans (Nat.min_le_right _ _) h.2.room
      · obtain ⟨-, hclock, hseedable⟩ := (create_prefix_iff hparentKept htake).mp ⟨s, hcreate⟩
        exact .inr ⟨s, hok, hobjects, hallowed, ⟨hfree, hveto, by simpa using hroom, hclock, hseedable⟩,
          (startsWith_of_create hparentKept htake hcreate).1⟩

/-- A live session is forked into an exact prefix exactly when, for a boundary that the contract
allows, the events of the prefix pass the checks of a seed and nothing else stands in the way. -/
theorem exactPrefix_iff (hrun : SessionsRun platform {} w)
    (hsource : w.resolveForkSource source = .ok address) (hparent : w.objects[address]? = some parent) :
    ExactPrefix platform w source address parent boundary childSessionId now veto ↔
      (ForkAllowed parent.events boundary → ForkReady w parent boundary childSessionId now veto) := by
  have hkept : ∀ s ∈ w.objects, Kept platform s := (hrun.kept (fun s hs => nomatch hs)).1
  obtain ⟨haddress, -⟩ := List.getElem?_eq_some_iff.mp hparent
  rcases @fork_cases platform w source address parent boundary childSessionId now veto hkept hsource
    hparent with ⟨failure, herror, hnot⟩ | ⟨s, hok, hobjects, hallowed, hready, hstarts⟩
  · have hfails : ∀ child,
        (w.fork platform source boundary childSessionId now veto).1 ≠ .ok child := by
      intro child hchild
      rw [herror] at hchild
      cases hchild
    constructor
    · intro hexact hallowed
      obtain ⟨child, hchild⟩ := hexact.succeeds_iff.mpr hallowed
      exact absurd hchild (hfails child)
    · intro hready
      refine ⟨⟨?_, fun hallowed => absurd ⟨hallowed, hready hallowed⟩ hnot⟩, ?_, ?_, ?_, marksOnce_create⟩
      · rintro ⟨child, hchild⟩
        exact absurd hchild (hfails child)
      · exact fun child hchild => absurd hchild (hfails child)
      · exact fun child hchild => absurd hchild (hfails child)
      · exact fun child hchild => absurd hchild (hfails child)
  · have hchild : ∀ child,
        (w.fork platform source boundary childSessionId now veto).1 = .ok child →
          child = w.objects.length := by
      intro child h
      rw [hok] at h
      exact (Except.ok.inj h).symm
    have hnew : (w.fork platform source boundary childSessionId now veto).2.objects[w.objects.length]? =
        some s := by
      rw [hobjects, List.getElem?_concat_length]
    have hold : (w.fork platform source boundary childSessionId now veto).2.objects[address]? =
        some parent := by
      rw [hobjects, List.getElem?_append_left haddress, hparent]
    refine ⟨fun _ _ => hready, fun _ => ⟨⟨fun _ => hallowed, fun _ => ⟨_, hok⟩⟩, ?_, ?_, ?_,
      marksOnce_create⟩⟩
    · intro child h
      rw [hchild child h]
      exact ⟨s, hnew, hstarts⟩
    · intro child h later hlater
      rw [hchild child h]
      have hstep : SessionsStep platform w
          (w.fork platform source boundary childSessionId now veto).2 :=
        .fork source boundary childSessionId now veto
      obtain ⟨-, hgrows⟩ := hlater.kept (hstep.kept hkept).1
      obtain ⟨parent', hparent', hparentEvents, -⟩ := hgrows address parent hold
      obtain ⟨child', hchild', hchildEvents, hcount⟩ := hgrows _ s hnew
      have hprefix : throughBoundary parent.events boundary <+: s.events := ⟨_, hstarts.events.symm⟩
      refine ⟨parent', child', hparent', hchild', hparentEvents, hprefix.trans hchildEvents, ?_⟩
      intro seq
      simp [Session.isOwnSeq, hcount, hstarts.inherited]
    · intro child h later data opts now veto
      rw [hchild child h]
      exact ⟨getElem?_update_ne (by omega), getElem?_update_ne (by omega)⟩

def sessionsWithResult (callId : String) : Sessions :=
  ((({} : Sessions).add freshSession).enter "s" 0).append 0
    (.toolResult ⟨.ofNat 1, .ofNat 1, ⟨"m", ⟨callId, [], none⟩, ⟨callId⟩⟩, none, none⟩)
    { surfaceOp := some (.str "append") } epoch none

theorem run_sessionsWithResult (callId : String) : SessionsRun posix {} (sessionsWithResult callId) := by
  have hcreate : SessionsStep posix {} (({} : Sessions).add freshSession) := .create create_freshSession
  have henter : SessionsStep posix (({} : Sessions).add freshSession)
      ((({} : Sessions).add freshSession).enter ((({} : Sessions).add freshSession).idOf 0) 0) :=
    .enter Nat.one_pos rfl
  exact ((Relation.ReflTransGen.single hcreate).tail henter).tail (.append _ _ _ _ _)

theorem forkAllowed_sessionWithResult (callId : String) :
    ForkAllowed (sessionWithResult callId).events none :=
  ⟨nofun, rfl⟩

/-- The result with an empty call id was appended, and the fork of the whole log fails on it. -/
theorem not_exactPrefix_sessionsWithResult :
    SessionsRun posix {} (sessionsWithResult "") ∧
      (sessionsWithResult "").resolveForkSource (.id "s") = .ok 0 ∧
      (sessionsWithResult "").objects[0]? = some (sessionWithResult "") ∧
      ForkAllowed (sessionWithResult "").events none ∧
      ((sessionsWithResult "").fork posix (.id "s") none none epoch none).1 =
        .error (.error "seed tool/result at index 0 message must have tool source") ∧
      ¬ ExactPrefix posix (sessionsWithResult "") (.id "s") 0 (sessionWithResult "") none none epoch
        none := by
  have hfails : ((sessionsWithResult "").fork posix (.id "s") none none epoch none).1 =
      .error (.error "seed tool/result at index 0 message must have tool source") := rfl
  refine ⟨run_sessionsWithResult "", rfl, rfl, forkAllowed_sessionWithResult "", hfails, ?_⟩
  intro hexact
  obtain ⟨child, hchild⟩ := hexact.succeeds_iff.mpr (forkAllowed_sessionWithResult "")
  rw [hfails] at hchild
  cases hchild

theorem exactPrefix_sessionsWithResult :
    ExactPrefix posix (sessionsWithResult "call") (.id "s") 0 (sessionWithResult "call") none none epoch
      none := by
  apply (exactPrefix_iff (run_sessionsWithResult "call") rfl rfl).mpr
  intro _
  refine ⟨nofun, rfl, by decide, by decide, ?_⟩
  intro event hevent
  have hevent' : event ∈ [(sessionWithResult "call").events.head (by decide)] := hevent
  rw [List.mem_singleton.mp hevent']
  exact ⟨rfl, ⟨by decide, by decide, rfl⟩, trivial⟩

end Fork

end DshKernel.Session
