import DshKernel.Files.FileToolRuns
import Mathlib.Data.List.Pairwise
import Mathlib.Tactic.ByContra

/-!
# No blind overwrite

A session replaces a file only at the version that it has observed, and only one call replaces it
there.
-/

namespace DshKernel.Files

open Lib List

def FsEvent.Replaces (event : FsEvent) (target version : String) : Prop :=
  ∃ call owner previous new content,
    event = .published call owner target (some (version, previous)) new content

def FsEvent.Apart (first second : FsEvent) : Prop :=
  ∀ target version, first.Replaces target version → ¬ second.Replaces target version

structure BasedOn (before : List FsEvent) (call session : Nat) (target version : String)
    (content : ByteArray) : Prop where
  /-- The guard of the call was the last observation of the session when it was chosen. -/
  chosen : ∃ earlier later,
    before = earlier ++ .guarded call (some session) target (.replaceIfVersion version) :: later ∧
      lastObserved session target earlier = some (.present version)
  /-- All else that the session has observed there was replaced before. -/
  newest : ∀ other, .observed session target (.present other) ∈ before →
    other = version ∨ Replaced before target other
  /-- What was read at this version is what is replaced. -/
  read : ∀ reader owner seen, .returned reader owner target version seen ∈ before → seen = content
  wrote : ∀ writer owner replaced written, .published writer owner target replaced version written ∈ before →
    written = content

def Grounded (before : List FsEvent) : FsEvent → Prop
  | .published call owner target (some (version, content)) _ _ =>
    ∃ session, owner = some session ∧ BasedOn before call session target version content
  | _ => True

def ObservedFrom (before : List FsEvent) : FsEvent → Prop
  | .observed session target (.present version) =>
    (∃ call content, .returned call (some session) target version content ∈ before) ∨
      ∃ call replaced content, .published call (some session) target replaced version content ∈ before
  | _ => True

structure NoBlindOverwrite (log : List FsEvent) : Prop where
  replacements : Throughout Grounded log
  observations : Throughout ObservedFrom log
  /-- A call that succeeds has put its content, in place of what its guard names. -/
  successes : ∀ call, .succeeded call ∈ log → ∃ owner target intent replaced version content,
    .guarded call owner target intent ∈ log ∧
    .published call owner target replaced version content ∈ log ∧
    ∀ basis, intent = .replaceIfVersion basis → ∃ previous, replaced = some (basis, previous)
  /-- Of the calls that are based on one version, one succeeds. -/
  once : ∀ a b ownerA ownerB target version,
    .guarded a ownerA target (.replaceIfVersion version) ∈ log →
    .guarded b ownerB target (.replaceIfVersion version) ∈ log →
    .succeeded a ∈ log → .succeeded b ∈ log → a = b

structure Lawful (s : FileTools) (log : List FsEvent) : Prop where
  observed : ∀ owner target, s.observed owner target = lastObserved owner target log
  replaced : ∀ target version, Replaced log target version →
    version ∈ s.versions target ∧ ∀ content, s.files target ≠ some (.file version content)
  published : ∀ call owner target replaced version content,
    .published call owner target replaced version content ∈ log →
      version ∈ s.versions target ∧ Holds s target version content
  returned : ∀ call owner target version content, .returned call owner target version content ∈ log →
    version ∈ s.versions target ∧ Holds s target version content
  seen : ∀ owner target version, .observed owner target (.present version) ∈ log →
    Known s log target version
  asked : ∀ id owner target intent, .guarded id owner target intent ∈ log → ∃ call,
    s.call? id = some call ∧ call.owner = owner ∧ call.target = target ∧ call.intent = some intent
  matched : ∀ id owner target replaced version content,
    .published id owner target replaced version content ∈ log → ∃ call intent,
      s.call? id = some call ∧ call.owner = owner ∧ call.target = target ∧ call.intent = some intent ∧
        ∀ basis, intent = .replaceIfVersion basis → ∃ previous, replaced = some (basis, previous)
  grounded : Throughout Grounded log
  observations : Throughout ObservedFrom log
  once : log.Pairwise FsEvent.Apart
  succeeded : ∀ id, .succeeded id ∈ log → ∃ owner target replaced version content,
    .published id owner target replaced version content ∈ log

def CallsGoOn (s s' : FileTools) : Prop :=
  ∀ id call, s.call? id = some call → ∃ call', s'.call? id = some call' ∧ call'.owner = call.owner ∧
    call'.target = call.target ∧ ∀ intent, call.intent = some intent → call'.intent = some intent

section CallsGoOn

variable {s s' : FileTools} {news : List FsEvent} {log : List FsEvent}

theorem callsGoOn_go {id : Nat} {call next : FsCall} (hcall : s.call? id = some call)
    (hcalls : ∀ other, s'.call? other = if id = other then some next else s.call? other)
    (howner : next.owner = call.owner) (htarget : next.target = call.target)
    (hintent : ∀ intent, call.intent = some intent → next.intent = some intent) : CallsGoOn s s' := by
  intro other call' hcall'
  rw [hcalls]
  split
  · rename_i heq
    obtain rfl := Option.some.inj (hcall.symm.trans (heq ▸ hcall'))
    exact ⟨next, rfl, howner, htarget, hintent⟩
  · exact ⟨call', hcall', rfl, rfl, fun _ h => h⟩

end CallsGoOn

namespace Lawful

variable {s s' : FileTools} {log news : List FsEvent}

theorem keep (h : Lawful s log) (hevolves : Evolves s s' []) (hobserved : s'.observed = s.observed)
    (hcalls : CallsGoOn s s') : Lawful s' log where
  observed owner target := hobserved ▸ h.observed owner target
  replaced target version hreplaced := by
    obtain ⟨hmem, hgone⟩ := h.replaced target version hreplaced
    refine ⟨hevolves.versions _ _ hmem, fun content hfile => ?_⟩
    rcases (hevolves.made _ _ _ hfile).2 with hsame | hnew
    · exact hgone content hsame
    · exact hnew hmem
  published call owner target replaced version content hmem := by
    obtain ⟨hversion, hholds⟩ := h.published _ _ _ _ _ _ hmem
    exact ⟨hevolves.versions _ _ hversion, hevolves.holds hversion hholds⟩
  returned call owner target version content hmem := by
    obtain ⟨hversion, hholds⟩ := h.returned _ _ _ _ _ hmem
    exact ⟨hevolves.versions _ _ hversion, hevolves.holds hversion hholds⟩
  seen owner target version hmem := by
    have hknown := hevolves.known (h.seen owner target version hmem)
    rwa [append_nil] at hknown
  asked id owner target intent hmem := by
    obtain ⟨call, hcall, howner, htarget, hintent⟩ := h.asked _ _ _ _ hmem
    obtain ⟨call', hcall', howner', htarget', hkept⟩ := hcalls id call hcall
    exact ⟨call', hcall', howner'.trans howner, htarget'.trans htarget, hkept intent hintent⟩
  matched id owner target replaced version content hmem := by
    obtain ⟨call, intent, hcall, howner, htarget, hintent, hbasis⟩ := h.matched _ _ _ _ _ _ hmem
    obtain ⟨call', hcall', howner', htarget', hkept⟩ := hcalls id call hcall
    exact ⟨call', intent, hcall', howner'.trans howner, htarget'.trans htarget, hkept intent hintent,
      hbasis⟩
  grounded := h.grounded
  observations := h.observations
  once := h.once
  succeeded := h.succeeded

theorem mem_concat {event new : FsEvent} (h : event ∈ log ++ [new]) : event ∈ log ∨ event = new :=
  (mem_append.mp h).imp_right mem_singleton.mp

theorem tell {event : FsEvent} (h : Lawful s log)
    (hplain : ∀ target version, ¬ event.Replaces target version)
    (hobserved : ∀ owner target observation, event ≠ .observed owner target observation)
    (hpublished : ∀ call owner target replaced version content,
      event ≠ .published call owner target replaced version content)
    (hreturned : ∀ call owner target version content, event = .returned call owner target version content →
      version ∈ s.versions target ∧ Holds s target version content)
    (hguarded : ∀ id owner target intent, event = .guarded id owner target intent → ∃ call,
      s.call? id = some call ∧ call.owner = owner ∧ call.target = target ∧ call.intent = some intent)
    (hsucceeded : ∀ id, event = .succeeded id → ∃ owner target replaced version content,
      .published id owner target replaced version content ∈ log) : Lawful s (log ++ [event]) := by
  have hquiet : Quiet [event] := fun owner target observation hmem =>
    hobserved owner target observation (mem_singleton.mp hmem).symm
  have hold : ∀ call owner target replaced version content,
      .published call owner target replaced version content ∈ log ++ [event] →
        .published call owner target replaced version content ∈ log :=
    fun _ _ _ _ _ _ hmem => (mem_concat hmem).resolve_right fun heq => hpublished _ _ _ _ _ _ heq.symm
  have hreplaced : ∀ target version, Replaced (log ++ [event]) target version →
      Replaced log target version := by
    rintro target version ⟨call, owner, previous, new, content, hmem⟩
    exact ⟨call, owner, previous, new, content, hold _ _ _ _ _ _ hmem⟩
  refine ⟨fun owner target => ?_, fun target version hrep => h.replaced _ _ (hreplaced _ _ hrep),
    fun _ _ _ _ _ _ hmem => h.published _ _ _ _ _ _ (hold _ _ _ _ _ _ hmem), ?_, ?_, ?_,
    fun _ _ _ _ _ _ hmem => h.matched _ _ _ _ _ _ (hold _ _ _ _ _ _ hmem), ?_, ?_, ?_, ?_⟩
  · rw [lastObserved_quiet hquiet]
    exact h.observed owner target
  · intro call owner target version content hmem
    exact (mem_concat hmem).elim (h.returned _ _ _ _ _) fun heq => hreturned _ _ _ _ _ heq.symm
  · intro owner target version hmem
    have hearlier := (mem_concat hmem).resolve_right fun heq => hobserved _ _ _ heq.symm
    obtain ⟨hversion, hcurrent⟩ := h.seen owner target version hearlier
    exact ⟨hversion, hcurrent.imp_right Replaced.append⟩
  · intro id owner target intent hmem
    exact (mem_concat hmem).elim (h.asked _ _ _ _) fun heq => hguarded _ _ _ _ heq.symm
  · refine throughout_concat.mpr ⟨h.grounded, ?_⟩
    cases event with
    | published => exact absurd rfl (hpublished _ _ _ _ _ _)
    | _ => exact trivial
  · refine throughout_concat.mpr ⟨h.observations, ?_⟩
    cases event with
    | observed => exact absurd rfl (hobserved _ _ _)
    | _ => exact trivial
  · refine pairwise_append.mpr ⟨h.once, pairwise_singleton _ _, ?_⟩
    intro first _ second hsecond target version _
    rw [mem_singleton.mp hsecond]
    exact hplain target version
  · intro id hmem
    have hearlier : ∃ owner target replaced version content,
        .published id owner target replaced version content ∈ log :=
      (mem_concat hmem).elim (h.succeeded id) fun heq => hsucceeded id heq.symm
    obtain ⟨owner, target, replaced, version, content, hpub⟩ := hearlier
    exact ⟨owner, target, replaced, version, content, mem_append_left _ hpub⟩

variable {call id : Nat} {target version : String}

theorem replaced_of_standing {call : FsCall} {content : ByteArray}
    {replaced : Option (String × ByteArray)} (hsound : CallSound s log id call)
    (hphase : call.phase = .staged content)
    (hreplaced : s.files call.target = replaced.map fun file => .file file.1 file.2)
    (hintent : replaced.isSome = true → call.intent ≠ some .createIfAbsent) :
    ∃ intent, call.intent = some intent ∧
      (∀ basis, intent = .replaceIfVersion basis → ∃ previous, replaced = some (basis, previous)) ∧
      ∀ old previous, replaced = some (old, previous) → intent = .replaceIfVersion old := by
  have hstanding := hsound.standing
  rw [hphase] at hstanding
  obtain ⟨intent, hsome, hguard⟩ := hstanding
  have hbasis : ∀ basis, intent = .replaceIfVersion basis → ∃ previous, replaced = some (basis, previous) := by
    intro basis heq
    obtain ⟨current, hfile⟩ := hguard basis heq
    rw [hfile] at hreplaced
    cases replaced with
    | none => cases hreplaced
    | some file =>
      cases hreplaced
      exact ⟨file.2, rfl⟩
  refine ⟨intent, hsome, hbasis, fun old previous heq => ?_⟩
  subst heq
  cases intent with
  | createIfAbsent => exact absurd hsome (hintent rfl)
  | replaceIfVersion basis =>
    obtain ⟨previous', heq⟩ := hbasis basis rfl
    cases heq
    rfl

theorem basedOn {session : Nat} {old : String} {previous : ByteArray} (h : Lawful s log)
    (hfile : s.files target = some (.file old previous))
    (hchosen : Chosen log id (some session) target (.replaceIfVersion old)) :
    BasedOn log id session target old previous := by
  obtain ⟨earlier, later, hlog, hbasis⟩ := hchosen
  obtain ⟨session', howner, hlast⟩ := hbasis old rfl
  cases howner
  refine ⟨⟨earlier, later, hlog, hlast⟩, ?_, ?_, ?_⟩
  · intro other hmem
    rcases (h.seen _ _ _ hmem).current with ⟨content, hcurrent⟩ | hreplaced
    · rw [hfile] at hcurrent
      cases hcurrent
      exact .inl rfl
    · exact .inr hreplaced
  · intro reader owner seen hmem
    exact ((h.returned _ _ _ _ _ hmem).2 previous hfile).symm
  · intro writer owner replaced written hmem
    exact ((h.published _ _ _ _ _ _ hmem).2 previous hfile).symm

theorem publish {id : Nat} {call : FsCall} {version : String} {content : ByteArray}
    {replaced : Option (String × ByteArray)} (h : Lawful s log) (hdated : Dated s)
    (hcall : s.call? id = some call) (hsound : CallSound s log id call)
    (hphase : call.phase = .staged content) (hfresh : version ∉ s.versions call.target)
    (hreplaced : s.files call.target = replaced.map fun file => .file file.1 file.2)
    (hintent : replaced.isSome = true → call.intent ≠ some .createIfAbsent) :
    Lawful ((s.put call.target version content).go id { call with phase := .published })
      (log ++ [.published id call.owner call.target replaced version content]) := by
  have hmoves := Moves.publish hcall hphase hfresh hreplaced hintent
  have hevolves := hmoves.evolves hdated
  have hgoesOn : CallsGoOn s ((s.put call.target version content).go id { call with phase := .published }) :=
    callsGoOn_go hcall (fun _ => call?_go hcall) rfl rfl fun _ hsome => hsome
  obtain ⟨intent, hsome, hbasis, hnamed⟩ := replaced_of_standing hsound hphase hreplaced hintent
  have hput : ((s.put call.target version content).go id { call with phase := .published }).files
      call.target = some (.file version content) := if_pos rfl
  have hnew : version ∈ ((s.put call.target version content).go id
      { call with phase := .published }).versions call.target := (hevolves.made _ _ _ hput).1
  refine ⟨fun owner target => ?_, ?_, ?_, ?_, ?_, ?_, ?_, ?_, ?_, ?_, ?_⟩
  · rw [lastObserved_quiet fun _ _ _ hmem => by cases mem_singleton.mp hmem]
    exact h.observed owner target
  · rintro target old ⟨other, owner, previous, new, made, hmem⟩
    have hgone : old ∈ s.versions target ∧ ∀ kept, s.files target = some (.file old kept) →
        target = call.target := by
      rcases mem_concat hmem with hold | heq
      · obtain ⟨hversion, hgone⟩ := h.replaced target old ⟨other, owner, previous, new, made, hold⟩
        exact ⟨hversion, fun kept hfile => absurd hfile (hgone kept)⟩
      · cases heq
        exact ⟨hdated _ _ _ hreplaced, fun _ _ => rfl⟩
    refine ⟨hevolves.versions _ _ hgone.1, fun kept hfile => ?_⟩
    rcases (hevolves.made _ _ _ hfile).2 with hsame | hnot
    · obtain rfl := hgone.2 kept hsame
      rw [hput] at hfile
      cases hfile
      exact hfresh hgone.1
    · exact hnot hgone.1
  · intro other owner target replaced' version' content' hmem
    rcases mem_concat hmem with hold | heq
    · obtain ⟨hversion, hholds⟩ := h.published _ _ _ _ _ _ hold
      exact ⟨hevolves.versions _ _ hversion, hevolves.holds hversion hholds⟩
    · cases heq
      refine ⟨hnew, fun current hcurrent => ?_⟩
      rw [hput] at hcurrent
      cases hcurrent
      rfl
  · intro other owner target version' content' hmem
    obtain ⟨hversion, hholds⟩ := h.returned _ _ _ _ _
      ((mem_concat hmem).resolve_right fun heq => nomatch heq)
    exact ⟨hevolves.versions _ _ hversion, hevolves.holds hversion hholds⟩
  · intro owner target version' hmem
    exact hevolves.known (h.seen _ _ _ ((mem_concat hmem).resolve_right fun heq => nomatch heq))
  · intro other owner target intent' hmem
    obtain ⟨call', hcall', howner, htarget, hintent'⟩ :=
      h.asked _ _ _ _ ((mem_concat hmem).resolve_right fun heq => nomatch heq)
    obtain ⟨call'', hcall'', howner', htarget', hkept⟩ := hgoesOn other call' hcall'
    exact ⟨call'', hcall'', howner'.trans howner, htarget'.trans htarget, hkept _ hintent'⟩
  · intro other owner target replaced' version' content' hmem
    rcases mem_concat hmem with hold | heq
    · obtain ⟨call', intent', hcall', howner, htarget, hintent', hbasis'⟩ := h.matched _ _ _ _ _ _ hold
      obtain ⟨call'', hcall'', howner', htarget', hkept⟩ := hgoesOn other call' hcall'
      exact ⟨call'', intent', hcall'', howner'.trans howner, htarget'.trans htarget, hkept _ hintent',
        hbasis'⟩
    · cases heq
      refine ⟨{ call with phase := .published }, intent, ?_, rfl, rfl, hsome, hbasis⟩
      exact (call?_go hcall).trans (if_pos rfl)
  · refine throughout_concat.mpr ⟨h.grounded, ?_⟩
    cases replaced with
    | none => exact trivial
    | some file =>
      have hchosen := hsound.chosen _ (hnamed file.1 file.2 rfl ▸ hsome)
      obtain ⟨session, howner⟩ := hchosen.session
      rw [howner] at hchosen
      exact ⟨session, howner, h.basedOn hreplaced hchosen⟩
  · exact throughout_concat.mpr ⟨h.observations, trivial⟩
  · refine pairwise_append.mpr ⟨h.once, pairwise_singleton _ _, ?_⟩
    rintro first hfirst second hsecond target old ⟨a, owner, previous, new, made, rfl⟩ hreplaces
    rw [mem_singleton.mp hsecond] at hreplaces
    obtain ⟨b, owner', previous', new', made', heq⟩ := hreplaces
    cases heq
    exact (h.replaced _ old ⟨a, owner, previous, new, made, hfirst⟩).2 _ hreplaced
  · intro other hmem
    obtain ⟨owner, target, replaced', version', content', hpub⟩ :=
      h.succeeded other ((mem_concat hmem).resolve_right fun heq => nomatch heq)
    exact ⟨owner, target, replaced', version', content', mem_append_left _ hpub⟩

theorem observe {owner : Option Nat} {target : String} {observation : FsObservation} (h : Lawful s log)
    (hknown : ∀ version, observation = .present version → Known s log target version)
    (hfrom : ∀ session version, owner = some session → observation = .present version →
      (∃ call content, .returned call (some session) target version content ∈ log) ∨
        ∃ call replaced content, .published call (some session) target replaced version content ∈ log) :
    Lawful (s.observe owner target observation).1 (log ++ (s.observe owner target observation).2) := by
  cases owner with
  | none =>
    change Lawful s (log ++ [])
    rwa [append_nil]
  | some session =>
    refine ⟨fun other place => ?_, ?_, ?_, ?_, ?_, ?_, ?_, ?_, ?_, ?_, ?_⟩
    · change (if other = session ∧ place = target then some observation else s.observed other place) = _
      rw [lastObserved_append, ← h.observed]
      rfl
    · rintro place version ⟨call, owner, previous, new, content, hmem⟩
      exact h.replaced place version ⟨call, owner, previous, new, content,
        (mem_concat hmem).resolve_right fun heq => nomatch heq⟩
    · intro call owner place replaced version content hmem
      exact h.published _ _ _ _ _ _ ((mem_concat hmem).resolve_right fun heq => nomatch heq)
    · intro call owner place version content hmem
      exact h.returned _ _ _ _ _ ((mem_concat hmem).resolve_right fun heq => nomatch heq)
    · intro owner place version hmem
      have hbefore : Known s log place version := by
        rcases mem_concat hmem with hold | heq
        · exact h.seen _ _ _ hold
        · cases heq
          exact hknown version rfl
      exact ⟨hbefore.mem, hbefore.current.imp_right Replaced.append⟩
    · intro id owner place intent hmem
      exact h.asked _ _ _ _ ((mem_concat hmem).resolve_right fun heq => nomatch heq)
    · intro id owner place replaced version content hmem
      exact h.matched _ _ _ _ _ _ ((mem_concat hmem).resolve_right fun heq => nomatch heq)
    · exact throughout_concat.mpr ⟨h.grounded, trivial⟩
    · refine throughout_concat.mpr ⟨h.observations, ?_⟩
      cases observation with
      | present version => exact hfrom session version rfl rfl
      | absent => exact trivial
    · refine pairwise_append.mpr ⟨h.once, pairwise_singleton _ _, ?_⟩
      rintro first _ second hsecond place version _ ⟨call, owner, previous, new, content, heq⟩
      rw [mem_singleton.mp hsecond] at heq
      cases heq
    · intro id hmem
      obtain ⟨owner, place, replaced, version, content, hpub⟩ :=
        h.succeeded id ((mem_concat hmem).resolve_right fun heq => nomatch heq)
      exact ⟨owner, place, replaced, version, content, mem_append_left _ hpub⟩

theorem fail (h : Lawful s log) (id : Nat) (code : FsErrorCode) : Lawful s (log ++ [.failed id code]) :=
  @tell _ _ (.failed id code) h (fun _ _ ⟨_, _, _, _, _, heq⟩ => nomatch heq)
    (fun _ _ _ heq => nomatch heq) (fun _ _ _ _ _ _ heq => nomatch heq)
    (fun _ _ _ _ _ heq => nomatch heq) (fun _ _ _ _ heq => nomatch heq) (fun _ heq => nomatch heq)

theorem finish {id : Nat} {call : FsCall} {observation : FsObservation} {before after : List FsEvent}
    (h : Lawful s log) (hdated : Dated s) (hcall : s.call? id = some call)
    (hsound : CallSound s log id call) (hobserves : Observes id call observation before after) :
    Lawful ((s.go id { call with phase := .finished }).observe call.owner call.target observation).1
      (log ++ (before ++ ((s.go id { call with phase := .finished }).observe call.owner call.target
        observation).2 ++ after)) := by
  have hended : Lawful (s.go id { call with phase := .finished }) log :=
    h.keep (.same hdated rfl rfl) rfl (callsGoOn_go hcall (fun _ => call?_go hcall) rfl rfl fun _ h => h)
  have hstanding := hsound.standing
  cases hobserves with
  | missing hphase =>
    rw [nil_append, ← append_assoc]
    have hobserved := @observe _ _ call.owner call.target .absent hended (fun _ heq => nomatch heq)
      fun _ _ _ heq => nomatch heq
    exact hobserved.fail id .notFound
  | @loaded version content hphase =>
    rw [hphase] at hstanding
    have htold : Lawful (s.go id { call with phase := .finished })
        (log ++ [.returned id call.owner call.target version content]) :=
      @tell _ _ (.returned id call.owner call.target version content) hended
        (fun _ _ ⟨_, _, _, _, _, heq⟩ => nomatch heq) (fun _ _ _ heq => nomatch heq)
        (fun _ _ _ _ _ _ heq => nomatch heq)
        (fun _ _ _ _ _ heq => by cases heq; exact ⟨hstanding.1.mem, hstanding.2⟩)
        (fun _ _ _ _ heq => nomatch heq) (fun _ heq => nomatch heq)
    rw [append_nil, ← append_assoc]
    refine htold.observe ?_ ?_
    · intro version' heq
      cases heq
      exact ⟨hstanding.1.mem, hstanding.1.current.imp_right Replaced.append⟩
    · intro session version' howner heq
      cases heq
      exact .inl ⟨id, content, mem_append_right _ (by rw [howner]; exact mem_cons_self)⟩
  | @written version hphase =>
    rw [hphase] at hstanding
    obtain ⟨hknown, content, replaced, hpublished⟩ := hstanding
    rw [nil_append, ← append_assoc]
    have hobserved := @observe _ _ call.owner call.target (.present version) hended (by
        intro version' heq
        cases heq
        exact ⟨hknown.mem, hknown.current⟩) (by
        intro session version' howner heq
        cases heq
        exact .inr ⟨id, replaced, content, by rw [← howner]; exact hpublished⟩)
    refine @tell _ _ (.succeeded id) hobserved (fun _ _ ⟨_, _, _, _, _, heq⟩ => nomatch heq)
      (fun _ _ _ heq => nomatch heq) (fun _ _ _ _ _ _ heq => nomatch heq)
      (fun _ _ _ _ _ heq => nomatch heq) (fun _ _ _ _ heq => nomatch heq) ?_
    intro other heq
    cases heq
    exact ⟨_, _, replaced, version, content, mem_append_left _ hpublished⟩

theorem moves (h : Lawful s log) (hdated : Dated s) (hcalls : ∀ id call, s.call? id = some call →
    CallSound s log id call) (hmoves : Moves s s' news) : Lawful s' (log ++ news) := by
  have hsame : ∀ s', s'.files = s.files → s'.versions = s.versions → Evolves s s' [] :=
    fun _ hfiles hversions => .same hdated hfiles hversions
  cases hmoves with
  | call owner target request =>
    rw [append_nil]
    exact h.keep (hsame _ rfl rfl) rfl fun id call hcall => ⟨call, call?_append hcall, rfl, rfl, fun _ h => h⟩
  | advance hcall hadvances =>
    rw [append_nil]
    exact h.keep (hsame _ rfl rfl) rfl (callsGoOn_go hcall (fun _ => call?_go hcall) rfl rfl fun _ h => h)
  | @intend id call intent hcall hphase hbasis =>
    have hnone : call.intent = none := by
      have hstanding := (hcalls id call hcall).standing
      rwa [hphase] at hstanding
    have hkept : Lawful (s.go id { call with phase := .guarded, intent := some intent }) log :=
      h.keep (hsame _ rfl rfl) rfl (callsGoOn_go hcall (fun _ => call?_go hcall) rfl rfl
        fun old hold => by simp [hnone] at hold)
    refine @tell _ _ (.guarded id call.owner call.target intent) hkept
      (fun _ _ ⟨_, _, _, _, _, heq⟩ => nomatch heq) (fun _ _ _ heq => nomatch heq)
      (fun _ _ _ _ _ _ heq => nomatch heq) (fun _ _ _ _ _ heq => nomatch heq) ?_
      (fun _ heq => nomatch heq)
    intro other owner target intent' heq
    cases heq
    exact ⟨_, (call?_go hcall).trans (if_pos rfl), rfl, rfl, rfl⟩
  | enqueue hcall hphase =>
    rw [append_nil]
    exact h.keep (hsame _ rfl rfl) rfl (callsGoOn_go hcall (fun _ => call?_go hcall) rfl rfl fun _ h => h)
  | mkdir hmade =>
    rw [append_nil]
    exact h.keep (.mkdir hdated hmade) rfl fun id call hcall => ⟨call, hcall, rfl, rfl, fun _ h => h⟩
  | publish hcall hphase hfresh hreplaced hintent =>
    exact h.publish hdated hcall (hcalls _ _ hcall) hphase hfresh hreplaced hintent
  | release hcall hphase _ =>
    rw [append_nil]
    exact h.keep (hsame _ rfl rfl) rfl (callsGoOn_go hcall (fun _ => call?_go hcall) rfl rfl fun _ h => h)
  | lose hcall hphase _ _ =>
    rw [append_nil]
    exact h.keep (hsame _ rfl rfl) rfl (callsGoOn_go hcall (fun _ => call?_go hcall) rfl rfl fun _ h => h)
  | @observe id call observation before after hcall hobserves =>
    exact h.finish hdated hcall (hcalls id call hcall) hobserves
  | @abandon id call code hcall _ =>
    have hkept : Lawful (s.abandon id call code).1 log := h.keep (hsame _ rfl rfl) rfl
      (callsGoOn_go hcall (fun _ => call?_go hcall) rfl rfl fun _ h => h)
    exact hkept.fail id code

theorem success (h : Lawful s log)
    (hcalls : ∀ id call, s.call? id = some call → CallSound s log id call)
    (hsucceeded : .succeeded call ∈ log) :
    ∃ owner target intent replaced version content,
      .guarded call owner target intent ∈ log ∧
      .published call owner target replaced version content ∈ log ∧
      ∀ basis, intent = .replaceIfVersion basis → ∃ previous, replaced = some (basis, previous) := by
  obtain ⟨owner, target, replaced, version, content, hpublished⟩ := h.succeeded call hsucceeded
  obtain ⟨record, intent, hcall, rfl, rfl, hintent, hbasis⟩ := h.matched _ _ _ _ _ _ hpublished
  obtain ⟨earlier, later, hlog, -⟩ := (hcalls call record hcall).chosen intent hintent
  refine ⟨_, _, intent, replaced, version, content, ?_, hpublished, hbasis⟩
  rw [hlog]
  exact mem_append_right _ mem_cons_self

theorem replaces_of_success (h : Lawful s log)
    (hcalls : ∀ id call, s.call? id = some call → CallSound s log id call) {owner : Option Nat}
    (hguarded : .guarded call owner target (.replaceIfVersion version) ∈ log)
    (hsucceeded : .succeeded call ∈ log) : ∃ previous new content,
      .published call owner target (some (version, previous)) new content ∈ log := by
  obtain ⟨owner', target', intent, replaced, new, content, hguarded', hpublished, hbasis⟩ :=
    h.success hcalls hsucceeded
  obtain ⟨record, hrecord, rfl, rfl, hintent⟩ := h.asked _ _ _ _ hguarded
  obtain ⟨record', hrecord', rfl, rfl, hintent'⟩ := h.asked _ _ _ _ hguarded'
  obtain rfl := Option.some.inj (hrecord.symm.trans hrecord')
  obtain rfl := Option.some.inj (hintent.symm.trans hintent')
  obtain ⟨previous, rfl⟩ := hbasis version rfl
  exact ⟨previous, new, content, hpublished⟩

theorem replaces_unique (h : Lawful s log) {first second : FsEvent}
    (hfirst : first ∈ log) (hsecond : second ∈ log) (hreplaces : first.Replaces target version)
    (hreplaces' : second.Replaces target version) : first = second := by
  by_contra hne
  have hsymm : Std.Symm FsEvent.Apart := ⟨fun _ _ hab target version hb ha => hab target version ha hb⟩
  exact h.once.forall hfirst hsecond hne target version hreplaces hreplaces'

theorem noBlindOverwrite (h : Lawful s log)
    (hcalls : ∀ id call, s.call? id = some call → CallSound s log id call) : NoBlindOverwrite log where
  replacements := h.grounded
  observations := h.observations
  successes _ hsucceeded := h.success hcalls hsucceeded
  once a b ownerA ownerB target version ha hb hsuccess hsuccess' := by
    obtain ⟨previous, new, content, hpublished⟩ := h.replaces_of_success hcalls ha hsuccess
    obtain ⟨previous', new', content', hpublished'⟩ := h.replaces_of_success hcalls hb hsuccess'
    have heq := h.replaces_unique hpublished hpublished' ⟨a, ownerA, previous, new, content, rfl⟩
      ⟨b, ownerB, previous', new', content', rfl⟩
    cases heq
    rfl

end Lawful

section Runs

variable {files : String → Option FsEntry} {s : FileTools} {log : List FsEvent}

theorem lawful_start : Lawful (.start files) [] where
  observed _ _ := rfl
  replaced _ _ hreplaced := by
    obtain ⟨_, _, _, _, _, hmem⟩ := hreplaced
    exact absurd hmem not_mem_nil
  published _ _ _ _ _ _ hmem := absurd hmem not_mem_nil
  returned _ _ _ _ _ hmem := absurd hmem not_mem_nil
  seen _ _ _ hmem := absurd hmem not_mem_nil
  asked _ _ _ _ hmem := absurd hmem not_mem_nil
  matched _ _ _ _ _ _ hmem := absurd hmem not_mem_nil
  grounded := throughout_nil
  observations := throughout_nil
  once := .nil
  succeeded _ hmem := absurd hmem not_mem_nil

theorem dated_start : Dated (.start files) := by
  intro target version content hfile
  have hstart : files target = some (.file version content) := hfile
  simp [FileTools.start, hstart]

theorem locked_start : Locked (.start files) :=
  ⟨fun _ _ hmem => absurd hmem not_mem_nil, fun _ => .nil, fun _ _ hcall => nomatch hcall⟩

structure Sound (s : FileTools) (log : List FsEvent) : Prop where
  dated : Dated s
  locked : Locked s
  calls : ∀ id call, s.call? id = some call → CallSound s log id call
  lawful : Lawful s log

theorem Sound.step {s' : FileTools} {news : List FsEvent} {a : FsAction} (h : Sound s log)
    (hfresh : FreshVersions s a) (hstep : s.step a = some (s', news)) : Sound s' (log ++ news) := by
  have hmoves := moves_of_step hfresh hstep
  exact {
    dated := hmoves.dated h.dated
    locked := h.locked.moves hmoves
    calls := hmoves.calls h.dated h.locked h.lawful.observed h.calls
    lawful := h.lawful.moves h.dated h.calls hmoves }

theorem sound (run : Reaches FileTools.step FreshVersions (.start files) s log) : Sound s log :=
  run.invariant ⟨dated_start, locked_start, fun _ _ hcall => (nomatch hcall), lawful_start⟩
    fun _ _ _ _ _ hsound hfresh hstep => hsound.step hfresh hstep

/-- Whatever calls sessions make, and in whatever order the pieces of the calls come, as long as
every publication makes a new version. -/
theorem no_blind_overwrite (run : Reaches FileTools.step FreshVersions (.start files) s log) :
    NoBlindOverwrite log :=
  (sound run).lawful.noBlindOverwrite (sound run).calls

/-- A session reads a file and replaces what it has read. -/
theorem no_blind_overwrite_read : ∃ log, NoBlindOverwrite log ∧
    .published 1 (some 0) "notes" (some ("v1", ⟨#[104, 105]⟩)) "v2" (encodeUtf8 ['o', 'k']) ∈ log ∧
    .succeeded 1 ∈ log := by
  have start : Reaches FileTools.step FreshVersions
      (.start fun target => if target = "notes" then some (.file "v1" ⟨#[104, 105]⟩) else none) _ _ :=
    .refl
  have read := (((start.next (.call (some 0) "notes" .read) trivial rfl).next (.stat 0) trivial rfl).next
    (.load 0) trivial rfl).next (.observe 0) trivial rfl
  have guarded := ((read.next (.call (some 0) "notes" (.write ['o', 'k'])) trivial rfl).next
    (.intend 1) trivial rfl).next (.enqueue 1) trivial rfl
  have staged := (guarded.next (.check 1) trivial rfl).next (.stage 1) trivial rfl
  have published := staged.next (.publish 1 "v2") (fun call hcall => by cases hcall; decide) rfl
  have run := (published.next (.release 1) trivial rfl).next (.observe 1) trivial rfl
  refine ⟨_, no_blind_overwrite run, ?_, ?_⟩
  · exact mem_append_left _ (mem_append_left _ (mem_append_right _ mem_cons_self))
  · exact mem_append_right _ (mem_cons_of_mem _ mem_cons_self)

end Runs

end DshKernel.Files
