import DshKernel.Files.FileToolSteps
import Mathlib.Data.List.Induction
import Mathlib.Data.List.Nodup

/-!
# Runs of the file tools

What sessions know of a file stays true until the file is replaced, since each publication gives it
a new version and the guard is checked under the lock that the publication holds.
-/

namespace DshKernel.Files

open Lib

def lastObserved (owner : Nat) (target : String) (log : List FsEvent) : Option FsObservation :=
  log.foldl (fun last event =>
    match event with
    | .observed other place observation => if owner = other ∧ target = place then some observation else last
    | _ => last) none

def Replaced (log : List FsEvent) (target version : String) : Prop :=
  ∃ call owner previous new content,
    .published call owner target (some (version, previous)) new content ∈ log

structure Known (s : FileTools) (log : List FsEvent) (target version : String) : Prop where
  mem : version ∈ s.versions target
  current : (∃ content, s.files target = some (.file version content)) ∨ Replaced log target version

def Holds (s : FileTools) (target version : String) (content : ByteArray) : Prop :=
  ∀ current, s.files target = some (.file version current) → current = content

def Chosen (log : List FsEvent) (id : Nat) (owner : Option Nat) (target : String)
    (intent : FsWriteIntent) : Prop :=
  ∃ earlier later, log = earlier ++ .guarded id owner target intent :: later ∧
    ∀ version, intent = .replaceIfVersion version → ∃ session, owner = some session ∧
      lastObserved session target earlier = some (.present version)

section Log

variable {log more : List FsEvent} {owner : Nat} {target version : String}

theorem Replaced.append (h : Replaced log target version) : Replaced (log ++ more) target version := by
  obtain ⟨call, owner, previous, new, content, hmem⟩ := h
  exact ⟨call, owner, previous, new, content, List.mem_append_left _ hmem⟩

theorem Chosen.append {id : Nat} {owner : Option Nat} {intent : FsWriteIntent}
    (h : Chosen log id owner target intent) : Chosen (log ++ more) id owner target intent := by
  obtain ⟨earlier, later, hlog, hbasis⟩ := h
  exact ⟨earlier, later ++ more, by rw [hlog, List.append_assoc, List.cons_append], hbasis⟩

theorem Chosen.session {id : Nat} {owner : Option Nat}
    (h : Chosen log id owner target (.replaceIfVersion version)) : ∃ session, owner = some session := by
  obtain ⟨_, _, -, hbasis⟩ := h
  obtain ⟨session, howner, -⟩ := hbasis version rfl
  exact ⟨session, howner⟩

theorem lastObserved_append :
    lastObserved owner target (log ++ more) =
      more.foldl (fun last event =>
        match event with
        | .observed other place observation =>
          if owner = other ∧ target = place then some observation else last
        | _ => last) (lastObserved owner target log) :=
  List.foldl_append ..

def Quiet (news : List FsEvent) : Prop := ∀ owner target observation, .observed owner target observation ∉ news

theorem lastObserved_quiet (hquiet : Quiet more) :
    lastObserved owner target (log ++ more) = lastObserved owner target log := by
  rw [lastObserved_append]
  induction more with
  | nil => rfl
  | cons event rest ih =>
    have hrest : Quiet rest := fun owner target observation hmem =>
      hquiet owner target observation (List.mem_cons_of_mem _ hmem)
    cases event with
    | observed other place observation => exact absurd List.mem_cons_self (hquiet other place observation)
    | _ => exact ih hrest

end Log

structure Evolves (s s' : FileTools) (news : List FsEvent) : Prop where
  versions : ∀ target version, version ∈ s.versions target → version ∈ s'.versions target
  kept : ∀ target version content, s.files target = some (.file version content) →
    s'.files target = some (.file version content) ∨ Replaced news target version
  made : ∀ target version content, s'.files target = some (.file version content) →
    version ∈ s'.versions target ∧
      (s.files target = some (.file version content) ∨ version ∉ s.versions target)

namespace Evolves

variable {s s' : FileTools} {log news : List FsEvent} {target version : String} {content : ByteArray}

theorem known (h : Evolves s s' news) (hknown : Known s log target version) :
    Known s' (log ++ news) target version := by
  refine ⟨h.versions _ _ hknown.mem, ?_⟩
  rcases hknown.current with ⟨content, hfile⟩ | hreplaced
  · rcases h.kept _ _ _ hfile with hsame | ⟨call, owner, previous, new, fresh, hmem⟩
    · exact .inl ⟨content, hsame⟩
    · exact .inr ⟨call, owner, previous, new, fresh, List.mem_append_right _ hmem⟩
  · exact .inr hreplaced.append

theorem holds (h : Evolves s s' news) (hmem : version ∈ s.versions target)
    (hholds : Holds s target version content) : Holds s' target version content := by
  intro current hcurrent
  rcases (h.made _ _ _ hcurrent).2 with hsame | hnew
  · exact hholds current hsame
  · exact absurd hmem hnew

end Evolves

section Calls

variable {s : FileTools} {id other : Nat} {call next : FsCall}

theorem call?_go (hcall : s.call? id = some call) :
    (s.go id next).call? other = if id = other then some next else s.call? other := by
  have hlt : id < s.calls.length := (List.getElem?_eq_some_iff.mp hcall).1
  simp only [FileTools.go, FileTools.call?, List.getElem?_set, if_pos hlt]

theorem call?_observe {owner : Option Nat} {target : String} {observation : FsObservation} :
    (s.observe owner target observation).1.call? other = s.call? other := by
  cases owner <;> rfl

theorem files_observe {owner : Option Nat} {target : String} {observation : FsObservation} :
    (s.observe owner target observation).1.files = s.files ∧
      (s.observe owner target observation).1.versions = s.versions ∧
      (s.observe owner target observation).1.locks = s.locks := by
  cases owner <;> exact ⟨rfl, rfl, rfl⟩

theorem call?_append {new : FsCall} (hcall : s.call? id = some call) :
    ({ s with calls := s.calls ++ [new] } : FileTools).call? id = some call := by
  have hlt : id < s.calls.length := (List.getElem?_eq_some_iff.mp hcall).1
  change (s.calls ++ [new])[id]? = some call
  rw [List.getElem?_append_left hlt]
  exact hcall

theorem call?_append_cases {new : FsCall}
    (hcall : ({ s with calls := s.calls ++ [new] } : FileTools).call? id = some call) :
    s.call? id = some call ∨ id = s.calls.length ∧ call = new := by
  have hcall : (s.calls ++ [new])[id]? = some call := hcall
  rcases Nat.lt_trichotomy id s.calls.length with hlt | heq | hgt
  · rw [List.getElem?_append_left hlt] at hcall
    exact .inl hcall
  · subst heq
    rw [List.getElem?_concat_length] at hcall
    exact .inr ⟨rfl, (Option.some.inj hcall).symm⟩
  · rw [List.getElem?_eq_none (by simp; omega)] at hcall
    cases hcall

end Calls

def Dated (s : FileTools) : Prop :=
  ∀ target version content, s.files target = some (.file version content) → version ∈ s.versions target

section Evolves

variable {s s' : FileTools} {news : List FsEvent}

theorem Evolves.same (hdated : Dated s) (hfiles : s'.files = s.files) (hversions : s'.versions = s.versions) :
    Evolves s s' news where
  versions target version hmem := hversions ▸ hmem
  kept target version content hfile := .inl (hfiles ▸ hfile)
  made target version content hfile := by
    rw [hfiles] at hfile
    rw [hversions]
    exact ⟨hdated _ _ _ hfile, .inl hfile⟩

theorem Evolves.mkdir (hdated : Dated s) {made : List String} (hmade : ∀ place ∈ made, s.files place = none) :
    Evolves s { s with files := fun other => if other ∈ made then some .other else s.files other } [] where
  versions target version hmem := hmem
  kept target version content hfile := by
    refine .inl ?_
    dsimp only
    rw [if_neg fun hmem => by simp [hmade target hmem] at hfile]
    exact hfile
  made target version content hfile := by
    dsimp only at hfile
    split at hfile
    · cases hfile
    · exact ⟨hdated _ _ _ hfile, .inl hfile⟩

theorem Evolves.put (hdated : Dated s) {id : Nat} {owner : Option Nat} {target version : String}
    {content : ByteArray} {replaced : Option (String × ByteArray)} (hfresh : version ∉ s.versions target)
    (hreplaced : s.files target = replaced.map fun file => .file file.1 file.2) :
    Evolves s (s.put target version content) [.published id owner target replaced version content] where
  versions other old hmem := by
    change old ∈ (if other = target then version :: s.versions target else s.versions other)
    split
    · rename_i heq
      exact List.mem_cons_of_mem _ (heq ▸ hmem)
    · exact hmem
  kept other old previous hfile := by
    by_cases heq : other = target
    · subst heq
      rw [hfile] at hreplaced
      cases replaced with
      | none => cases hreplaced
      | some file =>
        cases hreplaced
        exact .inr ⟨id, owner, file.2, version, content, List.mem_cons_self⟩
    · refine .inl ?_
      change (if other = target then _ else s.files other) = _
      rw [if_neg heq]
      exact hfile
  made other old previous hfile := by
    change (if other = target then _ else s.files other) = _ at hfile
    change old ∈ (if other = target then version :: s.versions target else s.versions other) ∧ _
    split at hfile
    · rename_i heq
      subst heq
      cases hfile
      rw [if_pos rfl]
      exact ⟨List.mem_cons_self, .inr hfresh⟩
    · rename_i hne
      rw [if_neg hne]
      exact ⟨hdated _ _ _ hfile, .inl hfile⟩

theorem Moves.evolves (h : Moves s s' news) (hdated : Dated s) : Evolves s s' news := by
  cases h with
  | mkdir hmade => exact .mkdir hdated hmade
  | publish hcall hphase hfresh hreplaced hintent =>
    obtain ⟨hversions, hkept, hmade⟩ := Evolves.put hdated hfresh hreplaced
    exact ⟨hversions, hkept, hmade⟩
  | observe hcall hobserves => exact .same hdated files_observe.1 files_observe.2.1
  | _ => exact .same hdated rfl rfl

theorem Moves.dated (h : Moves s s' news) (hdated : Dated s) : Dated s' :=
  fun _ _ _ hfile => ((h.evolves hdated).made _ _ _ hfile).1

end Evolves

structure Locked (s : FileTools) : Prop where
  queue : ∀ target id, id ∈ s.locks target → ∃ call, s.call? id = some call ∧ call.target = target ∧
    call.phase.waits = true
  nodup : ∀ target, (s.locks target).Nodup
  head : ∀ id call, s.call? id = some call → call.phase.inside = true →
    (s.locks call.target).head? = some id

namespace Locked

variable {s s' : FileTools} {id : Nat} {call : FsCall} {news : List FsEvent}

theorem unique (h : Locked s) {other : Nat} {call' : FsCall} (hcall : s.call? id = some call)
    (hcall' : s.call? other = some call') (htarget : call'.target = call.target)
    (hinside : call.phase.inside = true) (hinside' : call'.phase.inside = true) : other = id := by
  have hhead := h.head id call hcall hinside
  have hhead' := h.head other call' hcall' hinside'
  rw [htarget, hhead] at hhead'
  exact (Option.some.inj hhead').symm

theorem not_mem (h : Locked s) (hcall : s.call? id = some call) (hwaits : call.phase.waits = false)
    (target : String) : id ∉ s.locks target := by
  intro hmem
  obtain ⟨call', hcall', -, hwaits'⟩ := h.queue target id hmem
  obtain rfl := Option.some.inj (hcall.symm.trans hcall')
  rw [hwaits] at hwaits'
  cases hwaits'

theorem go (h : Locked s) {next : FsCall} (hcall : s.call? id = some call)
    (htarget : next.target = call.target) (hwaits : next.phase.waits = call.phase.waits)
    (hinside : next.phase.inside = true → (s.locks call.target).head? = some id) :
    Locked (s.go id next) where
  queue target other hmem := by
    obtain ⟨call', hcall', htarget', hwaits'⟩ := h.queue target other hmem
    rw [call?_go hcall]
    split
    · rename_i heq
      subst heq
      obtain rfl := Option.some.inj (hcall.symm.trans hcall')
      exact ⟨next, rfl, htarget.trans htarget', hwaits.trans hwaits'⟩
    · exact ⟨call', hcall', htarget', hwaits'⟩
  nodup := h.nodup
  head other call' hcall' hinside' := by
    rw [call?_go hcall] at hcall'
    split at hcall'
    · rename_i heq
      cases hcall'
      rw [htarget, ← heq]
      exact hinside hinside'
    · exact h.head other call' hcall' hinside'

theorem leave (h : Locked s) {next : FsCall} (hcall : s.call? id = some call)
    (htarget : next.target = call.target) (hwaits : next.phase.waits = false)
    (hfirst : id ∈ s.locks call.target → (s.locks call.target).head? = some id) :
    Locked ((s.go id next).unlock id call.target) where
  queue target other hmem := by
    change other ∈ (if target = call.target then (s.locks call.target).erase id else s.locks target) at hmem
    have hold : other ∈ s.locks target ∧ other ≠ id := by
      split at hmem
      · rename_i heq
        subst heq
        have hne : other ≠ id := by
          rintro rfl
          exact (h.nodup call.target).not_mem_erase hmem
        exact ⟨List.mem_of_mem_erase hmem, hne⟩
      · rename_i hne
        refine ⟨hmem, ?_⟩
        rintro rfl
        obtain ⟨call', hcall', htarget', -⟩ := h.queue target other hmem
        obtain rfl := Option.some.inj (hcall.symm.trans hcall')
        exact hne htarget'.symm
    obtain ⟨call', hcall', htarget', hwaits'⟩ := h.queue target other hold.1
    refine ⟨call', ?_, htarget', hwaits'⟩
    change (s.go id next).call? other = some call'
    rw [call?_go hcall, if_neg hold.2.symm]
    exact hcall'
  nodup target := by
    change (if target = call.target then (s.locks call.target).erase id else s.locks target).Nodup
    split
    · exact (h.nodup _).erase id
    · exact h.nodup target
  head other call' hcall' hinside := by
    have hcall' : (s.go id next).call? other = some call' := hcall'
    rw [call?_go hcall] at hcall'
    change (if call'.target = call.target then (s.locks call.target).erase id
      else s.locks call'.target).head? = some other
    split at hcall'
    · cases hcall'
      have hout : next.phase.waits = true := by
        cases hphase : next.phase <;> rw [hphase] at hinside <;> first | rfl | cases hinside
      rw [hwaits] at hout
      cases hout
    · rename_i hne
      have hhead := h.head other call' hcall' hinside
      split
      · rename_i heq
        rw [heq] at hhead
        have hmem : id ∉ s.locks call.target := by
          intro hmem
          have hfirst := hfirst hmem
          rw [hhead] at hfirst
          exact hne (Option.some.inj hfirst).symm
        rw [List.erase_of_not_mem hmem]
        exact hhead
      · exact hhead

theorem join (h : Locked s) {next : FsCall} (hcall : s.call? id = some call)
    (htarget : next.target = call.target) (hout : call.phase.waits = false)
    (hwaits : next.phase.waits = true) (hinside : next.phase.inside = false) :
    Locked { s.go id next with
      locks := fun other =>
        if other = call.target then s.locks call.target ++ [id] else s.locks other } where
  queue target other hmem := by
    change other ∈ (if target = call.target then s.locks call.target ++ [id] else s.locks target) at hmem
    change ∃ call', (s.go id next).call? other = some call' ∧ _
    rw [call?_go hcall]
    have hcases : other = id ∧ target = call.target ∨ other ∈ s.locks target := by
      split at hmem
      · rename_i heq
        rcases List.mem_append.mp hmem with hold | hnew
        · exact .inr (heq ▸ hold)
        · exact .inl ⟨List.mem_singleton.mp hnew, heq⟩
      · exact .inr hmem
    rcases hcases with ⟨rfl, rfl⟩ | hold
    · rw [if_pos rfl]
      exact ⟨next, rfl, htarget, hwaits⟩
    · rw [if_neg fun heq : id = other => h.not_mem hcall hout target (heq ▸ hold)]
      exact h.queue target other hold
  nodup target := by
    change (if target = call.target then s.locks call.target ++ [id] else s.locks target).Nodup
    split
    · refine (h.nodup _).append (List.nodup_singleton id) ?_
      rintro other hmem hnew
      rw [List.mem_singleton.mp hnew] at hmem
      exact h.not_mem hcall hout _ hmem
    · exact h.nodup target
  head other call' hcall' hin := by
    change (s.go id next).call? other = some call' at hcall'
    change (if call'.target = call.target then s.locks call.target ++ [id]
      else s.locks call'.target).head? = some other
    rw [call?_go hcall] at hcall'
    split at hcall'
    · cases hcall'
      rw [hinside] at hin
      cases hin
    · have hhead := h.head other call' hcall' hin
      split
      · rename_i heq
        rw [heq] at hhead
        rw [List.head?_append, hhead]
        rfl
      · exact hhead

theorem congr (h : Locked s) (hcalls : ∀ other, s'.call? other = s.call? other)
    (hlocks : s'.locks = s.locks) : Locked s' where
  queue target other hmem := by
    rw [hcalls]
    exact h.queue target other (hlocks ▸ hmem)
  nodup target := hlocks ▸ h.nodup target
  head other call' hcall' hinside := by
    rw [hlocks]
    exact h.head other call' (hcalls other ▸ hcall') hinside

theorem advance (h : Locked s) {phase : Phase} (hcall : s.call? id = some call)
    (hadvances : Advances s id call phase) : Locked (s.go id { call with phase }) := by
  cases hadvances with
  | missing hphase => exact h.go hcall rfl (by rw [hphase]; rfl) fun hinside => nomatch hinside
  | statted hphase _ => exact h.go hcall rfl (by rw [hphase]; rfl) fun hinside => nomatch hinside
  | loaded hphase _ => exact h.go hcall rfl (by rw [hphase]; rfl) fun hinside => nomatch hinside
  | checked hphase hhead _ => exact h.go hcall rfl (by rw [hphase]; rfl) fun _ => hhead
  | staged _ hphase =>
    exact h.go hcall rfl (by rw [hphase]; rfl) fun _ => h.head id call hcall (by rw [hphase]; rfl)

theorem moves (h : Locked s) (hmoves : Moves s s' news) : Locked s' := by
  cases hmoves with
  | call owner target request =>
    refine ⟨fun place other hmem => ?_, h.nodup, fun other call' hcall' hinside => ?_⟩
    · obtain ⟨call', hcall', hrest⟩ := h.queue place other hmem
      exact ⟨call', call?_append hcall', hrest⟩
    · rcases call?_append_cases hcall' with hold | ⟨-, rfl⟩
      · exact h.head other call' hold hinside
      · cases hinside
  | advance hcall hadvances => exact h.advance hcall hadvances
  | intend hcall hphase _ =>
    exact h.go hcall rfl (by rw [hphase]; rfl) fun hinside => nomatch hinside
  | enqueue hcall hphase => exact h.join hcall rfl (by rw [hphase]; rfl) rfl rfl
  | mkdir _ => exact h.congr (fun _ => rfl) rfl
  | @publish id call version content replaced hcall hphase _ _ _ =>
    have hput : Locked (s.put call.target version content) := h.congr (fun _ => rfl) rfl
    refine hput.go hcall rfl (by rw [hphase]; rfl) fun _ => ?_
    exact h.head id call hcall (by rw [hphase]; rfl)
  | release hcall hphase _ =>
    exact h.leave hcall rfl rfl fun _ => h.head _ _ hcall (by rw [hphase]; rfl)
  | lose hcall hphase _ _ =>
    exact h.leave hcall rfl rfl fun _ => h.head _ _ hcall (by rw [hphase]; rfl)
  | @observe id call observation before after hcall hobserves =>
    have hout : call.phase.waits = false := by
      cases hobserves with
      | missing hphase | loaded hphase | written hphase =>
        rw [hphase]
        rfl
    have hgo : Locked (s.go id { call with phase := .finished }) :=
      h.go hcall rfl hout.symm fun hinside => nomatch hinside
    exact hgo.congr (fun _ => call?_observe) files_observe.2.2
  | @abandon id call code hcall hlock =>
    refine h.leave hcall rfl rfl fun hmem => ?_
    obtain ⟨call', hcall', -, hwaits⟩ := h.queue _ _ hmem
    obtain rfl := Option.some.inj (hcall.symm.trans hcall')
    exact (hlock hwaits).elim (fun hfirst => hfirst) fun hinside => h.head _ _ hcall hinside

end Locked

def Published (log : List FsEvent) (id : Nat) (call : FsCall) (version : String) (content : ByteArray) :
    Prop :=
  ∃ replaced, .published id call.owner call.target replaced version content ∈ log

def Standing (s : FileTools) (log : List FsEvent) (id : Nat) (call : FsCall) : Phase → Prop
  | .started => call.intent = none
  | .missing | .finished => True
  | .statted version => Known s log call.target version
  | .loaded version content => Known s log call.target version ∧ Holds s call.target version content
  | .guarded | .queued => call.intent.isSome = true
  | .checked | .staged _ => ∃ intent, call.intent = some intent ∧ ∀ version,
      intent = .replaceIfVersion version → ∃ content, s.files call.target = some (.file version content)
  | .published => ∃ version content, s.files call.target = some (.file version content) ∧
      Published log id call version content
  | .written version => Known s log call.target version ∧ ∃ content, Published log id call version content

structure CallSound (s : FileTools) (log : List FsEvent) (id : Nat) (call : FsCall) : Prop where
  chosen : ∀ intent, call.intent = some intent → Chosen log id call.owner call.target intent
  standing : Standing s log id call call.phase

section CallSound

variable {s s' : FileTools} {log news : List FsEvent} {id : Nat} {call : FsCall}

theorem Published.append {version : String} {content : ByteArray} (h : Published log id call version content) :
    Published (log ++ news) id call version content := by
  obtain ⟨replaced, hmem⟩ := h
  exact ⟨replaced, List.mem_append_left _ hmem⟩

theorem CallSound.keep (h : CallSound s log id call) (hevolves : Evolves s s' news)
    (hfile : call.phase.inside = true → ∀ version content,
      s.files call.target = some (.file version content) →
      s'.files call.target = some (.file version content)) :
    CallSound s' (log ++ news) id call := by
  refine ⟨fun intent hintent => (h.chosen intent hintent).append, ?_⟩
  have hstanding := h.standing
  cases hphase : call.phase with
  | started | missing | finished | guarded | queued =>
    rw [hphase] at hstanding
    exact hstanding
  | statted version =>
    rw [hphase] at hstanding
    exact hevolves.known hstanding
  | loaded version content =>
    rw [hphase] at hstanding
    exact ⟨hevolves.known hstanding.1, hevolves.holds hstanding.1.mem hstanding.2⟩
  | checked | staged _ =>
    rw [hphase] at hstanding hfile
    obtain ⟨intent, hintent, hguard⟩ := hstanding
    refine ⟨intent, hintent, fun version hversion => ?_⟩
    obtain ⟨content, hcontent⟩ := hguard version hversion
    exact ⟨content, hfile rfl version content hcontent⟩
  | published =>
    rw [hphase] at hstanding hfile
    obtain ⟨version, content, hcontent, hpublished⟩ := hstanding
    exact ⟨version, content, hfile rfl version content hcontent, hpublished.append⟩
  | written version =>
    rw [hphase] at hstanding
    obtain ⟨hknown, content, hpublished⟩ := hstanding
    exact ⟨hevolves.known hknown, content, hpublished.append⟩

theorem calls_go {next : FsCall} (h : ∀ other call', s.call? other = some call' → CallSound s log other call')
    (hevolves : Evolves s s' news)
    (hcalls : ∀ other, s'.call? other = if id = other then some next else s.call? other)
    (hfile : ∀ other call', s.call? other = some call' → other ≠ id → call'.phase.inside = true →
      ∀ version content, s.files call'.target = some (.file version content) →
        s'.files call'.target = some (.file version content))
    (hnext : CallSound s' (log ++ news) id next) :
    ∀ other call', s'.call? other = some call' → CallSound s' (log ++ news) other call' := by
  intro other call' hcall'
  rw [hcalls] at hcall'
  split at hcall'
  · rename_i heq
    cases hcall'
    exact heq ▸ hnext
  · rename_i hne
    exact (h other call' hcall').keep hevolves (hfile other call' hcall' fun heq => hne heq.symm)

theorem file_of_admits {intent : Option FsWriteIntent} {entry : Option FsEntry} {version : String}
    (hguard : FileTools.admits intent entry = .ok ()) (hintent : intent = some (.replaceIfVersion version)) :
    ∃ content, entry = some (.file version content) := by
  subst hintent
  match entry, hguard with
  | some (.file current content), hguard =>
    by_cases heq : current = version
    · exact ⟨content, by rw [heq]⟩
    · simp [FileTools.admits, heq] at hguard

theorem CallSound.advance {phase : Phase} (h : CallSound s log id call) (hdated : Dated s)
    (hadvances : Advances s id call phase) : CallSound s log id { call with phase } := by
  refine ⟨h.chosen, ?_⟩
  have hstanding := h.standing
  cases hadvances with
  | missing hphase => exact trivial
  | statted hphase hfile => exact ⟨hdated _ _ _ hfile, .inl ⟨_, hfile⟩⟩
  | loaded hphase hfile =>
    rw [hphase] at hstanding
    refine ⟨hstanding, fun current hcurrent => ?_⟩
    change s.files call.target = _ at hcurrent
    rw [hfile] at hcurrent
    cases hcurrent
    rfl
  | checked hphase hhead hguard =>
    rw [hphase] at hstanding
    obtain ⟨intent, hintent⟩ := Option.isSome_iff_exists.mp hstanding
    exact ⟨intent, hintent, fun version hversion => file_of_admits hguard (hversion ▸ hintent)⟩
  | staged _ hphase =>
    rw [hphase] at hstanding
    exact hstanding

end CallSound

section Calls

variable {s s' : FileTools} {log news : List FsEvent}

theorem put_kept (hlocked : Locked s) {id : Nat} {call : FsCall} {version : String} {content : ByteArray}
    (hcall : s.call? id = some call) (hphase : call.phase.inside = true) (other : Nat) (call' : FsCall)
    (hcall' : s.call? other = some call') (hne : other ≠ id) (hinside : call'.phase.inside = true)
    (old : String) (previous : ByteArray) (hfile : s.files call'.target = some (.file old previous)) :
    (s.put call.target version content).files call'.target = some (.file old previous) := by
  change (if call'.target = call.target then _ else s.files call'.target) = _
  rw [if_neg fun htarget => hne (hlocked.unique hcall hcall' htarget hphase hinside)]
  exact hfile

theorem Moves.calls (hmoves : Moves s s' news) (hdated : Dated s) (hlocked : Locked s)
    (hobserved : ∀ owner target, s.observed owner target = lastObserved owner target log)
    (h : ∀ id call, s.call? id = some call → CallSound s log id call) :
    ∀ id call, s'.call? id = some call → CallSound s' (log ++ news) id call := by
  have hevolves := hmoves.evolves hdated
  cases hmoves with
  | call owner target request =>
    intro id call hcall
    rcases call?_append_cases hcall with hold | ⟨-, rfl⟩
    · exact (h id call hold).keep hevolves fun _ _ _ hfile => hfile
    · exact ⟨fun _ hintent => (nomatch hintent), rfl⟩
  | advance hcall hadvances =>
    refine calls_go h hevolves (fun _ => call?_go hcall) (fun _ _ _ _ _ _ _ hfile => hfile) ?_
    exact ((h _ _ hcall).advance hdated hadvances).keep hevolves fun _ _ _ hfile => hfile
  | @intend id call intent hcall hphase hbasis =>
    refine calls_go h hevolves (fun _ => call?_go hcall) (fun _ _ _ _ _ _ _ hfile => hfile) ?_
    refine ⟨fun intent' hintent' => ?_, rfl⟩
    cases hintent'
    refine ⟨log, [], rfl, fun version hversion => ?_⟩
    obtain ⟨owner, howner, hpresent⟩ := hbasis version hversion
    exact ⟨owner, howner, by rw [← hobserved]; exact hpresent⟩
  | enqueue hcall hphase =>
    refine calls_go h hevolves (fun _ => call?_go hcall) (fun _ _ _ _ _ _ _ hfile => hfile) ?_
    have hstanding := (h _ _ hcall).standing
    rw [hphase] at hstanding
    exact ⟨fun intent hintent => ((h _ _ hcall).chosen intent hintent).append, hstanding⟩
  | @mkdir made hmade =>
    intro id call hcall
    refine (h id call hcall).keep hevolves fun _ version content hfile => ?_
    dsimp only
    rw [if_neg fun hmem => by simp [hmade _ hmem] at hfile]
    exact hfile
  | @publish id call version content replaced hcall hphase _ _ _ =>
    refine calls_go h hevolves (fun _ => call?_go hcall) ?_ ?_
    · exact put_kept hlocked hcall (by rw [hphase]; rfl)
    · refine ⟨fun intent hintent => ((h _ _ hcall).chosen intent hintent).append, version, content, ?_, ?_⟩
      · exact if_pos rfl
      · exact ⟨replaced, List.mem_append_right _ List.mem_cons_self⟩
  | @release id call version content hcall hphase hfile =>
    refine calls_go h hevolves (fun _ => call?_go hcall) (fun _ _ _ _ _ _ _ hfile => hfile) ?_
    have hstanding := (h _ _ hcall).standing
    rw [hphase] at hstanding
    obtain ⟨current, content', hcurrent, hpublished⟩ := hstanding
    rw [hfile] at hcurrent
    cases hcurrent
    rw [List.append_nil]
    exact ⟨(h _ _ hcall).chosen, ⟨hdated _ _ _ hfile, .inl ⟨content, hfile⟩⟩, content, hpublished⟩
  | lose hcall hphase hfile version =>
    have hstanding := (h _ _ hcall).standing
    rw [hphase] at hstanding
    obtain ⟨current, content, hcurrent, -⟩ := hstanding
    exact absurd hcurrent (hfile current content)
  | @observe id call observation before after hcall hobserves =>
    refine calls_go h hevolves (fun _ => call?_observe.trans (call?_go hcall)) ?_ ?_
    · intro _ call' _ _ _ version content hfile
      rw [files_observe.1]
      exact hfile
    · exact ⟨fun intent hintent => ((h _ _ hcall).chosen intent hintent).append, trivial⟩
  | abandon code hcall hlock =>
    refine calls_go h hevolves (fun _ => call?_go hcall) (fun _ _ _ _ _ _ _ hfile => hfile) ?_
    exact ⟨fun intent hintent => ((h _ _ hcall).chosen intent hintent).append, trivial⟩

end Calls

end DshKernel.Files
