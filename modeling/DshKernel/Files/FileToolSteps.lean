import DshKernel.Files.FileTools

/-!
# What a step of the file tools does
-/

namespace DshKernel.Files

open Lib Option FileTools

def Phase.inside : Phase → Bool
  | .checked | .staged _ | .published => true
  | _ => false

def Phase.waits : Phase → Bool
  | .queued => true
  | phase => phase.inside

inductive Advances (s : FileTools) (id : Nat) (call : FsCall) : Phase → Prop where
  | missing (hphase : call.phase = .started) : Advances s id call .missing
  | statted {version : String} {content : ByteArray} (hphase : call.phase = .started)
      (hfile : s.files call.target = some (.file version content)) : Advances s id call (.statted version)
  | loaded {version current : String} {content : ByteArray} (hphase : call.phase = .statted version)
      (hfile : s.files call.target = some (.file current content)) :
      Advances s id call (.loaded version content)
  | checked (hphase : call.phase = .queued) (hhead : (s.locks call.target).head? = some id)
      (hguard : admits call.intent (s.files call.target) = .ok ()) : Advances s id call .checked
  | staged (content : ByteArray) (hphase : call.phase = .checked) : Advances s id call (.staged content)

inductive Observes (id : Nat) (call : FsCall) : FsObservation → List FsEvent → List FsEvent → Prop where
  | missing (hphase : call.phase = .missing) : Observes id call .absent [] [.failed id .notFound]
  | loaded {version : String} {content : ByteArray} (hphase : call.phase = .loaded version content) :
      Observes id call (.present version) [.returned id call.owner call.target version content] []
  | written {version : String} (hphase : call.phase = .written version) :
      Observes id call (.present version) [] [.succeeded id]

inductive Moves (s : FileTools) : FileTools → List FsEvent → Prop where
  | call (owner : Option Nat) (target : String) (request : Request) :
      Moves s { s with calls := s.calls ++ [{ owner, target, request }] } []
  | advance {id : Nat} {call : FsCall} {phase : Phase} (hcall : s.call? id = some call)
      (hadvances : Advances s id call phase) : Moves s (s.go id { call with phase }) []
  | intend {id : Nat} {call : FsCall} {intent : FsWriteIntent} (hcall : s.call? id = some call)
      (hphase : call.phase = .started)
      (hbasis : ∀ version, intent = .replaceIfVersion version →
        ∃ owner, call.owner = some owner ∧ s.observed owner call.target = some (.present version)) :
      Moves s (s.go id { call with phase := .guarded, intent := some intent })
        [.guarded id call.owner call.target intent]
  | enqueue {id : Nat} {call : FsCall} (hcall : s.call? id = some call) (hphase : call.phase = .guarded) :
      Moves s { s.go id { call with phase := .queued } with
        locks := fun other =>
          if other = call.target then s.locks call.target ++ [id] else s.locks other } []
  | mkdir {made : List String} (hmade : ∀ place ∈ made, s.files place = none) :
      Moves s { s with files := fun other => if other ∈ made then some .other else s.files other } []
  | publish {id : Nat} {call : FsCall} {version : String} {content : ByteArray}
      {replaced : Option (String × ByteArray)} (hcall : s.call? id = some call)
      (hphase : call.phase = .staged content) (hfresh : version ∉ s.versions call.target)
      (hreplaced : s.files call.target = replaced.map fun file => .file file.1 file.2)
      (hintent : replaced.isSome = true → call.intent ≠ some .createIfAbsent) :
      Moves s ((s.put call.target version content).go id { call with phase := .published })
        [.published id call.owner call.target replaced version content]
  | release {id : Nat} {call : FsCall} {version : String} {content : ByteArray}
      (hcall : s.call? id = some call) (hphase : call.phase = .published)
      (hfile : s.files call.target = some (.file version content)) :
      Moves s ((s.go id { call with phase := .written version }).unlock id call.target) []
  /-- The file is gone after the publication. -/
  | lose {id : Nat} {call : FsCall} (hcall : s.call? id = some call) (hphase : call.phase = .published)
      (hfile : ∀ version content, s.files call.target ≠ some (.file version content)) (version : String) :
      Moves s ((s.go id { call with phase := .written version }).unlock id call.target) []
  | observe {id : Nat} {call : FsCall} {observation : FsObservation} {before after : List FsEvent}
      (hcall : s.call? id = some call) (hobserves : Observes id call observation before after) :
      Moves s ((s.go id { call with phase := .finished }).observe call.owner call.target observation).1
        (before ++ ((s.go id { call with phase := .finished }).observe call.owner call.target
          observation).2 ++ after)
  | abandon {id : Nat} {call : FsCall} (code : FsErrorCode) (hcall : s.call? id = some call)
      (hlock : call.phase.waits = true → (s.locks call.target).head? = some id ∨ call.phase.inside = true) :
      Moves s (s.abandon id call code).1 (s.abandon id call code).2

section Steps

variable {s s' : FileTools} {news : List FsEvent}

theorem Moves.of_some {result : FileTools × List FsEvent} (h : Moves s result.1 result.2)
    (heq : some result = some (s', news)) : Moves s s' news := by
  cases heq
  exact h

variable {owner : Option Nat} {target version : String}

theorem writeIntent_basis
    (h : s.writeIntent owner target = .replaceIfVersion version) :
    ∃ session, owner = some session ∧ s.observed session target = some (.present version) := by
  unfold writeIntent at h
  split at h
  · rename_i observed hobserved
    obtain ⟨session, howner, hpresent⟩ := bind_eq_some_iff.mp hobserved
    cases h
    exact ⟨session, howner, hpresent⟩
  · cases h

theorem editIntent_basis {intent : FsWriteIntent}
    (h : s.editIntent owner target = .ok intent) (hversion : intent = .replaceIfVersion version) :
    ∃ session, owner = some session ∧ s.observed session target = some (.present version) := by
  unfold editIntent at h
  split at h
  · cases h
  · cases h
  · rename_i observed hobserved
    obtain ⟨session, howner, hpresent⟩ := bind_eq_some_iff.mp hobserved
    cases h
    cases hversion
    exact ⟨session, howner, hpresent⟩

variable {id : Nat} {call : FsCall}

theorem Moves.giveUp (code : FsErrorCode) (hcall : s.call? id = some call)
    (hphase : call.phase.waits = false)
    (heq : some (s.abandon id call code) = some (s', news)) : Moves s s' news :=
  .of_some (.abandon code hcall fun hwaits => by simp [hphase] at hwaits) heq

theorem Moves.giveUpInside (code : FsErrorCode) (hcall : s.call? id = some call)
    (hphase : call.phase.inside = true)
    (heq : some (s.abandon id call code) = some (s', news)) : Moves s s' news :=
  .of_some (.abandon code hcall fun _ => .inr hphase) heq

theorem moves_of_stat (hcall : s.call? id = some call)
    (hstep : s.stepOf id call (.stat id) = some (s', news)) : Moves s s' news := by
  simp only [stepOf] at hstep
  split at hstep
  · rename_i hphase hrequest
    split at hstep
    · cases hstep
      exact .advance hcall (.missing hphase)
    · exact .giveUp _ hcall (by rw [hphase]; rfl) hstep
    · rename_i hfile
      cases hstep
      exact .advance hcall (.statted hphase hfile)
  · cases hstep

theorem moves_of_load (hcall : s.call? id = some call)
    (hstep : s.stepOf id call (.load id) = some (s', news)) : Moves s s' news := by
  simp only [stepOf] at hstep
  split at hstep
  · rename_i hphase
    split at hstep
    · exact .giveUp _ hcall (by rw [hphase]; rfl) hstep
    · exact .giveUp _ hcall (by rw [hphase]; rfl) hstep
    · rename_i hfile
      split at hstep
      · cases hstep
        exact .advance hcall (.loaded hphase hfile)
      · exact .giveUp _ hcall (by rw [hphase]; rfl) hstep
  · cases hstep

theorem moves_of_intend (hcall : s.call? id = some call)
    (hstep : s.stepOf id call (.intend id) = some (s', news)) : Moves s s' news := by
  simp only [stepOf] at hstep
  split at hstep
  · rename_i hphase hrequest
    cases hstep
    exact .intend hcall hphase fun version hversion => writeIntent_basis hversion
  · rename_i hphase hrequest
    split at hstep
    · exact .giveUp _ hcall (by rw [hphase]; rfl) hstep
    · rename_i hintent
      cases hstep
      exact .intend hcall hphase fun version hversion => editIntent_basis hintent hversion
  · cases hstep

theorem moves_of_enqueue (hcall : s.call? id = some call)
    (hstep : s.stepOf id call (.enqueue id) = some (s', news)) : Moves s s' news := by
  simp only [stepOf] at hstep
  split at hstep
  · rename_i hphase
    cases hstep
    exact .enqueue hcall hphase
  · cases hstep

theorem moves_of_check (hcall : s.call? id = some call)
    (hstep : s.stepOf id call (.check id) = some (s', news)) : Moves s s' news := by
  simp only [stepOf] at hstep
  split at hstep
  · rename_i hphase
    split at hstep
    · cases hstep
    · rename_i hhead
      have hhead := Decidable.not_not.mp hhead
      split at hstep
      · exact .of_some (.abandon _ hcall fun _ => .inl hhead) hstep
      · rename_i hguard
        cases hstep
        exact .advance hcall (.checked hphase hhead hguard)
  · cases hstep

theorem moves_of_mkdir {made : List String}
    (hstep : s.stepOf id call (.mkdir id made) = some (s', news)) : Moves s s' news := by
  simp only [stepOf] at hstep
  split at hstep
  · split at hstep
    · cases hstep
    · rename_i hmade
      cases hstep
      refine .mkdir fun place hplace => not_isSome_iff_eq_none.mp fun hsome => ?_
      exact hmade (.inr (List.any_eq_true.mpr ⟨place, hplace, hsome⟩))
  · cases hstep

theorem moves_of_stage (hcall : s.call? id = some call)
    (hstep : s.stepOf id call (.stage id) = some (s', news)) : Moves s s' news := by
  simp only [stepOf] at hstep
  split at hstep
  · rename_i hphase hrequest
    cases hstep
    exact .advance hcall (.staged _ hphase)
  · rename_i hphase hrequest
    split at hstep
    · split at hstep
      · exact .giveUpInside _ hcall (by rw [hphase]; rfl) hstep
      · cases hstep
        exact .advance hcall (.staged _ hphase)
    · exact .giveUpInside _ hcall (by rw [hphase]; rfl) hstep
  · cases hstep

theorem moves_of_publish (hcall : s.call? id = some call)
    (hfresh : version ∉ s.versions call.target)
    (hstep : s.stepOf id call (.publish id version) = some (s', news)) : Moves s s' news := by
  simp only [stepOf] at hstep
  split at hstep
  · rename_i hphase
    split at hstep
    · rename_i hnone
      cases hstep
      exact .publish hcall hphase hfresh hnone fun h => nomatch h
    · split at hstep
      · exact .giveUpInside _ hcall (by rw [hphase]; rfl) hstep
      · exact .giveUpInside _ hcall (by rw [hphase]; rfl) hstep
    · rename_i hfile
      split at hstep
      · exact .giveUpInside _ hcall (by rw [hphase]; rfl) hstep
      · rename_i hintent
        cases hstep
        exact .publish hcall hphase hfresh hfile fun _ => hintent
  · cases hstep

theorem moves_of_release (hcall : s.call? id = some call)
    (hstep : s.stepOf id call (.release id) = some (s', news)) : Moves s s' news := by
  simp only [stepOf] at hstep
  split at hstep
  · rename_i hphase
    split at hstep
    · rename_i hfile
      cases hstep
      exact .release hcall hphase hfile
    · rename_i hfile
      cases hstep
      exact .lose hcall hphase hfile _
  · cases hstep

theorem moves_of_observe (hcall : s.call? id = some call)
    (hstep : s.stepOf id call (.observe id) = some (s', news)) : Moves s s' news := by
  simp only [stepOf] at hstep
  split at hstep
  · rename_i hphase
    cases hstep
    exact .observe hcall (.missing hphase)
  · rename_i hphase
    have hmoves := Moves.observe hcall (.loaded hphase)
    rw [List.append_nil] at hmoves
    cases hstep
    exact hmoves
  · rename_i hphase
    cases hstep
    exact .observe hcall (.written hphase)
  · cases hstep

theorem moves_of_fail (hcall : s.call? id = some call)
    (hstep : s.stepOf id call (.fail id) = some (s', news)) : Moves s s' news := by
  simp only [stepOf] at hstep
  split at hstep
  · cases hstep
  · cases hstep
  · cases hstep
  · split at hstep
    · rename_i hhead
      exact .of_some (.abandon _ hcall fun _ => .inl hhead) hstep
    · cases hstep
  · rename_i hqueued
    refine .of_some (.abandon _ hcall fun hwaits => .inr ?_) hstep
    cases hphase : call.phase with
    | queued => exact absurd hphase hqueued
    | _ =>
      rw [hphase] at hwaits
      exact hwaits

theorem moves_of_step {a : FsAction} (hfresh : FreshVersions s a) (hstep : s.step a = some (s', news)) :
    Moves s s' news := by
  cases a with
  | call owner target request =>
    cases hstep
    exact .call owner target request
  | stat id =>
    obtain ⟨call, hcall, hstep⟩ := bind_eq_some_iff.mp hstep
    exact moves_of_stat hcall hstep
  | load id =>
    obtain ⟨call, hcall, hstep⟩ := bind_eq_some_iff.mp hstep
    exact moves_of_load hcall hstep
  | intend id =>
    obtain ⟨call, hcall, hstep⟩ := bind_eq_some_iff.mp hstep
    exact moves_of_intend hcall hstep
  | enqueue id =>
    obtain ⟨call, hcall, hstep⟩ := bind_eq_some_iff.mp hstep
    exact moves_of_enqueue hcall hstep
  | check id =>
    obtain ⟨call, hcall, hstep⟩ := bind_eq_some_iff.mp hstep
    exact moves_of_check hcall hstep
  | mkdir id made =>
    obtain ⟨call, hcall, hstep⟩ := bind_eq_some_iff.mp hstep
    exact moves_of_mkdir hstep
  | stage id =>
    obtain ⟨call, hcall, hstep⟩ := bind_eq_some_iff.mp hstep
    exact moves_of_stage hcall hstep
  | publish id version =>
    obtain ⟨call, hcall, hstep⟩ := bind_eq_some_iff.mp hstep
    exact moves_of_publish hcall (hfresh call hcall) hstep
  | release id =>
    obtain ⟨call, hcall, hstep⟩ := bind_eq_some_iff.mp hstep
    exact moves_of_release hcall hstep
  | observe id =>
    obtain ⟨call, hcall, hstep⟩ := bind_eq_some_iff.mp hstep
    exact moves_of_observe hcall hstep
  | fail id =>
    obtain ⟨call, hcall, hstep⟩ := bind_eq_some_iff.mp hstep
    exact moves_of_fail hcall hstep

end Steps

end DshKernel.Files
