import DshKernel.Agent.RequestRuns

/-!
# The wakes of messages

A message that wakes is owed a turn: by the driver that is live, or by the one that a latch will
start. An abort, a rejected or empty start of a turn and a failure park what is not latched.
-/

namespace DshKernel.Agent

open Js Lib Session Llm List
set_option maxRecDepth 4096

structure WakeTrack where
  live : List String := []
  latched : List String := []
  aborted : Bool := false
  closing : Bool := false

namespace WakeTrack

def owed (track : WakeTrack) : List String := track.live ++ track.latched

def send (track : WakeTrack) (id : String) (latched : Bool) : WakeTrack :=
  if latched then { track with latched := track.latched ++ [id] }
  else if track.aborted || track.closing then track
  else { track with live := track.live ++ [id] }

def withdraw (track : WakeTrack) (ids : List String) : WakeTrack :=
  { track with
    live := track.live.filter fun id => !ids.contains id
    latched := track.latched.filter fun id => !ids.contains id }

def takeOver (track : WakeTrack) : WakeTrack := { track with live := track.owed, latched := [] }

def leave (track : WakeTrack) : TurnExit → WakeTrack
  | .again => { track.takeOver with aborted := false }
  | .stopped => { track with closing := true }
  | .parked => { track with live := [], closing := true }
  | .threw => { track with live := [], closing := true }

def next (track : WakeTrack) : Happening → WakeTrack
  | .sent id latched => track.send id latched
  | .woken => track.takeOver
  | .withdrawn ids => track.withdraw ids
  | .cleared => { track with live := [], latched := [] }
  | .aborted _ => { track with live := [], aborted := true }
  | .settled => { track with aborted := false, closing := false }
  | .turnExit exit => track.leave exit
  | _ => track

end WakeTrack

def wakeTrack (history : List Happening) : WakeTrack := history.foldl WakeTrack.next {}

def owed (history : List Happening) : List String := (wakeTrack history).owed

def isDisposed (history : List Happening) : Bool :=
  history.any fun happening =>
    match happening with
    | .aborted .disposed => true
    | _ => false

def wakingSince (history : List Happening) : List String :=
  history.foldl (fun ids happening =>
    match happening with
    | .sent id _ => ids ++ [id]
    | .cleared => []
    | _ => ids) []

def Control.isExiting : Control → Bool
  | .exiting => true
  | _ => false

section Tracks

variable {history noted : List Happening} {track : WakeTrack}

@[simp] theorem wakeTrack_append :
    wakeTrack (history ++ noted) = noted.foldl WakeTrack.next (wakeTrack history) := by
  simp [wakeTrack]

theorem isDisposed_mono {later : List Happening} (hgrows : history <+: later)
    (h : isDisposed history = true) : isDisposed later = true := by
  obtain ⟨rest, rfl⟩ := hgrows
  simp only [isDisposed, any_append, Bool.or_eq_true] at h ⊢
  exact .inl h

theorem mem_owed_withdraw {ids : List String} {id : String} (h : id ∈ (track.withdraw ids).owed) :
    id ∈ track.owed ∧ id ∉ ids := by
  simp only [WakeTrack.owed, WakeTrack.withdraw, mem_append, mem_filter] at h ⊢
  rcases h with ⟨h, hids⟩ | ⟨h, hids⟩
  · exact ⟨.inl h, by simpa using hids⟩
  · exact ⟨.inr h, by simpa using hids⟩

theorem mem_owed_send {id sent : String} {latched : Bool} (h : id ∈ (track.send sent latched).owed) :
    id ∈ track.owed ∨ id = sent := by
  unfold WakeTrack.send at h
  split at h
  · simpa [WakeTrack.owed, or_assoc] using h
  · split at h
    · exact .inl h
    · simp only [WakeTrack.owed, mem_append, mem_singleton] at h ⊢
      tauto

theorem mem_ids_set {inbox : Inbox} {target : InboxTarget} {start removedCount : Nat}
    {inserted : List UserMessage} {id : String} (h : id ∈ inbox.ids)
    (hkept : id ∉ (((inbox.get target).drop start).take removedCount).map UserMessage.id) :
    id ∈ (inbox.set (spliced (inbox.get target) start removedCount inserted) target).ids := by
  have hspliced : ∀ messages : List UserMessage, id ∈ messages.map UserMessage.id →
      id ∉ ((messages.drop start).take removedCount).map UserMessage.id →
      id ∈ (spliced messages start removedCount inserted).map UserMessage.id := by
    intro messages hid hremoved
    have hparts : messages = messages.take start ++
        ((messages.drop start).take removedCount ++ messages.drop (start + removedCount)) := by
      rw [← drop_drop, take_append_drop, take_append_drop]
    rw [hparts, map_append, map_append, mem_append, mem_append] at hid
    simp only [spliced, map_append, mem_append]
    tauto
  simp only [Inbox.ids, mem_append] at h ⊢
  cases target with
  | nextTurn => exact h.imp_left fun h => hspliced _ h hkept
  | nextStep => exact h.imp_right fun h => hspliced _ h hkept

theorem ids_of_hasPending {inbox : Inbox} (h : inbox.hasPending = false) : inbox.ids = [] := by
  simp only [Inbox.hasPending, Bool.or_eq_false_iff, Bool.not_eq_false', List.isEmpty_iff] at h
  simp [Inbox.ids, h.1, h.2]

end Tracks

section Invariant

variable {out : Outside} {foreign : Foreign} {init w w' : AgentWorld} {c c' : Control}

structure Owes (c : Control) (w : AgentWorld) : Prop where
  pending : ∀ id ∈ owed w.history, id ∈ w.inbox.ids
  aborted : (wakeTrack w.history).aborted = w.phase.reason.isSome
  closing : (wakeTrack w.history).closing = c.isExiting
  live : (wakeTrack w.history).live ≠ [] →
    c.isDriver = true ∧ c.isExiting = false ∧ w.phase.reason = none
  latched : (wakeTrack w.history).latched ≠ [] →
    w.phase.wakeRequested = true ∨ c.due = true ∨ isDisposed w.history = true
  disposed : w.phase.reason = some .disposed → isDisposed w.history = true

theorem Owes.congr (h : Owes c w) (htrack : wakeTrack w'.history = wakeTrack w.history)
    (hgrows : w.history <+: w'.history) (hinbox : w'.inbox = w.inbox)
    (hreason : w'.phase.reason = w.phase.reason)
    (hwake : w'.phase.wakeRequested = w.phase.wakeRequested) (hdriver : c'.isDriver = c.isDriver)
    (hexiting : c'.isExiting = c.isExiting) (hdue : c.due = true → c'.due = true) : Owes c' w' := by
  refine ⟨?_, ?_, ?_, ?_, ?_, ?_⟩
  · intro id hid
    rw [hinbox]
    exact h.pending id (by rwa [owed, htrack] at hid)
  · rw [htrack, hreason]
    exact h.aborted
  · rw [htrack, hexiting]
    exact h.closing
  · rw [htrack, hdriver, hexiting, hreason]
    exact h.live
  · rw [htrack, hwake]
    intro hlatched
    exact (h.latched hlatched).imp_right fun h => h.imp hdue (isDisposed_mono hgrows)
  · rw [hreason]
    exact fun hreason => isDisposed_mono hgrows (h.disposed hreason)

theorem Owes.nothing_owed (h : Owes c w) (hpending : w.inbox.hasPending = false) :
    owed w.history = [] := by
  apply eq_nil_iff_forall_not_mem.mpr
  intro id hid
  have hmem := h.pending id hid
  rw [ids_of_hasPending hpending] at hmem
  cases hmem

theorem Owes.live_nil (h : Owes c w) (hc : c.isDriver = false ∨ c.isExiting = true) :
    (wakeTrack w.history).live = [] := by
  by_contra hlive
  obtain ⟨hdriver, hexiting, -⟩ := h.live hlive
  rcases hc with hc | hc
  · cases hc.symm.trans hdriver
  · cases hexiting.symm.trans hc

theorem Owes.spliced (h : Owes c w) {target : InboxTarget} {start removedCount : Nat}
    {inserted : List UserMessage} :
    Owes c
      { w with
        inbox := w.inbox.set (spliced (w.inbox.get target) start removedCount inserted) target
        history :=
          w.history ++ [.withdrawn
            ((((w.inbox.get target).drop start).take removedCount).map UserMessage.id)] } := by
  have hgrows := isDisposed_mono (prefix_append w.history [.withdrawn
    ((((w.inbox.get target).drop start).take removedCount).map UserMessage.id)])
  refine ⟨?_, ?_, ?_, ?_, ?_, ?_⟩
  · intro id hid
    rw [owed, wakeTrack_append] at hid
    obtain ⟨hid, hkept⟩ := mem_owed_withdraw hid
    exact mem_ids_set (h.pending id hid) hkept
  · rw [wakeTrack_append]
    exact h.aborted
  · rw [wakeTrack_append]
    exact h.closing
  · rw [wakeTrack_append]
    intro hlive
    exact h.live fun hnil => hlive (by simp [WakeTrack.next, WakeTrack.withdraw, hnil])
  · rw [wakeTrack_append]
    intro hlatched
    refine (h.latched fun hnil => hlatched ?_).imp_right fun h => h.imp_right hgrows
    simp [WakeTrack.next, WakeTrack.withdraw, hnil]
  · exact fun hreason => hgrows (h.disposed hreason)

theorem Owes.latch (h : Owes c w) {wake : Bool} {noted : List Happening} (hidle : w.phase.isIdle = false)
    (hnoted : Noted w true noted) (hlatches : w.latches wake) :
    Owes c { w with phase := w.phase.setWake true, history := w.history ++ noted } := by
  have hwake := wakeRequested_setWake hidle true
  have hdisposed : w.phase.reason = some .disposed → isDisposed (w.history ++ noted) = true :=
    fun hreason => absurd hreason hlatches.1
  cases hnoted with
  | nothing =>
    rw [append_nil] at hdisposed ⊢
    exact ⟨h.pending, h.aborted.trans (by simp), h.closing, by simpa using h.live, fun _ => .inl hwake,
      by simpa using hdisposed⟩
  | @sent sent hpending =>
    refine ⟨?_, ?_, ?_, ?_, fun _ => .inl hwake, by simpa using hdisposed⟩
    · intro id hid
      rw [owed, wakeTrack_append] at hid
      have hsent : id ∈ ((wakeTrack w.history).send sent true).owed := hid
      rcases mem_owed_send hsent with hid | rfl
      · exact h.pending id hid
      · exact hpending
    · rw [wakeTrack_append, reason_setWake]
      exact h.aborted
    · rw [wakeTrack_append]
      exact h.closing
    · rw [wakeTrack_append, reason_setWake]
      exact h.live

theorem Owes.note (h : Owes c w) (hfits : c.Fits w.phase) {wake : Bool} {noted : List Happening}
    (hidle : w.phase.isIdle = false) (hnoted : Noted w false noted) (hlatches : ¬w.latches wake) :
    Owes c { w with history := w.history ++ noted } := by
  cases hnoted with
  | nothing =>
    rw [append_nil]
    exact h
  | @sent id hpending =>
    have hgrows := isDisposed_mono (prefix_append w.history [.sent id false])
    cases hlate : (wakeTrack w.history).aborted || (wakeTrack w.history).closing with
    | true =>
      have htrack : wakeTrack (w.history ++ [.sent id false]) = wakeTrack w.history := by
        rw [wakeTrack_append]
        simp [WakeTrack.next, WakeTrack.send, hlate]
      exact h.congr htrack (prefix_append _ _) rfl rfl rfl rfl rfl fun hdue => hdue
    | false =>
      obtain ⟨haborted, hclosing⟩ := Bool.or_eq_false_iff.mp hlate
      have htrack : wakeTrack (w.history ++ [.sent id false]) =
          { wakeTrack w.history with live := (wakeTrack w.history).live ++ [id] } := by
        rw [wakeTrack_append]
        simp [WakeTrack.next, WakeTrack.send, hlate]
      have hreason : w.phase.reason = none := by
        rw [h.aborted] at haborted
        exact Option.isSome_eq_false_iff.mp haborted |> Option.isNone_iff_eq_none.mp
      have hdriver : c.isDriver = true := by
        cases c with
        | undriven due => cases hidle.symm.trans hfits
        | maintaining due =>
          refine absurd ⟨?_, .inl hfits⟩ hlatches
          rw [hreason]
          exact nofun
        | _ => rfl
      refine ⟨?_, ?_, ?_, ?_, ?_, ?_⟩
      · intro other hother
        rw [owed, htrack] at hother
        simp only [WakeTrack.owed, mem_append, mem_singleton] at hother
        rcases hother with (hother | rfl) | hother
        · exact h.pending other (mem_append_left _ hother)
        · exact hpending
        · exact h.pending other (mem_append_right _ hother)
      · rw [htrack]
        exact h.aborted
      · rw [htrack]
        exact h.closing
      · exact fun _ => ⟨hdriver, h.closing.symm.trans hclosing, hreason⟩
      · rw [htrack]
        exact fun hlatched => (h.latched hlatched).imp_right fun h => h.imp_right hgrows
      · exact fun hreason => hgrows (h.disposed hreason)

theorem Owes.abort (h : Owes c w) {cause : CancelCause} (hidle : w.phase.isIdle = false) :
    Owes c { w with phase := w.phase.setReason cause, history := w.history ++ [.aborted cause] } := by
  have hgrows := isDisposed_mono (prefix_append w.history [.aborted cause])
  have hreason : (w.phase.setReason cause).reason = some cause := by
    cases hphase : w.phase <;> first | rfl | (rw [hphase] at hidle; cases hidle)
  refine ⟨?_, ?_, ?_, ?_, ?_, ?_⟩
  · intro id hid
    rw [owed, wakeTrack_append] at hid
    exact h.pending id (mem_append_right _ hid)
  · rw [wakeTrack_append, hreason]
    rfl
  · rw [wakeTrack_append]
    exact h.closing
  · rw [wakeTrack_append]
    exact fun hlive => absurd rfl hlive
  · rw [wakeTrack_append, wakeRequested_setReason]
    exact fun hlatched => (h.latched hlatched).imp_right fun h => h.imp_right hgrows
  · rw [hreason]
    intro hcause
    cases hcause
    simp [isDisposed]

theorem Owes.cleared (h : Owes c w) :
    Owes c { w with phase := w.phase.setWake false, history := w.history ++ [.cleared] } := by
  refine ⟨?_, ?_, ?_, ?_, ?_, ?_⟩
  · intro id hid
    rw [owed, wakeTrack_append] at hid
    cases hid
  · rw [wakeTrack_append, reason_setWake]
    exact h.aborted
  · rw [wakeTrack_append]
    exact h.closing
  · rw [wakeTrack_append]
    exact fun hlive => absurd rfl hlive
  · rw [wakeTrack_append]
    exact fun hlatched => absurd rfl hlatched
  · rw [reason_setWake]
    exact fun hreason => isDisposed_mono (prefix_append _ _) (h.disposed hreason)

theorem OthersStep.owes (hstep : OthersStep foreign w w') (hfits : c.Fits w.phase) (h : Owes c w) :
    Owes c w' := by
  cases hstep with
  | quiet => exact h.congr rfl (prefix_refl _) rfl rfl rfl rfl rfl id
  | foreign => exact h.congr rfl (prefix_refl _) rfl rfl rfl rfl rfl id
  | inboxSpliced => exact h.congr rfl (prefix_refl _) rfl rfl rfl rfl rfl id
  | spliced => exact h.spliced
  | latch hidle hnoted hlatches => exact h.latch hidle hnoted hlatches
  | note hidle hnoted hlatches => exact h.note hfits hidle hnoted hlatches
  | abort hidle _ => exact h.abort hidle
  | cleared => exact h.cleared
  | settle => exact h.congr (wakeTrack_append) (prefix_append _ _) rfl rfl rfl rfl rfl id

theorem Owes.wake (h : Owes c w) (hc : c.isDriver = false) {lastTurn : Nat} {noted : List Happening}
    (hphase : w.phase = .idle lastTurn) (hnoted : Noted w false noted) :
    Owes .reserved
      { w with phase := .running none lastTurn 0 false, history := w.history ++ .woken :: noted } := by
  have haborted : (wakeTrack w.history).aborted = false := by
    rw [h.aborted, hphase]
    rfl
  have hclosing : (wakeTrack w.history).closing = false := by
    rw [h.closing]
    cases c <;> first | rfl | cases hc
  have htrack : ∃ live : List String, wakeTrack (w.history ++ .woken :: noted) = { live } ∧
      ∀ id ∈ live, id ∈ w.inbox.ids := by
    have hwoken : (wakeTrack w.history).takeOver = { live := owed w.history } := by
      simp [WakeTrack.takeOver, haborted, hclosing, owed]
    rw [wakeTrack_append]
    cases hnoted with
    | nothing => exact ⟨_, hwoken, h.pending⟩
    | @sent id hpending =>
      refine ⟨owed w.history ++ [id], ?_, ?_⟩
      · show ((wakeTrack w.history).takeOver).send id false = _
        rw [hwoken]
        rfl
      · intro other hother
        rcases mem_append.mp hother with hother | hother
        · exact h.pending other hother
        · rw [mem_singleton.mp hother]
          exact hpending
  obtain ⟨live, htrack, hlive⟩ := htrack
  refine ⟨?_, ?_, ?_, fun _ => ⟨rfl, rfl, rfl⟩, ?_, nofun⟩
  · intro id hid
    rw [owed, htrack] at hid
    exact hlive id (by simpa [WakeTrack.owed] using hid)
  · rw [htrack]
    rfl
  · rw [htrack]
    rfl
  · rw [htrack]
    exact fun hlatched => absurd rfl hlatched

theorem Owes.settled (h : Owes c w) (hc : c.isDriver = false ∨ c.isExiting = true) {due : Bool}
    (hdue : c.due = true → due = true) (hwake : w.phase.wakeRequested = true → due = true) :
    Owes (.undriven due)
      { w with phase := .idle w.phase.turn, history := w.history ++ [.settled] } := by
  refine ⟨?_, ?_, ?_, ?_, ?_, nofun⟩
  · intro id hid
    rw [owed, wakeTrack_append] at hid
    exact h.pending id hid
  · rw [wakeTrack_append]
    rfl
  · rw [wakeTrack_append]
    rfl
  · rw [wakeTrack_append]
    exact fun hlive => absurd (h.live_nil hc) hlive
  · rw [wakeTrack_append]
    intro hlatched
    rcases h.latched hlatched with hrequested | hlast | hdisposed
    · exact .inr (.inl (hwake hrequested))
    · exact .inr (.inl (hdue hlast))
    · exact .inr (.inr (isDisposed_mono (prefix_append _ _) hdisposed))

theorem PhaseStep.owes (hstep : PhaseStep c w c' w') (h : Owes c w) : Owes c' w' := by
  cases hstep with
  | wake hphase hnoted => exact h.wake rfl hphase hnoted
  | maintain hphase =>
    refine h.congr rfl (prefix_refl _) rfl ?_ ?_ rfl rfl fun hdue => hdue
    · rw [hphase]
      rfl
    · rw [hphase]
      rfl
  | maintained hdue hwake => exact h.settled (.inl rfl) hdue hwake
  | undue hpending =>
    have hnothing := h.nothing_owed hpending
    refine ⟨h.pending, h.aborted, h.closing, h.live, ?_, h.disposed⟩
    exact fun hlatched => absurd (append_eq_nil_iff.mp hnothing).2 hlatched
  | delivered hdelivered =>
    refine ⟨h.pending, h.aborted, h.closing, h.live, ?_, h.disposed⟩
    intro hlatched
    rcases hdelivered with hpending | hwake | hreason
    · exact absurd (append_eq_nil_iff.mp (h.nothing_owed hpending)).2 hlatched
    · exact .inl hwake
    · exact .inr (.inr (h.disposed hreason))

theorem Moves.isExiting (hstep : Moves out w c c') : c.isExiting = false ∧ c'.isExiting = false := by
  cases hstep with
  | fail hturn =>
    refine ⟨?_, rfl⟩
    cases c <;> first | rfl | cases hturn
  | _ => exact ⟨rfl, rfl⟩

theorem Logs.isExiting {data : EventData} {sourceEventSeqs surfaceOp : Option Json} {seq : Nat}
    (hstep : Logs out c data sourceEventSeqs surfaceOp seq c') :
    c.isExiting = false ∧ c'.isExiting = false := by
  cases hstep <;> exact ⟨rfl, rfl⟩

theorem due_of_driver (hdriver : c.isDriver = true) : c.due = false := by
  cases c <;> first | rfl | cases hdriver

theorem Owes.driven (h : Owes c w) (hdriver : c.isDriver = true ∧ c'.isDriver = true)
    (hexiting : c.isExiting = false ∧ c'.isExiting = false)
    (htrack : wakeTrack w'.history = wakeTrack w.history) (hgrows : w.history <+: w'.history)
    (hinbox : w'.inbox = w.inbox) (hreason : w'.phase.reason = w.phase.reason)
    (hwake : w'.phase.wakeRequested = w.phase.wakeRequested) : Owes c' w' := by
  refine h.congr htrack hgrows hinbox hreason hwake (hdriver.2.trans hdriver.1.symm)
    (hexiting.2.trans hexiting.1.symm) fun hdue => ?_
  cases (due_of_driver hdriver.1).symm.trans hdue

theorem ToolWrites.wakes {point point' : ToolPoint} (hstep : ToolWrites out point w point' w') :
    wakeTrack w'.history = wakeTrack w.history ∧ w'.inbox = w.inbox := by
  cases hstep with
  | launch => exact ⟨wakeTrack_append, rfl⟩
  | _ => exact ⟨rfl, rfl⟩

theorem StepWrites.wakes {stage stage' : Stage} (hstep : StepWrites out stage w stage' w') :
    wakeTrack w'.history = wakeTrack w.history ∧ w'.inbox = w.inbox := by
  cases hstep with
  | tool h => exact h.wakes
  | requested => exact ⟨wakeTrack_append, rfl⟩
  | maxTokens => exact ⟨wakeTrack_append, rfl⟩
  | noCalls => exact ⟨wakeTrack_append, rfl⟩
  | toolsDone => exact ⟨wakeTrack_append, rfl⟩
  | _ => exact ⟨rfl, rfl⟩

theorem Owes.leave (h : Owes c w) {exit : TurnExit} (hdriver : c.isDriver = true)
    (htrack : (wakeTrack w.history).leave exit =
      { wakeTrack w.history with live := [], closing := true }) :
    Owes .exiting { w with history := w.history ++ [.turnExit exit] } := by
  have hgrows := isDisposed_mono (prefix_append w.history [.turnExit exit])
  have hexit : wakeTrack (w.history ++ [.turnExit exit]) =
      { wakeTrack w.history with live := [], closing := true } := by
    rw [wakeTrack_append]
    exact htrack
  refine ⟨?_, ?_, ?_, ?_, ?_, fun hreason => hgrows (h.disposed hreason)⟩
  · intro id hid
    rw [owed, hexit] at hid
    exact h.pending id (mem_append_right _ hid)
  · rw [hexit]
    exact h.aborted
  · rw [hexit]
    rfl
  · rw [hexit]
    exact fun hlive => absurd rfl hlive
  · rw [hexit]
    intro hlatched
    rcases h.latched hlatched with hwake | hdue | hdisposed
    · exact .inl hwake
    · cases (due_of_driver hdriver).symm.trans hdue
    · exact .inr (.inr (hgrows hdisposed))

theorem Owes.stopped (h : Owes c w) (hdriver : c.isDriver = true) (hpending : w.inbox.hasPending = false) :
    Owes .exiting { w with history := w.history ++ [.turnExit .stopped] } := by
  refine h.leave hdriver ?_
  have hlive := (append_eq_nil_iff.mp (h.nothing_owed hpending)).1
  simp [WakeTrack.leave, hlive]

theorem Owes.again (h : Owes c w) (hrunning : w.phase.isRunning = true) (hexiting : c.isExiting = false) :
    Owes .reserved { w with phase := w.phase.renew, history := w.history ++ [.turnExit .again] } := by
  have hreason : w.phase.renew.reason = none := by
    cases hphase : w.phase <;> first | rfl | (rw [hphase] at hrunning; cases hrunning)
  have htrack : wakeTrack (w.history ++ [.turnExit .again]) = { live := owed w.history } := by
    rw [wakeTrack_append]
    simp [WakeTrack.next, WakeTrack.leave, WakeTrack.takeOver, h.closing, hexiting, owed]
  refine ⟨?_, ?_, ?_, fun _ => ⟨rfl, rfl, hreason⟩, ?_, ?_⟩
  · intro id hid
    rw [owed, htrack] at hid
    exact h.pending id (by simpa [WakeTrack.owed] using hid)
  · rw [htrack, hreason]
    rfl
  · rw [htrack]
    rfl
  · rw [htrack]
    exact fun hlatched => absurd rfl hlatched
  · rw [hreason]
    exact nofun

theorem Writes.owes (hstep : Writes out c w c' w') (hrunning : w.phase.isRunning = true)
    (h : Owes c w) : Owes c' w' := by
  have hdriver := hstep.isDriver
  cases hstep with
  | turnOpened =>
    exact h.driven ⟨rfl, rfl⟩ ⟨rfl, rfl⟩ wakeTrack_append (prefix_append _ _) rfl
      (reason_setTurn _ _) (wakeRequested_setTurn _ _)
  | stepOpened =>
    exact h.driven ⟨rfl, rfl⟩ ⟨rfl, rfl⟩ rfl (prefix_refl _) rfl (reason_setStep _ _)
      (wakeRequested_setStep _ _)
  | inStep hwrites =>
    obtain ⟨htrack, hinbox⟩ := hwrites.wakes
    exact h.driven ⟨rfl, rfl⟩ ⟨rfl, rfl⟩ htrack hwrites.grows.1 hinbox
      (congrArg Phase.reason hwrites.phase) (congrArg Phase.wakeRequested hwrites.phase)
  | notOpened => exact h.leave hdriver rfl
  | notStarted => exact h.leave hdriver rfl
  | turnEndRefused => exact h.leave hdriver rfl
  | threw => exact h.leave hdriver rfl
  | parked => exact h.leave hdriver rfl
  | stopped hpending => exact h.stopped hdriver hpending
  | again => exact h.again hrunning rfl
  | settled hdue =>
    exact h.settled (.inr rfl) nofun hdue
  | _ => exact h.driven ⟨rfl, rfl⟩ ⟨rfl, rfl⟩ wakeTrack_append (prefix_append _ _) rfl rfl rfl

theorem AgentStep.owes (hstep : AgentStep out foreign c w c' w')
    (hruns : AgentRuns out foreign init c w) (h : Owes c w) : Owes c' w' := by
  cases hstep with
  | others hstep => exact hstep.owes hruns.fits h
  | phase hstep => exact hstep.owes h
  | moves hstep =>
    exact h.driven hstep.isDriver hstep.isExiting rfl (prefix_refl _) rfl rfl rfl
  | logs _ hstep =>
    exact h.driven hstep.isDriver hstep.isExiting rfl (prefix_refl _) rfl rfl rfl
  | writes hstep => exact hstep.owes (hruns.isRunning hstep.isDriver) h

theorem AgentRuns.owes (hruns : AgentRuns out foreign init c w) (hinit : init.history = []) :
    Owes c w := by
  refine hruns.invariant Owes ?_ fun hruns h hstep => hstep.owes hruns h
  intro hidle
  have hreason : init.phase.reason = none := by
    cases hphase : init.phase <;> first | rfl | (rw [hphase] at hidle; cases hidle)
  have hempty : wakeTrack init.history = {} := by rw [hinit]; rfl
  refine ⟨?_, ?_, ?_, ?_, ?_, ?_⟩
  · intro id hid
    rw [owed, hempty] at hid
    cases hid
  · rw [hempty, hreason]
    rfl
  · rw [hempty]
    rfl
  · rw [hempty]
    exact fun hlive => absurd rfl hlive
  · rw [hempty]
    exact fun hlatched => absurd rfl hlatched
  · rw [hreason]
    exact nofun

end Invariant

/-- An agent that is idle again, and was not told to shut down, owes no wake. -/
theorem no_lost_wake {out : Outside} {foreign : Foreign} {log : List SessionEvent} {inbox : Inbox}
    {lastTurn : Nat} {s : AgentState}
    (h : LoopReaches (agentLoop out foreign) ⟨initialWorld log inbox lastTurn, [], []⟩ s)
    (hthrough : s.stack = []) (hidle : s.world.phase.isIdle = true)
    (hdisposed : isDisposed s.world.history = false) : owed s.world.history = [] := by
  obtain ⟨w, stack, tasks⟩ := s
  cases hthrough
  dsimp only at hidle hdisposed ⊢
  obtain ⟨c, hruns, hdue⟩ := agentLoop_settles rfl rfl h
  have howes := hruns.owes rfl
  obtain ⟨due, rfl⟩ := none_of_fits hruns.fits hidle
  have hlatched : (wakeTrack w.history).latched = [] := by
    by_contra hlatched
    rcases howes.latched hlatched with hwake | hlate | hlate
    · cases hphase : w.phase with
      | idle lastTurn =>
        rw [hphase] at hwake
        cases hwake
      | _ =>
        rw [hphase] at hidle
        cases hidle
    · cases hdue.symm.trans hlate
    · cases hdisposed.symm.trans hlate
  exact append_eq_nil_iff.mpr ⟨howes.live_nil (.inl rfl), hlatched⟩

section Queued

def gatedOutside (rejects : Bool) : Outside :=
  { plainOutside (fun _ => none) with
    preStep := fun _ messages => .ok (if rejects then .reject else .enter messages false) }

def proposing (rejects : Bool) : AgentState :=
  enterFor (gatedOutside rejects) (sendText "first" .nextTurn) 57 fresh

theorem reaches_proposing (rejects : Bool) :
    LoopReaches (agentLoop (gatedOutside rejects) isForeign) fresh (proposing rejects) :=
  reaches_enterFor (.refl _) rfl _ (isEnabled_sendText _ _ _) 57

/-- A rejected step ends the turn and the driver, with the next message still queued. -/
theorem rejected_turn_parks :
    ∃ s : AgentState, LoopReaches (agentLoop (gatedOutside true) isForeign)
      ⟨initialWorld [] {} 0, [], []⟩ s ∧ s.stack = [] ∧ s.tasks = [] ∧
      s.world.phase.isIdle = true ∧ isDisposed s.world.history = false ∧
      ∃ id ∈ wakingSince s.world.history, id ∈ s.world.inbox.ids := by
  refine ⟨enterFor (gatedOutside true) (sendText "second" .nextTurn) 400 (proposing true), ?_,
    by decide, by decide, by decide, by decide, "second",
    by decide, by decide⟩
  exact reaches_enterFor (reaches_proposing true) (by decide) _ (isEnabled_sendText _ _ _) 400

def canceled : AgentState := enterFor (gatedOutside false) (.cancel .user false) 12 (proposing false)

theorem reaches_canceled : LoopReaches (agentLoop (gatedOutside false) isForeign) fresh canceled :=
  reaches_enterFor (reaches_proposing false) (by decide) _ (isEnabled_cancel _ _ _) 12

/-- A message that is sent behind a cancel wakes the next driver. -/
theorem no_lost_wake_canceled :
    ∃ s : AgentState, LoopReaches (agentLoop (gatedOutside false) isForeign)
      ⟨initialWorld [] {} 0, [], []⟩ s ∧ s.tasks = [] ∧
      wakingSince s.world.history = ["second"] ∧ owed s.world.history = [] := by
  have hreaches := reaches_enterFor reaches_canceled (by decide)
    (sendText "second" .nextTurn) (isEnabled_sendText _ _ _) 400
  refine ⟨_, hreaches, by decide, by decide, ?_⟩
  exact no_lost_wake hreaches (by decide) (by decide) (by decide)

end Queued

end DshKernel.Agent
