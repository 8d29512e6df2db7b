import DshKernel.Gateway.MuxClient

/-!
# Runs of the stream client

When the socket of a stream is given up the stream fails, and what a stream delivers is what the
server has sent for it on its own socket, as long as a call is registered only while its socket is
the client's.
-/

namespace DshKernel.Gateway

open Js List Mux

namespace Call

def held (c : Call) : List Frame :=
  match c.phase with
  | .ended _ => []
  | .delivering frame => frame :: c.frames
  | _ => c.frames

def delivered (c : Call) : List Frame := c.items.map .item ++ c.held

def StandsBefore (c : Call) (socket : Nat) : Prop :=
  c.phase = .connected socket ∧ c.signalAborted = false ∧ c.payload.isSome = true

end Call

def framesFor (id : Nat) (carrier : Option Nat) (arrived : List (Nat × Option ServerMessage)) :
    List Frame :=
  arrived.filterMap fun (socket, data) =>
    match data with
    | some message =>
      if carrier = some socket ∧ message.streamId = id then some message.frame else none
    | none => none

def framesSince (id : Nat) (carrier : Option Nat) (openedAt : Nat)
    (arrived : List (Nat × Option ServerMessage)) : List Frame :=
  framesFor id carrier (arrived.drop openedAt)

def sentFor (m : Mux) (id : Nat) (c : Call) : List Frame :=
  framesSince id c.carrier c.openedAt m.arrived

def Frame.isTerminal : Frame → Bool
  | .item _ => false
  | _ => true

def FailsAlone (m : Mux) (id : Nat) (c : Call) : Prop :=
  ∃ last outcome, (runMux m [.resume id, .pull id, .resume id]).calls id = some last ∧
    last.phase = .ended outcome ∧
    ((∃ failure, outcome = .threw failure) ∨
      ∃ frame, c.phase = .delivering frame ∧ frame.isTerminal = true)

/-- The streams of a socket that is no longer the client's have ended or end by themselves; the
frames of a stream are a prefix of what the server has sent for it on its socket. -/
structure StreamsSound (m : Mux) : Prop where
  opened : ∀ socket id endpoint payload, (socket, .open id endpoint payload) ∈ m.sent →
    ∃ c, m.calls id = some c ∧ c.carrier = some socket
  fails : ∀ id c socket, m.calls id = some c → c.carrier = some socket →
    m.socket ≠ some socket → c.phase.isEnded = true ∨ (c.phase ≠ .asleep ∧ FailsAlone m id c)
  delivered : ∀ id c, m.calls id = some c → c.delivered <+: sentFor m id c

/-- No call stands between the socket it was given and its registration. -/
def NoneConnected (m : Mux) : Prop :=
  ∀ id c socket, m.calls id = some c → ¬ c.StandsBefore socket

/-- The condition on a step: it does not give up or replace the current socket behind the back of
a call that was given it or of a stream that it does not fail. -/
def Undisturbed (m : Mux) : MuxEvent → Prop
  | .reconnect | .close => NoneConnected m
  | .socketClosed socket | .socketFailed socket | .message socket none =>
    m.socket = some socket → NoneConnected m
  | .opened => NoneConnected m ∧
    ∀ id c, m.calls id = some c → c.registered = true → c.failure.isSome = true
  | _ => True

inductive MuxReaches : Mux → Prop where
  | init : MuxReaches {}
  | step {m : Mux} {event : MuxEvent} : MuxReaches m → Undisturbed m event →
    MuxReaches (muxStep m event)

/-- Whether a call has not gone on behind `waitForSocket`. -/
def Phase.isEarly : Phase → Bool
  | .waiting _ | .connected _ | .refused _ => true
  | _ => false

def Phase.isReading : Phase → Bool
  | .asleep | .woken | .delivering _ | .failing _ | .yielded => true
  | _ => false

structure CallSound (socket : Option Nat) (arrived : List (Nat × Option ServerMessage)) (id : Nat)
    (c : Call) : Prop where
  connected : ∀ given, c.StandsBefore given → socket = some given
  current : c.registered = true → c.failure = none → socket = c.carrier
  reading : c.registered = true ↔ c.phase.isReading = true
  carried : c.registered = true → c.carrier.isSome = true
  bare : c.carrier = none → c.frames = [] ∧ c.items = []
  early : c.phase.isEarly = true → c.carrier = none
  failed : c.failure.isSome = true → c.frames = [] ∧ c.phase ≠ .asleep
  delivered : c.delivered <+: framesSince id c.carrier c.openedAt arrived
  whole : c.registered = true → c.failure = none →
    c.delivered = framesSince id c.carrier c.openedAt arrived
  arrived : c.openedAt ≤ arrived.length

section Calls

variable {socket socket' : Option Nat} {arrived : List (Nat × Option ServerMessage)} {id : Nat}
  {c : Call}

theorem Phase.isReading_wake (phase : Phase) : phase.wake.isReading = phase.isReading := by
  cases phase <;> rfl

theorem Phase.isEarly_wake (phase : Phase) : phase.wake.isEarly = phase.isEarly := by
  cases phase <;> rfl

theorem Phase.wake_ne_asleep (phase : Phase) : phase.wake ≠ .asleep := by
  cases phase <;> nofun

theorem Phase.connected_of_wake {phase : Phase} {given : Nat} (h : phase.wake = .connected given) :
    phase = .connected given := by
  cases phase with
  | asleep => cases h
  | _ => exact h

theorem held_fail (c : Call) (failure : Failure) : (c.fail failure).held <+: c.held := by
  unfold Call.fail
  split
  · exact prefix_refl _
  · unfold Call.held
    cases c.phase with
    | delivering frame => exact prefix_append [frame] c.frames
    | _ => exact nil_prefix

namespace CallSound

theorem move (h : CallSound socket arrived id c)
    (hconnected : ∀ given, c.StandsBefore given → socket' = some given)
    (hcurrent : c.registered = true → c.failure = none → socket' = c.carrier) :
    CallSound socket' arrived id c :=
  { h with connected := hconnected, current := hcurrent }

theorem fail (h : CallSound socket arrived id c) (failure : Failure)
    (hconnected : ∀ given, c.StandsBefore given → socket' = some given) :
    CallSound socket' arrived id (c.fail failure) := by
  have hdelivered : (c.fail failure).delivered <+: c.delivered := by
    have hitems : (c.fail failure).items = c.items := by
      unfold Call.fail
      split <;> rfl
    unfold Call.delivered
    rw [hitems]
    exact (prefix_append_right_inj _).mpr (held_fail c failure)
  unfold Call.fail at hdelivered ⊢
  split
  · rename_i hfailed
    refine h.move hconnected ?_
    intro _ hnone
    rw [hnone] at hfailed
    cases hfailed
  · rename_i hfailed
    rw [if_neg hfailed] at hdelivered
    exact {
      connected := fun given hstands =>
        hconnected given ⟨Phase.connected_of_wake hstands.1, hstands.2⟩
      current := nofun
      reading := by
        show _ ↔ c.phase.wake.isReading = true
        rw [Phase.isReading_wake]
        exact h.reading
      carried := h.carried
      bare := fun hcarrier => ⟨rfl, (h.bare hcarrier).2⟩
      early := by
        show c.phase.wake.isEarly = true → _
        rw [Phase.isEarly_wake]
        exact h.early
      failed := fun _ => ⟨rfl, Phase.wake_ne_asleep c.phase⟩
      delivered := hdelivered.trans h.delivered
      whole := nofun
      arrived := h.arrived }

theorem signal (h : CallSound socket arrived id c) :
    CallSound socket arrived id { c with signalAborted := true } :=
  { h with connected := fun _ hstands => absurd hstands.2.1 Bool.noConfusion }

/-- A call that leaves `waitForSocket`, or is told its socket there. -/
theorem ofEarly (h : CallSound socket arrived id c) (hearly : c.phase.isEarly = true)
    {phase : Phase} (hphase : phase.isEarly = true)
    (hconnected : ∀ given, phase = .connected given → socket' = some given) :
    CallSound socket' arrived id { c with phase := phase } := by
  have hcarrier := h.early hearly
  have hreading : phase.isReading = false := by
    cases phase with
    | waiting _ | connected _ | refused _ => rfl
    | _ => cases hphase
  have hregistered : c.registered = false := by
    cases hreg : c.registered with
    | false => rfl
    | true =>
      have hsome := h.carried hreg
      rw [hcarrier] at hsome
      cases hsome
  obtain ⟨hframes, hitems⟩ := h.bare hcarrier
  have hdelivered : Call.delivered { c with phase := phase } = [] := by
    unfold Call.delivered Call.held
    rw [hitems]
    cases phase with
    | waiting _ | connected _ | refused _ => exact hframes
    | _ => cases hphase
  exact {
    connected := fun given hstands => hconnected given hstands.1
    current := fun hreg => absurd (hreg.symm.trans hregistered) (by decide)
    reading := by
      show c.registered = true ↔ phase.isReading = true
      rw [hregistered, hreading]
    carried := h.carried
    bare := h.bare
    early := fun _ => hcarrier
    failed := fun _ => ⟨hframes, fun heq => by
      have hcontra : phase = .asleep := heq
      rw [hcontra] at hphase
      cases hphase⟩
    delivered := by
      rw [hdelivered]
      exact nil_prefix
    whole := fun hreg => absurd (hreg.symm.trans hregistered) (by decide)
    arrived := h.arrived }

theorem ended (h : CallSound socket arrived id c) (outcome : Outcome) (terminal : Bool) :
    CallSound socket arrived id
      { c with terminal := terminal, registered := false, phase := .ended outcome } where
  connected := fun _ hstands => nomatch hstands.1
  current := nofun
  reading := by simp [Phase.isReading]
  carried := nofun
  bare := h.bare
  early := nofun
  failed hfailed := ⟨(h.failed hfailed).1, nofun⟩
  delivered := by
    have hitems : Call.delivered
        { c with terminal := terminal, registered := false, phase := .ended outcome } =
          c.items.map .item := append_nil _
    rw [hitems]
    exact (prefix_append _ _).trans h.delivered
  whole := nofun
  arrived := h.arrived

theorem reads (h : CallSound socket arrived id c) {c' : Call} (hregistered : c.registered = true)
    (hkept : c'.registered = true ∧ c'.failure = c.failure ∧ c'.carrier = c.carrier ∧
      c'.openedAt = c.openedAt)
    (hphase : c'.phase.isReading = true) (hdelivered : c'.delivered = c.delivered)
    (hfailed : c.failure.isSome = true → c'.frames = [] ∧ c'.phase ≠ .asleep) :
    CallSound socket arrived id c' := by
  obtain ⟨hregistered', hfailure, hcarrier, hopenedAt⟩ := hkept
  have hcarried := h.carried hregistered
  exact {
    connected := fun given hstands => by
      rw [hstands.1] at hphase
      cases hphase
    current := fun _ => by
      rw [hfailure, hcarrier]
      exact h.current hregistered
    reading := by rw [hregistered', hphase]
    carried := fun _ => by rwa [hcarrier]
    bare := fun hnone => by
      rw [hcarrier] at hnone
      rw [hnone] at hcarried
      cases hcarried
    early := fun hearly => by
      cases hcase : c'.phase with
      | waiting _ | connected _ | refused _ =>
        rw [hcase] at hphase
        cases hphase
      | _ =>
        rw [hcase] at hearly
        cases hearly
    failed := by
      rw [hfailure]
      exact hfailed
    delivered := by
      rw [hdelivered, hcarrier, hopenedAt]
      exact h.delivered
    whole := fun _ => by
      rw [hdelivered, hcarrier, hopenedAt, hfailure]
      exact h.whole hregistered
    arrived := by
      rw [hopenedAt]
      exact h.arrived }

/-- `inbox.next()` goes on where it was woken, or is called again. -/
theorem next (h : CallSound socket arrived id c) (hphase : c.phase = .woken ∨ c.phase = .yielded) :
    CallSound socket arrived id c.next := by
  have hregistered : c.registered = true := by
    rw [h.reading]
    rcases hphase with hphase | hphase <;> rw [hphase] <;> rfl
  have hdelivered : c.delivered = c.items.map .item ++ c.frames := by
    unfold Call.delivered Call.held
    rcases hphase with hphase | hphase <;> rw [hphase]
  unfold Call.next
  split
  · rename_i frame rest hframes
    rw [hframes] at hdelivered
    refine h.reads hregistered ⟨hregistered, rfl, rfl, rfl⟩ rfl hdelivered.symm ?_
    intro hfailed
    have hnil := (h.failed hfailed).1
    rw [hframes] at hnil
    cases hnil
  · rename_i failure hframes hfailure
    exact h.reads hregistered ⟨hregistered, rfl, rfl, rfl⟩ rfl hdelivered.symm
      fun _ => ⟨hframes, nofun⟩
  · rename_i hframes hfailure
    refine h.reads hregistered ⟨hregistered, rfl, rfl, rfl⟩ rfl hdelivered.symm ?_
    intro hfailed
    rw [hfailure] at hfailed
    cases hfailed

theorem yields (h : CallSound socket arrived id c) {value : Option Json}
    (hphase : c.phase = .delivering (.item value)) :
    CallSound socket arrived id { c with phase := .yielded, items := c.items ++ [value] } := by
  have hregistered : c.registered = true := by
    rw [h.reading, hphase]
    rfl
  refine h.reads hregistered ⟨hregistered, rfl, rfl, rfl⟩ rfl ?_ ?_
  · simp [Call.delivered, Call.held, hphase]
  · exact fun hfailed => ⟨(h.failed hfailed).1, nofun⟩

theorem register (h : CallSound socket arrived id c) {given : Nat}
    (hstands : c.StandsBefore given) :
    CallSound socket arrived id
      { c with
        carrier := some given, registered := true, opened := true
        openedAt := arrived.length }.next := by
  have hcarrier := h.early (by rw [hstands.1]; rfl)
  have hsocket := h.connected given hstands
  obtain ⟨hframes, hitems⟩ := h.bare hcarrier
  have hsent : framesSince id (some given) arrived.length arrived = [] := by
    rw [framesSince, drop_length]
    rfl
  unfold Call.next
  simp only [hframes]
  split
  · rename_i hcontra
    cases hcontra
  · exact {
      connected := fun _ hstands => nomatch hstands.1
      current := fun _ _ => hsocket
      reading := by simp [Phase.isReading]
      carried := fun _ => rfl
      bare := nofun
      early := nofun
      failed := fun _ => ⟨rfl, nofun⟩
      delivered := by simp [Call.delivered, Call.held, hitems]
      whole := fun _ _ => by simp [Call.delivered, Call.held, hitems, hsent]
      arrived := Nat.le_refl _ }
  · rename_i hfailure
    exact {
      connected := fun _ hstands => nomatch hstands.1
      current := fun _ _ => hsocket
      reading := by simp [Phase.isReading]
      carried := fun _ => rfl
      bare := nofun
      early := nofun
      failed := fun hfailed => by
        have hsome : c.failure.isSome = true := hfailed
        rw [hfailure] at hsome
        cases hsome
      delivered := by simp [Call.delivered, Call.held, hitems]
      whole := fun _ _ => by simp [Call.delivered, Call.held, hitems, hsent]
      arrived := Nat.le_refl _ }

theorem unencodable (h : CallSound socket arrived id c) (hearly : c.phase.isEarly = true)
    (given : Nat) (outcome : Outcome) :
    CallSound socket arrived id
      { c with carrier := some given, registered := false, phase := .ended outcome } where
  connected := fun _ hstands => nomatch hstands.1
  current := nofun
  reading := by simp [Phase.isReading]
  carried := nofun
  bare := nofun
  early := nofun
  failed _ := ⟨(h.bare (h.early hearly)).1, nofun⟩
  delivered := by simp [Call.delivered, Call.held, (h.bare (h.early hearly)).2]
  whole := nofun
  arrived := h.arrived

variable {source : Nat}

theorem grow (h : CallSound socket arrived id c) {data : Option ServerMessage}
    (hother : c.registered = true → c.failure = none →
      framesFor id c.carrier [(source, data)] = []) :
    CallSound socket (arrived ++ [(source, data)]) id c := by
  have hsince : framesSince id c.carrier c.openedAt (arrived ++ [(source, data)]) =
      framesSince id c.carrier c.openedAt arrived ++ framesFor id c.carrier [(source, data)] := by
    unfold framesSince framesFor
    rw [drop_append_of_le_length h.arrived, filterMap_append]
  exact { h with
    delivered := by
      rw [hsince]
      exact h.delivered.trans (prefix_append _ _)
    whole := fun hregistered hfailure => by
      rw [hsince, hother hregistered hfailure, append_nil]
      exact h.whole hregistered hfailure
    arrived := by
      rw [length_append]
      exact Nat.le_add_right_of_le h.arrived }

theorem push (h : CallSound (some source) arrived id c)
    (hregistered : c.registered = true) (frame : Frame) :
    CallSound (some source) (arrived ++ [(source, some ⟨id, frame⟩)]) id (c.push frame) := by
  unfold Call.push
  split
  · rename_i hfailed
    refine h.grow ?_
    intro _ hnone
    rw [hnone] at hfailed
    cases hfailed
  · rename_i hfailed
    rw [Bool.not_eq_true, Option.isSome_eq_false_iff, Option.isNone_iff_eq_none] at hfailed
    have hcarrier := h.current hregistered hfailed
    have hsince : framesSince id c.carrier c.openedAt (arrived ++ [(source, some ⟨id, frame⟩)]) =
        framesSince id c.carrier c.openedAt arrived ++ [frame] := by
      unfold framesSince framesFor
      rw [drop_append_of_le_length h.arrived, filterMap_append]
      simp [← hcarrier]
    have hreading := h.reading.mp hregistered
    have hdelivered :
        Call.delivered { c with frames := c.frames ++ [frame], phase := c.phase.wake } =
          c.delivered ++ [frame] := by
      unfold Call.delivered Call.held
      cases hphase : c.phase with
      | ended _ =>
        rw [hphase] at hreading
        cases hreading
      | _ => simp [Phase.wake]
    have hgrown :
        Call.delivered { c with frames := c.frames ++ [frame], phase := c.phase.wake } =
          framesSince id c.carrier c.openedAt (arrived ++ [(source, some ⟨id, frame⟩)]) := by
      rw [hdelivered, hsince, h.whole hregistered hfailed]
    exact {
      connected := fun given hstands =>
        h.connected given ⟨Phase.connected_of_wake hstands.1, hstands.2⟩
      current := h.current
      reading := by
        show _ ↔ c.phase.wake.isReading = true
        rw [Phase.isReading_wake]
        exact h.reading
      carried := h.carried
      bare := fun hnone => by
        have hcontra := hcarrier.trans hnone
        cases hcontra
      early := by
        show c.phase.wake.isEarly = true → _
        rw [Phase.isEarly_wake]
        exact h.early
      failed := fun hsome => by
        have hcontra : c.failure.isSome = true := hsome
        rw [hfailed] at hcontra
        cases hcontra
      delivered := ⟨[], (append_nil _).trans hgrown⟩
      whole := fun _ _ => hgrown
      arrived := by
        rw [length_append]
        exact Nat.le_add_right_of_le h.arrived }

end CallSound

end Calls

structure MuxOk (m : Mux) : Prop where
  calls : ∀ id c, m.calls id = some c → CallSound m.socket m.arrived id c
  fresh : ∀ id, m.callCount ≤ id → m.calls id = none
  opened : ∀ socket id endpoint payload, (socket, .open id endpoint payload) ∈ m.sent →
    ∃ c, m.calls id = some c ∧ c.carrier = some socket

def Mux.view (m : Mux) :
    Option Nat × (Nat → Option Call) × Nat × List (Nat × ClientMessage) ×
      List (Nat × Option ServerMessage) :=
  (m.socket, m.calls, m.callCount, m.sent, m.arrived)

section Views

variable (m : Mux)

theorem view_closeSocket (socket : Nat) : (m.closeSocket socket).view = m.view := by
  unfold closeSocket
  split <;> rfl

theorem view_maintain : m.maintain.view = m.view := by
  unfold maintain
  split
  · rfl
  · split <;> rfl

theorem view_follow : m.follow.view = m.view := by
  unfold follow
  split
  · exact view_maintain m
  · rfl

theorem view_rejectCandidate (failure : Failure) : (m.rejectCandidate failure).view = m.view := by
  unfold rejectCandidate
  split
  · split
    · exact view_closeSocket _ _
    · rfl
  · rfl

theorem view_start : m.start.view = m.view := by
  unfold start
  split
  · rfl
  · split
    · rfl
    · exact view_follow _

theorem view_clear : m.clear.view = m.view := by
  unfold clear
  split
  · split <;> rfl
  · rfl

theorem view_runDue : m.runDue.view = m.view := by
  unfold runDue
  split
  · rfl
  · exact view_maintain _

theorem view_beginClose (socket : Nat) : (m.beginClose socket).view = m.view := by
  unfold beginClose
  split <;> rfl

theorem view_send (socket : Nat) (message : ClientMessage) :
    ∃ messages, (∀ entry ∈ messages, entry = (socket, message)) ∧
      (m.send socket message).view =
        (m.socket, m.calls, m.callCount, m.sent ++ messages, m.arrived) := by
  unfold send
  split
  · exact ⟨[(socket, message)], fun entry hmem => mem_singleton.mp hmem, rfl⟩
  · exact ⟨[], nofun, by rw [append_nil]; rfl⟩

theorem view_finish (id : Nat) (c : Call) (outcome : Outcome) :
    ∃ messages : List (Nat × ClientMessage),
      (∀ entry ∈ messages, entry.2 = .cancel id) ∧
      (m.finish id c outcome).view =
        (m.socket, (m.setCall id { c with registered := false, phase := .ended outcome }).calls,
          m.callCount, m.sent ++ messages, m.arrived) := by
  unfold finish
  split
  · rename_i socket _
    simp only
    split
    · obtain ⟨messages, hmessages, hview⟩ := view_send
        (m.setCall id { c with registered := false, phase := .ended outcome }) socket (.cancel id)
      exact ⟨messages, fun entry hmem => by rw [hmessages entry hmem], hview⟩
    · exact ⟨[], nofun, by rw [append_nil]; rfl⟩
  · exact ⟨[], nofun, by rw [append_nil]; rfl⟩

variable {m}

theorem view_setCall_send {m' : Mux} {messages : List (Nat × ClientMessage)}
    (h : m'.view = (m.socket, m.calls, m.callCount, m.sent ++ messages, m.arrived)) {id : Nat}
    {c : Call} :
    (m'.setCall id c).view =
      (m.socket, (m.setCall id c).calls, m.callCount, m.sent ++ messages, m.arrived) := by
  simp only [view, Prod.mk.injEq] at h ⊢
  obtain ⟨hsocket, hcalls, hcount, hsent, harrived⟩ := h
  refine ⟨hsocket, ?_, hcount, hsent, harrived⟩
  unfold Mux.setCall
  rw [hcalls]

theorem carrier_next (c : Call) : c.next.carrier = c.carrier := by
  unfold Call.next
  split <;> rfl

theorem carrier_fail (c : Call) (failure : Failure) : (c.fail failure).carrier = c.carrier := by
  unfold Call.fail
  split <;> rfl

theorem carrier_push (c : Call) (frame : Frame) : (c.push frame).carrier = c.carrier := by
  unfold Call.push
  split <;> rfl

end Views

variable {carrier : Option Nat}

theorem framesFor_of_ne {id socket : Nat} {data : Option ServerMessage}
    (h : carrier ≠ some socket) : framesFor id carrier [(socket, data)] = [] := by
  cases data with
  | none => rfl
  | some message => simp [framesFor, h]

theorem framesFor_of_streamId_ne {id socket : Nat} {message : ServerMessage}
    (h : message.streamId ≠ id) : framesFor id carrier [(socket, some message)] = [] := by
  simp [framesFor, h]

theorem waitForSocket_phase (m : Mux) :
    m.waitForSocket.isReading = false ∧
      ∀ given, m.waitForSocket = .connected given → m.socket = some given := by
  unfold waitForSocket
  split
  · rename_i socket hsocket
    split
    · refine ⟨rfl, ?_⟩
      intro given heq
      cases heq
      exact hsocket
    · split
      · exact ⟨rfl, nofun⟩
      · split
        · exact ⟨rfl, nofun⟩
        · exact ⟨rfl, nofun⟩
  · split
    · exact ⟨rfl, nofun⟩
    · split
      · exact ⟨rfl, nofun⟩
      · exact ⟨rfl, nofun⟩

theorem delivered_bare {c : Call} (hframes : c.frames = []) (hitems : c.items = [])
    (hphase : c.phase.isReading = false) : c.delivered = [] := by
  unfold Call.delivered Call.held
  rw [hitems, hframes]
  split
  · rfl
  · rename_i hcontra
    rw [hcontra] at hphase
    cases hphase
  · rfl

theorem NoneConnected.failAll {m : Mux} (h : NoneConnected m) (failure : Failure) :
    NoneConnected (m.failAll failure) := by
  intro id c given hc hstands
  obtain ⟨old, hold, rfl⟩ := Option.map_eq_some_iff.mp hc
  refine h id old given hold ?_
  split at hstands
  · unfold Call.fail at hstands
    split at hstands
    · exact hstands
    · exact ⟨Phase.connected_of_wake hstands.1, hstands.2⟩
  · exact hstands

namespace MuxOk

variable {m m' : Mux} {id : Nat} {c : Call}

theorem of_view (h : MuxOk m) (hview : m'.view = m.view) : MuxOk m' := by
  obtain ⟨hsocket, hcalls, hcount, hsent, harrived⟩ :
      m'.socket = m.socket ∧ m'.calls = m.calls ∧ m'.callCount = m.callCount ∧ m'.sent = m.sent ∧
        m'.arrived = m.arrived := by
    simpa [view] using hview
  refine ⟨?_, ?_, ?_⟩
  · rw [hcalls, hsocket, harrived]
    exact h.calls
  · rw [hcalls, hcount]
    exact h.fresh
  · rw [hcalls, hsent]
    exact h.opened

theorem mapCalls (h : MuxOk m) {socket : Option Nat} {f : Call → Call}
    (hview : m'.view = (socket, fun id => (m.calls id).map f, m.callCount, m.sent, m.arrived))
    (hcarrier : ∀ c, (f c).carrier = c.carrier)
    (hsound : ∀ id c, m.calls id = some c → CallSound socket m.arrived id (f c)) : MuxOk m' := by
  obtain ⟨hsocket, hcalls, hcount, hsent, harrived⟩ :
      m'.socket = socket ∧ m'.calls = (fun id => (m.calls id).map f) ∧
        m'.callCount = m.callCount ∧ m'.sent = m.sent ∧ m'.arrived = m.arrived := by
    simpa [view] using hview
  refine ⟨?_, ?_, ?_⟩
  · intro id c hc
    rw [hcalls] at hc
    obtain ⟨old, hold, rfl⟩ := Option.map_eq_some_iff.mp hc
    rw [hsocket, harrived]
    exact hsound id old hold
  · intro id hid
    rw [hcalls]
    simp only [h.fresh id (hcount ▸ hid), Option.map_none]
  · intro socket id endpoint payload hmem
    rw [hsent] at hmem
    obtain ⟨c, hc, hsame⟩ := h.opened socket id endpoint payload hmem
    refine ⟨f c, ?_, (hcarrier c).trans hsame⟩
    rw [hcalls]
    simp only [hc, Option.map_some]

/-- One call goes on, and may have sent its `open` or `cancel` message on its socket. -/
theorem setCall (h : MuxOk m) (hc : m.calls id = some c) (c' : Call)
    (hcarrier : ∀ socket, c.carrier = some socket → c'.carrier = some socket)
    (hsound : CallSound m.socket m.arrived id c') {messages : List (Nat × ClientMessage)}
    (hmessages : ∀ socket other endpoint payload,
      (socket, .open other endpoint payload) ∈ messages → other = id ∧ c'.carrier = some socket)
    (hview : m'.view =
      (m.socket, (m.setCall id c').calls, m.callCount, m.sent ++ messages, m.arrived)) :
    MuxOk m' := by
  obtain ⟨hsocket, hcalls, hcount, hsent, harrived⟩ :
      m'.socket = m.socket ∧ m'.calls = (m.setCall id c').calls ∧ m'.callCount = m.callCount ∧
        m'.sent = m.sent ++ messages ∧ m'.arrived = m.arrived := by
    simpa [view] using hview
  have hother : ∀ other, m'.calls other = if other = id then some c' else m.calls other := by
    intro other
    rw [hcalls]
    rfl
  refine ⟨?_, ?_, ?_⟩
  · intro other d hd
    rw [hother] at hd
    rw [hsocket, harrived]
    by_cases heq : other = id
    · rw [if_pos heq] at hd
      cases hd
      rw [heq]
      exact hsound
    · rw [if_neg heq] at hd
      exact h.calls other d hd
  · intro other hid
    have hnone := h.fresh other (hcount ▸ hid)
    rw [hother, if_neg ?_]
    · exact hnone
    · rintro rfl
      rw [hc] at hnone
      cases hnone
  · intro socket other endpoint payload hmem
    rw [hsent] at hmem
    rcases mem_append.mp hmem with hmem | hmem
    · obtain ⟨d, hd, hsame⟩ := h.opened socket other endpoint payload hmem
      by_cases heq : other = id
      · rw [heq, hc] at hd
        cases hd
        exact ⟨c', by rw [hother, if_pos heq], hcarrier socket hsame⟩
      · exact ⟨d, by rw [hother, if_neg heq]; exact hd, hsame⟩
    · obtain ⟨heq, hsame⟩ := hmessages socket other endpoint payload hmem
      exact ⟨c', by rw [hother, if_pos heq], hsame⟩

theorem finish (h : MuxOk m) {old : Call} (hold : m.calls id = some old)
    (hcarrier : ∀ socket, old.carrier = some socket → c.carrier = some socket) {outcome : Outcome}
    (hended : CallSound m.socket m.arrived id
      { c with registered := false, phase := .ended outcome }) :
    MuxOk (m.finish id c outcome) := by
  obtain ⟨messages, hmessages, hview⟩ := view_finish m id c outcome
  refine h.setCall hold { c with registered := false, phase := .ended outcome } hcarrier hended ?_
    hview
  intro socket other endpoint payload hmem
  have hcontra := hmessages _ hmem
  cases hcontra

theorem setOnly (h : MuxOk m) (hc : m.calls id = some c) {c' : Call}
    (hcarrier : ∀ socket, c.carrier = some socket → c'.carrier = some socket)
    (hsound : CallSound m.socket m.arrived id c') : MuxOk (m.setCall id c') := by
  refine @setCall m _ id c h hc c' hcarrier hsound [] nofun ?_
  rw [append_nil]
  rfl

theorem register (h : MuxOk m) (hc : m.calls id = some c) {given : Nat}
    (hphase : c.phase = .connected given) (hsignal : c.signalAborted = false) :
    MuxOk (m.register id c given) := by
  have hsound := h.calls id c hc
  have hearly : c.phase.isEarly = true := by rw [hphase]; rfl
  have hnone := hsound.early hearly
  have hcarrier : ∀ socket, c.carrier = some socket → some given = some socket := by
    intro socket hsome
    rw [hnone] at hsome
    cases hsome
  unfold Mux.register
  split
  · exact h.finish hc hcarrier (hsound.unencodable hearly given _)
  · rename_i payload hpayload
    obtain ⟨messages, hmessages, hview⟩ := view_send m given (.open id c.endpoint payload)
    have hregistered := hsound.register ⟨hphase, hsignal, by rw [hpayload]; rfl⟩
    refine h.setCall hc _ ?_ hregistered ?_ (view_setCall_send hview)
    · intro socket hsome
      rw [carrier_next]
      exact hcarrier socket hsome
    · intro socket other endpoint payload' hmem
      have heq := hmessages _ hmem
      cases heq
      exact ⟨rfl, by rw [carrier_next]⟩

theorem failAll (h : MuxOk m) {socket : Option Nat} (failure : Failure)
    (hsocket : socket = m.socket ∨ NoneConnected m) :
    MuxOk (Mux.failAll { m with socket := socket } failure) := by
  refine h.mapCalls rfl ?_ ?_
  · intro c
    split
    · exact carrier_fail c failure
    · rfl
  · intro id c hc
    have hconnected : ∀ given, c.StandsBefore given → socket = some given := by
      intro given hstands
      rcases hsocket with rfl | hnone
      · exact (h.calls id c hc).connected given hstands
      · exact absurd hstands (hnone id c given hc)
    split
    · exact (h.calls id c hc).fail failure hconnected
    · rename_i hunregistered
      exact (h.calls id c hc).move hconnected fun hregistered => absurd hregistered hunregistered

theorem lost (h : MuxOk m) {socket : Nat} (failure : Failure)
    (hnone : m.socket = some socket → NoneConnected m) : MuxOk (m.lost socket failure) := by
  unfold Mux.lost
  split
  · rename_i hsocket
    exact h.failAll failure (Or.inr (hnone hsocket))
  · exact h

theorem dropSocket (h : MuxOk m) (failure : Failure) (hnone : NoneConnected m) :
    MuxOk (m.dropSocket failure) := by
  unfold Mux.dropSocket
  split
  · exact h
  · exact (h.failAll failure (Or.inr hnone)).of_view (view_closeSocket _ _)

theorem rejectWaiters (h : MuxOk m) (which : Nat → Bool) (failure : Failure) :
    MuxOk (m.rejectWaiters which failure) := by
  refine h.mapCalls rfl ?_ ?_
  · intro c
    split
    · split <;> rfl
    · rfl
  · intro id c hc
    split
    · rename_i revision hphase
      split
      · exact (h.calls id c hc).ofEarly (by rw [hphase]; rfl) rfl nofun
      · exact h.calls id c hc
    · exact h.calls id c hc

theorem reconnect (h : MuxOk m) (hnone : NoneConnected m) : MuxOk m.reconnect := by
  unfold Mux.reconnect
  split
  · exact h
  · have hview := view_rejectCandidate { m with revision := m.revision + 1 } reconnectRequested
    have hrejected := h.of_view hview
    refine (hrejected.dropSocket reconnectRequested ?_).of_view (view_follow _)
    intro id c given hc
    have hcalls := congrArg (fun view => view.2.1) hview
    rw [show Mux.calls _ = m.calls from hcalls] at hc
    exact hnone id c given hc

theorem close (h : MuxOk m) (hnone : NoneConnected m) : MuxOk m.close := by
  unfold Mux.close
  split
  · exact h
  · have hstopped : MuxOk { m with disposed := true, running := false } := h.of_view rfl
    have hfailed : MuxOk (Mux.failAll
        { m with disposed := true, running := false, socket := none } .disposed) :=
      @failAll { m with disposed := true, running := false } hstopped none .disposed
        (Or.inr hnone)
    have hpre := hfailed.rejectWaiters (fun _ => true) .disposed
    let stopped :=
      Mux.rejectWaiters (Mux.failAll { m with disposed := true, running := false } .disposed)
        (fun _ => true) .disposed
    have hview := view_rejectCandidate stopped .disposed
    -- giving up the socket at the end is giving it up with the streams
    have hdropped : view { stopped.rejectCandidate .disposed with socket := none } =
        view { stopped with socket := none } := by
      simp only [view, Prod.mk.injEq] at hview ⊢
      exact ⟨trivial, hview.2⟩
    refine hpre.of_view ?_
    simp only
    split
    · rename_i hsocket
      have hkept : view { stopped.rejectCandidate .disposed with socket := none } =
          (stopped.rejectCandidate .disposed).view :=
        congrArg (fun socket => (socket, (stopped.rejectCandidate .disposed).view.2)) hsocket.symm
      exact hkept.symm.trans hdropped
    · exact (view_closeSocket _ _).trans hdropped

theorem candidateOpened (h : MuxOk m) (hnone : NoneConnected m)
    (hfailed : ∀ id c, m.calls id = some c → c.registered = true → c.failure.isSome = true) :
    MuxOk m.opened := by
  unfold Mux.opened
  split
  · rename_i attempt _
    split
    · refine h.mapCalls rfl ?_ ?_
      · intro c
        split <;> rfl
      · intro id c hc
        have hsound := h.calls id c hc
        split
        · rename_i revision hphase
          refine hsound.ofEarly (by rw [hphase]; rfl) rfl ?_
          intro given heq
          cases heq
          rfl
        · refine hsound.move (fun given hstands => absurd hstands (hnone id c given hc)) ?_
          intro hregistered hfailure
          have hsome := hfailed id c hc hregistered
          rw [hfailure] at hsome
          cases hsome
    · exact h
  · exact h

theorem settle (h : MuxOk m) : MuxOk m.settle := by
  unfold Mux.settle
  split
  · rename_i attempt _
    have hsettled : MuxOk { m with keepAlive := some { attempt with stage := .settled } } :=
      h.of_view rfl
    simp only
    split
    · exact hsettled
    · split
      · exact hsettled.rejectWaiters _ _
      · exact hsettled
    · exact h
  · exact h

theorem openCall (h : MuxOk m) (endpoint : String) (payload : Option Json) (aborted : Bool) :
    MuxOk (m.openCall endpoint payload aborted) := by
  let phase := if aborted then .ended (.threw .aborted) else m.waitForSocket
  let c : Call := { endpoint, payload, signalAborted := aborted, phase }
  have hphase : phase.isReading = false ∧
      ∀ given, phase = .connected given → m.socket = some given := by
    cases aborted with
    | true => exact ⟨rfl, nofun⟩
    | false => exact waitForSocket_phase m
  have hdelivered : c.delivered = [] := delivered_bare rfl rfl hphase.1
  have hsound : CallSound m.socket m.arrived m.callCount c := {
    connected := fun given hstands => hphase.2 given hstands.1
    current := nofun
    reading := by rw [hphase.1]
    carried := nofun
    bare := fun _ => ⟨rfl, rfl⟩
    early := fun _ => rfl
    failed := nofun
    delivered := by
      rw [hdelivered]
      exact nil_prefix
    whole := nofun
    arrived := Nat.zero_le _ }
  have hcalls : ∀ other, (m.openCall endpoint payload aborted).calls other =
      if other = m.callCount then some c else m.calls other := fun _ => rfl
  refine ⟨?_, ?_, ?_⟩
  · intro other d hd
    rw [hcalls] at hd
    split at hd
    · rename_i heq
      cases hd
      rw [heq]
      exact hsound
    · exact h.calls other d hd
  · intro other hother
    have hlt : m.callCount + 1 ≤ other := hother
    rw [hcalls, if_neg (by omega)]
    exact h.fresh other (by omega)
  · intro socket other endpoint' payload' hmem
    obtain ⟨d, hd, hcarrier⟩ := h.opened socket other endpoint' payload' hmem
    refine ⟨d, ?_, hcarrier⟩
    rw [hcalls, if_neg]
    · exact hd
    · rintro rfl
      rw [h.fresh _ (Nat.le_refl _)] at hd
      cases hd

theorem resume (h : MuxOk m) (id : Nat) : MuxOk (m.resume id) := by
  unfold Mux.resume
  split
  · exact h
  rename_i c hc
  have hsound := h.calls id c hc
  have hsame : ∀ socket, c.carrier = some socket → c.carrier = some socket := fun _ heq => heq
  split
  · rename_i given hphase
    split
    · exact h.finish hc hsame (hsound.ended _ _)
    · rename_i hsignal
      exact h.register hc hphase (Bool.eq_false_iff.mpr hsignal)
  · exact h.finish hc hsame (hsound.ended _ _)
  · rename_i hphase
    refine h.setOnly hc ?_ (hsound.next (Or.inl hphase))
    intro socket heq
    rwa [carrier_next]
  · rename_i frame hphase
    split
    · exact h.finish hc hsame (hsound.ended _ _)
    · split
      · exact h.setOnly hc hsame (hsound.yields hphase)
      · exact @finish m id { c with terminal := true } h c hc hsame _ (hsound.ended _ true)
      · exact @finish m id { c with terminal := true } h c hc hsame _ (hsound.ended _ true)
  · exact h.finish hc hsame (hsound.ended _ _)
  · exact h

theorem pull (h : MuxOk m) (id : Nat) : MuxOk (m.pull id) := by
  unfold Mux.pull
  split
  · exact h
  rename_i c hc
  split
  · rename_i hphase
    refine h.setOnly hc ?_ ((h.calls id c hc).next (Or.inr hphase))
    intro socket heq
    rwa [carrier_next]
  · exact h

theorem stop (h : MuxOk m) (id : Nat) : MuxOk (m.stop id) := by
  unfold Mux.stop
  split
  · exact h
  rename_i c hc
  split
  · exact h.finish hc (fun _ heq => heq) ((h.calls id c hc).ended _ _)
  · exact h

theorem abort (h : MuxOk m) (id : Nat) : MuxOk (m.abort id) := by
  unfold Mux.abort
  split
  · exact h
  rename_i c hc
  have hsound := (h.calls id c hc).signal
  have hsame : ∀ socket, c.carrier = some socket → c.carrier = some socket := fun _ heq => heq
  split
  · exact h.setOnly hc hsame hsound
  · rename_i revision hphase
    have hrefused : CallSound m.socket m.arrived id
        { c with signalAborted := true, phase := .refused .aborted } :=
      hsound.ofEarly (by show c.phase.isEarly = true; rw [hphase]; rfl) rfl nofun
    refine h.setOnly hc ?_ (hrefused.fail .aborted hrefused.connected)
    intro socket heq
    rwa [carrier_fail]
  · refine h.setOnly hc ?_ (hsound.fail .aborted hsound.connected)
    intro socket heq
    rwa [carrier_fail]

theorem arrive (h : MuxOk m) (socket : Nat) (data : Option ServerMessage)
    (hother : ∀ id c, m.calls id = some c → c.registered = true → c.failure = none →
      framesFor id c.carrier [(socket, data)] = []) :
    MuxOk { m with arrived := m.arrived ++ [(socket, data)] } :=
  ⟨fun id c hc => (h.calls id c hc).grow (hother id c hc), h.fresh, h.opened⟩

theorem deliver (h : MuxOk m) {socket : Nat} {message : ServerMessage}
    (hsocket : m.socket = some socket) (hc : m.calls message.streamId = some c)
    (hregistered : c.registered = true) :
    MuxOk (Mux.setCall { m with arrived := m.arrived ++ [(socket, some message)] } message.streamId
      (c.push message.frame)) := by
  refine ⟨?_, ?_, ?_⟩
  · intro id d hd
    simp only [Mux.setCall] at hd ⊢
    split at hd
    · rename_i heq
      cases hd
      have hsound := h.calls _ c hc
      rw [hsocket] at hsound ⊢
      rw [heq]
      exact hsound.push hregistered message.frame
    · rename_i hne
      refine (h.calls id d hd).grow ?_
      intro _ _
      simp [framesFor, Ne.symm hne]
  · intro id hid
    simp only [Mux.setCall]
    have hnone := h.fresh id hid
    rw [if_neg]
    · exact hnone
    · rintro rfl
      rw [hc] at hnone
      cases hnone
  · intro given id endpoint payload hmem
    obtain ⟨d, hd, hcarrier⟩ := h.opened given id endpoint payload hmem
    simp only [Mux.setCall]
    by_cases heq : id = message.streamId
    · rw [heq, hc] at hd
      cases hd
      exact ⟨_, by rw [if_pos heq], (carrier_push c message.frame).trans hcarrier⟩
    · exact ⟨d, by rw [if_neg heq]; exact hd, hcarrier⟩

theorem receive (h : MuxOk m) (socket : Nat) (data : Option ServerMessage)
    (hnone : data = none → m.socket = some socket → NoneConnected m) :
    MuxOk (Mux.receive { m with arrived := m.arrived ++ [(socket, data)] } socket data) := by
  unfold Mux.receive
  split
  · rename_i hother
    refine h.arrive socket data ?_
    intro id c hc hregistered hfailure
    have hcarrier := (h.calls id c hc).current hregistered hfailure
    exact framesFor_of_ne (by rw [← hcarrier]; exact hother)
  · rename_i hcurrent
    have hsocket : m.socket = some socket := Decidable.not_not.mp hcurrent
    split
    · rename_i message
      split
      · rename_i c hc
        split
        · rename_i hregistered
          exact h.deliver hsocket hc hregistered
        · rename_i hunregistered
          refine h.arrive socket (some message) ?_
          intro id d hd hregistered _
          refine framesFor_of_streamId_ne ?_
          rintro rfl
          cases hd.symm.trans hc
          exact hunregistered hregistered
      · rename_i hc
        refine h.arrive socket (some message) ?_
        intro id d hd _ _
        refine framesFor_of_streamId_ne ?_
        rintro rfl
        cases hd.symm.trans hc
    · have harrived := h.arrive socket none fun _ _ _ _ _ => rfl
      have hfailed := @failAll _ harrived m.socket
        (.carrier "api gateway: invalid Remote stream frame") (Or.inl rfl)
      refine (hfailed.lost _ ?_).of_view (view_closeSocket _ _)
      intro _
      exact (hnone rfl hsocket).failAll _

theorem step {event : MuxEvent} (h : MuxOk m) (hundisturbed : Undisturbed m event) :
    MuxOk (muxStep m event) := by
  cases event with
  | start => exact h.of_view (view_start m)
  | reconnect => exact h.reconnect hundisturbed
  | close => exact h.close hundisturbed
  | «open» endpoint payload aborted => exact h.openCall endpoint payload aborted
  | resume id => exact h.resume id
  | pull id => exact h.pull id
  | stop id => exact h.stop id
  | abort id => exact h.abort id
  | opened => exact h.candidateOpened hundisturbed.1 hundisturbed.2
  | candidateFailed failure => exact h.of_view (view_rejectCandidate m failure)
  | settle => exact h.settle
  | clear => exact h.of_view (view_clear m)
  | runDue => exact h.of_view (view_runDue m)
  | beginClose socket => exact h.of_view (view_beginClose m socket)
  | socketClosed socket =>
    show MuxOk (m.socketClosed socket)
    unfold socketClosed
    split
    · exact h
    · have hclosed : MuxOk (m.setReadyState socket .closed) := h.of_view rfl
      exact hclosed.lost _ hundisturbed
  | socketFailed socket =>
    show MuxOk (m.socketFailed socket)
    unfold socketFailed
    split
    · exact h
    · exact (h.lost _ hundisturbed).of_view (view_closeSocket _ _)
  | message socket data =>
    refine h.receive socket data ?_
    rintro rfl
    exact hundisturbed

theorem of_reaches (h : MuxReaches m) : MuxOk m := by
  induction h with
  | init =>
    refine ⟨?_, fun _ _ => rfl, ?_⟩
    · intro id c hc
      have hcontra : none = some c := hc
      cases hcontra
    · intro socket id endpoint payload hmem
      exact absurd hmem not_mem_nil
  | step _ hundisturbed ih => exact ih.step hundisturbed

end MuxOk

def EndsWith (m : Mux) (id : Nat) (outcome : Outcome) : Prop :=
  ∃ last, m.calls id = some last ∧ last.phase = .ended outcome

section FailsAlone

variable {m : Mux} {id : Nat} {c : Call}

theorem endsWith_finish (m : Mux) (id : Nat) (c : Call) (outcome : Outcome) :
    EndsWith (m.finish id c outcome) id outcome := by
  obtain ⟨_, _, hview⟩ := view_finish m id c outcome
  have hcalls := congrArg (fun view => view.2.1 id) hview
  refine ⟨{ c with registered := false, phase := .ended outcome }, ?_, rfl⟩
  exact hcalls.trans (if_pos rfl)

variable {outcome : Outcome} {failure : Failure}

theorem EndsWith.resume (h : EndsWith m id outcome) : EndsWith (m.resume id) id outcome := by
  obtain ⟨last, hlast, hphase⟩ := h
  unfold Mux.resume
  rw [hlast]
  simp only [hphase]
  exact ⟨last, hlast, hphase⟩

theorem EndsWith.pull (h : EndsWith m id outcome) : EndsWith (m.pull id) id outcome := by
  obtain ⟨last, hlast, hphase⟩ := h
  unfold Mux.pull
  rw [hlast]
  simp only [hphase]
  exact ⟨last, hlast, hphase⟩

theorem endsWith_of_failing (hc : m.calls id = some c)
    (hphase : c.phase = .failing failure) : EndsWith (m.resume id) id (.threw failure) := by
  unfold Mux.resume
  rw [hc]
  simp only [hphase]
  exact endsWith_finish m id c _

theorem next_of_failed (hframes : c.frames = [])
    (hfailure : c.failure = some failure) : c.next = { c with phase := .failing failure } := by
  unfold Call.next
  rw [hframes, hfailure]

/-- At a `yield` of a failed stream, the next pull fails. -/
theorem endsWith_of_yielded (hc : m.calls id = some c)
    (hphase : c.phase = .yielded) (hframes : c.frames = []) (hfailure : c.failure = some failure) :
    EndsWith ((m.pull id).resume id) id (.threw failure) := by
  have hpull : m.pull id = m.setCall id { c with phase := .failing failure } := by
    unfold Mux.pull
    rw [hc]
    simp only [hphase]
    rw [next_of_failed hframes hfailure]
  rw [hpull]
  exact endsWith_of_failing (if_pos rfl) rfl

theorem failsAlone_of_failed (hc : m.calls id = some c)
    (hreading : c.phase.isReading = true) (hframes : c.frames = []) (hasleep : c.phase ≠ .asleep)
    (hfailure : c.failure = some failure) : FailsAlone m id c := by
  suffices hends : ∃ outcome, EndsWith (((m.resume id).pull id).resume id) id outcome ∧
      ((∃ failure, outcome = .threw failure) ∨
        ∃ frame, c.phase = .delivering frame ∧ frame.isTerminal = true) by
    obtain ⟨outcome, ⟨last, hlast, hphase⟩, houtcome⟩ := hends
    exact ⟨last, outcome, hlast, hphase, houtcome⟩
  cases hphase : c.phase with
  | waiting _ | connected _ | refused _ | ended _ =>
    rw [hphase] at hreading
    cases hreading
  | asleep => exact absurd hphase hasleep
  | woken =>
    have hresume : m.resume id = m.setCall id { c with phase := .failing failure } := by
      unfold Mux.resume
      rw [hc]
      simp only [hphase]
      rw [next_of_failed hframes hfailure]
    have hpull : (m.resume id).pull id = m.resume id := by
      rw [hresume]
      unfold Mux.pull
      simp only [Mux.setCall, if_true]
    refine ⟨.threw failure, ?_, Or.inl ⟨failure, rfl⟩⟩
    rw [hpull, hresume]
    exact endsWith_of_failing (if_pos rfl) rfl
  | delivering frame =>
    cases haborted : c.signalAborted with
    | true =>
      have hends : EndsWith (m.resume id) id (.threw .aborted) := by
        unfold Mux.resume
        rw [hc]
        simp only [hphase, haborted, if_true]
        exact endsWith_finish m id c _
      exact ⟨.threw .aborted, hends.pull.resume, Or.inl ⟨.aborted, rfl⟩⟩
    | false =>
      cases frame with
      | item value =>
        have hresume : m.resume id =
            m.setCall id { c with phase := .yielded, items := c.items ++ [value] } := by
          unfold Mux.resume
          rw [hc]
          simp only [hphase, haborted, Bool.false_eq_true, if_false]
        refine ⟨.threw failure, ?_, Or.inl ⟨failure, rfl⟩⟩
        rw [hresume]
        exact endsWith_of_yielded (if_pos rfl) rfl hframes hfailure
      | «end» =>
        have hends : EndsWith (m.resume id) id .returned := by
          unfold Mux.resume
          rw [hc]
          simp only [hphase, haborted, Bool.false_eq_true, if_false]
          exact endsWith_finish m id _ _
        exact ⟨.returned, hends.pull.resume, Or.inr ⟨.end, rfl, rfl⟩⟩
      | error code message details =>
        have hends : EndsWith (m.resume id) id (.threw (.remote code message details)) := by
          unfold Mux.resume
          rw [hc]
          simp only [hphase, haborted, Bool.false_eq_true, if_false]
          exact endsWith_finish m id _ _
        exact ⟨_, hends.pull.resume, Or.inl ⟨_, rfl⟩⟩
  | failing failure' =>
    have hends := endsWith_of_failing hc hphase
    exact ⟨.threw failure', hends.pull.resume, Or.inl ⟨failure', rfl⟩⟩
  | yielded =>
    have hresume : m.resume id = m := by
      unfold Mux.resume
      rw [hc]
      simp only [hphase]
    refine ⟨.threw failure, ?_, Or.inl ⟨failure, rfl⟩⟩
    rw [hresume]
    exact endsWith_of_yielded hc hphase hframes hfailure

end FailsAlone

theorem MuxOk.streamsSound {m : Mux} (h : MuxOk m) : StreamsSound m := by
  refine ⟨h.opened, ?_, ?_⟩
  · intro id c socket hc hcarrier hlost
    have hsound := h.calls id c hc
    cases hregistered : c.registered with
    | false =>
      left
      cases hphase : c.phase with
      | ended _ => rfl
      | waiting _ | connected _ | refused _ =>
        have hnone := hsound.early (by rw [hphase]; rfl)
        rw [hcarrier] at hnone
        cases hnone
      | _ =>
        have hcontra := hsound.reading.mpr (by rw [hphase]; rfl)
        rw [hregistered] at hcontra
        cases hcontra
    | true =>
      right
      cases hfailure : c.failure with
      | none => exact absurd ((hsound.current hregistered hfailure).trans hcarrier) hlost
      | some failure =>
        obtain ⟨hframes, hasleep⟩ := hsound.failed (by rw [hfailure]; rfl)
        exact ⟨hasleep, failsAlone_of_failed hc (hsound.reading.mp hregistered) hframes hasleep
          hfailure⟩
  · intro id c hc
    exact (h.calls id c hc).delivered

/-- Over every run in which no socket is given up or replaced behind the back of a call. -/
theorem streams_sound {m : Mux} (h : MuxReaches m) : StreamsSound m :=
  (MuxOk.of_reaches h).streamsSound

/-- A stream whose socket is given up after an item has arrived. -/
theorem streams_sound_reconnected :
    StreamsSound (runMux {} [.start, .opened, .settle, .clear, .open "session" (some .null) false,
      .resume 0, .message 0 (some ⟨0, .item none⟩), .reconnect]) := by
  let before := runMux {} [.start, .opened, .settle, .clear, .open "session" (some .null) false,
    .resume 0, .message 0 (some ⟨0, .item none⟩)]
  have hopened : Undisturbed (runMux {} [.start]) .opened :=
    ⟨fun _ _ _ hc => (nomatch hc), fun _ _ hc => (nomatch hc)⟩
  have hstarted := @MuxReaches.step _ .start .init trivial
  have hcleared := @MuxReaches.step _ .clear
    (@MuxReaches.step _ .settle (@MuxReaches.step _ .opened hstarted hopened) trivial) trivial
  have hresumed := @MuxReaches.step _ (.resume 0)
    (@MuxReaches.step _ (.open "session" (some .null) false) hcleared trivial) trivial
  have hbefore : MuxReaches before :=
    @MuxReaches.step _ (.message 0 (some ⟨0, .item none⟩)) hresumed trivial
  have hnone : NoneConnected before := by
    intro id c socket hc hstands
    cases id with
    | zero =>
      cases hc
      exact nomatch hstands.1
    | succ id =>
      have hfresh := (MuxOk.of_reaches hbefore).fresh (id + 1) (Nat.le_add_left 1 id)
      rw [hfresh] at hc
      cases hc
  exact streams_sound (@MuxReaches.step before .reconnect hbefore hnone)

/-- A `reconnect` right after `open` was called leaves the stream asleep on the socket it gave up;
so does a candidate that opens while the socket of a stream is closing. -/
theorem streams_stranded :
    ¬ StreamsSound (runMux {} [.start, .opened, .settle, .clear,
      .open "session" (some .null) false, .reconnect, .resume 0]) ∧
    ¬ StreamsSound (runMux {} [.start, .opened, .settle, .clear,
      .open "session" (some .null) false, .resume 0, .beginClose 0, .start, .opened,
      .socketClosed 0]) := by
  let c : Call :=
    { endpoint := "session", payload := some .null, phase := .asleep, carrier := some 0,
      registered := true, opened := true }
  refine ⟨?_, ?_⟩
  · intro h
    rcases h.fails 0 c 0 rfl rfl nofun with hended | ⟨hasleep, _⟩
    · cases hended
    · exact hasleep rfl
  · intro h
    rcases h.fails 0 c 0 rfl rfl nofun with hended | ⟨hasleep, _⟩
    · cases hended
    · exact hasleep rfl

end DshKernel.Gateway
