import DshKernel.Agent.RequestRuns
import DshKernel.Lib.History

/-!
# The pool of tool calls

What runs at any time is what the group has in flight and has not seen settle: no more than its cap,
and alone when it is exclusive. A group that has nothing in flight has committed what it started.
-/

namespace DshKernel.Agent

open Js Lib Session Llm

def runningNext (running : List (Nat × ExecutionMode)) : Happening → List (Nat × ExecutionMode)
  | .dispatched position mode => running ++ [(position, mode)]
  | .bodySettled position => running.filter fun body => body.1 ≠ position
  | _ => running

def running (history : List Happening) : List (Nat × ExecutionMode) := history.foldl runningNext []

def AdmittedAlone (before : List Happening) : Happening → Prop
  | .dispatched _ .exclusive => running before = []
  | .dispatched _ .parallel => ∀ body ∈ running before, body.2 = .parallel
  | _ => True

namespace Group

def Filled (group : Group) (index : Nat) : Prop := ∃ slot, group.slots[index]? = some (some slot)

def Accounts (group : Group) (started : Nat) : Prop :=
  group.schedulerFailure = none → ∀ index < started,
    group.Filled index ∨ index ∈ group.inFlight ∧ index ∉ group.settled

def Blames (group : Group) : Prop := group.schedulerFailure ≠ none → group.inFlight ≠ []

def Caught (group : Group) : Prop :=
  group.committed < group.started → group.Filled group.committed →
    group.committed ∈ group.inFlight

def Quiet (group : Group) : Prop := ∀ index ∈ group.inFlight, index ∈ group.settled

end Group

section Running

variable {history : List Happening} {happening : Happening}

@[simp] theorem running_concat :
    running (history ++ [happening]) = runningNext (running history) happening := by
  simp [running]

end Running

section Pool

variable (out : Outside)

structure Group.Ok (group : Group) : Prop where
  slots : group.slots.length = group.calls.length
  seqs : group.callSeqs.length = group.calls.length
  started : group.started ≤ group.calls.length
  committed : group.committed ≤ group.started
  flight : ∀ index ∈ group.inFlight, index < group.started
  settled : ∀ index ∈ group.settled, index < group.started
  filled : ∀ index, group.Filled index → index < group.started
  logged : ∀ index < group.started, ∃ seq, group.callSeqs[index]? = some (some seq)
  nodup : group.inFlight.Nodup
  cap : group.inFlight.length ≤ group.maxParallelToolCalls
  alone : group.mode = .exclusive → group.calls.length ≤ 1
  first : ∀ call, group.calls[0]? = some call → ∃ time, out.executionMode time call = .ok group.mode
  modes : ∀ index < group.started, ∀ call, group.calls[index]? = some call →
    ∃ time, out.executionMode time call = .ok group.mode

def ToolPoint.Pools (group : Group) : ToolPoint → Prop
  | .between => group.inFlight = []
  | .pool =>
    group.nextToStart = group.started ∧ group.Accounts group.started ∧ group.Blames ∧ group.Caught
  | .starting index call =>
    group.nextToStart = group.started ∧ group.Accounts group.started ∧ group.Blames ∧
      index = group.started ∧ group.inFlight.length < group.maxParallelToolCalls ∧
      group.calls[index]? = some call ∧ out.Admits group index call
  | .called index _ =>
    group.nextToStart = group.started ∧ group.Accounts group.started ∧ group.Blames ∧
      index = group.started ∧ group.inFlight.length < group.maxParallelToolCalls ∧
      ∃ call, group.calls[index]? = some call ∧ out.Admits group index call
  | .registered index =>
    group.nextToStart + 1 = group.started ∧ group.Accounts index ∧ group.Blames ∧
      index + 1 = group.started ∧ group.inFlight.length < group.maxParallelToolCalls ∧
      index ∉ group.inFlight ∧ index ∉ group.settled
  | .placed =>
    group.nextToStart + 1 = group.started ∧ group.Accounts group.started ∧ group.Blames
  | .changed => group.nextToStart = group.started ∧ group.Accounts group.started
  | .commits left =>
    group.nextToStart = group.started ∧ group.Accounts group.started ∧ group.Blames ∧
      group.calls.length ≤ group.committed + left
  | .committing left _ _ _ =>
    group.nextToStart = group.started ∧ group.Accounts group.started ∧ group.Blames ∧
      group.calls.length ≤ group.committed + left + 1 ∧ group.committed < group.started
  | .resulted left _ _ =>
    group.nextToStart = group.started ∧ group.Accounts group.started ∧ group.Blames ∧
      group.calls.length ≤ group.committed + left + 1 ∧ group.committed < group.started
  | .accepting left _ _ =>
    group.nextToStart = group.started ∧ group.Accounts group.started ∧ group.Blames ∧
      group.calls.length ≤ group.committed + left + 1 ∧ group.committed < group.started
  | .finishing started _ =>
    group.inFlight = [] ∧ started = group.started ∧ group.committed = group.started
  | .skipping _ _ => group.inFlight = []
  | .skipCalled _ _ _ _ => group.inFlight = []
  | .skipResulted _ _ => group.inFlight = []
  | .failing _ => True
  | .leaving (.returned _) => group.inFlight = []
  | .leaving .failed => group.Quiet

def Control.Pools (group : Group) : Control → Prop
  | .inStep _ _ (.tools point) => point.Pools out group
  | _ => group.Quiet

structure Pooled (tools : ToolRun) (history : List Happening) : Prop where
  running : running history =
    (tools.group.inFlight.filter fun index => index ∉ tools.group.settled).map fun index =>
      (tools.next + index, tools.group.mode)
  alone : Throughout AdmittedAlone history
  ok : tools.group.Ok out

end Pool

section Settling

variable {out : Outside} {group : Group} {tools : ToolRun} {history : List Happening} {index : Nat}
  {outcome : Except Failure Slot} {slot : Slot}

theorem filled_set {position : Nat} :
    Group.Filled { group with slots := group.slots.set index (some slot) } position →
      position = index ∨ group.Filled position := by
  rintro ⟨found, hfound⟩
  by_cases heq : index = position
  · exact .inl heq.symm
  · have hfound : (group.slots.set index (some slot))[position]? = some (some found) := hfound
    rw [List.getElem?_set_ne heq] at hfound
    exact .inr ⟨found, hfound⟩

theorem filled_of_set (hindex : index < group.slots.length) {position : Nat}
    (h : position = index ∨ group.Filled position) :
    Group.Filled { group with slots := group.slots.set index (some slot) } position := by
  by_cases heq : index = position
  · subst heq
    exact ⟨slot, List.getElem?_set_self hindex⟩
  · obtain ⟨found, hfound⟩ := h.resolve_left fun h => heq h.symm
    refine ⟨found, ?_⟩
    show (group.slots.set index (some slot))[position]? = _
    rw [List.getElem?_set_ne heq]
    exact hfound

theorem Group.Ok.slot_lt (h : group.Ok out) (hindex : index < group.started) :
    index < group.slots.length := by
  rw [h.slots]
  exact Nat.lt_of_lt_of_le hindex h.started

structure SettlesTo (group : Group) (index : Nat) (after : Group) : Prop where
  flight : after.inFlight = group.inFlight
  settled : after.settled = index :: group.settled
  started : after.started = group.started
  committed : after.committed = group.committed
  nextToStart : after.nextToStart = group.nextToStart
  calls : after.calls = group.calls
  seqs : after.callSeqs = group.callSeqs
  cap : after.maxParallelToolCalls = group.maxParallelToolCalls
  mode : after.mode = group.mode
  slots : after.slots.length = group.slots.length
  filled : ∀ position, after.Filled position → position = index ∨ group.Filled position
  answers : after.schedulerFailure = none → group.schedulerFailure = none ∧
    ∀ position, position = index ∨ group.Filled position → after.Filled position

theorem settlesTo_settle (hindex : index < tools.group.slots.length) :
    SettlesTo tools.group index (tools.settle index outcome).group := by
  cases outcome with
  | ok slot =>
    refine ⟨rfl, rfl, rfl, rfl, rfl, rfl, rfl, rfl, rfl, List.length_set, ?_, ?_⟩
    · exact fun position h => filled_set h
    · exact fun hfailure => ⟨hfailure, fun position h => filled_of_set hindex h⟩
  | error failure =>
    refine ⟨rfl, rfl, rfl, rfl, rfl, rfl, rfl, rfl, rfl, rfl, fun position h => .inr h, ?_⟩
    intro hfailure
    have hfailure : tools.group.schedulerFailure.or (some failure) = none := hfailure
    cases hfound : tools.group.schedulerFailure <;> simp [hfound] at hfailure

variable {after : Group}

theorem Group.Ok.settle (h : group.Ok out) (hafter : SettlesTo group index after)
    (hindex : index < group.started) : after.Ok out where
  slots := by rw [hafter.slots, hafter.calls]; exact h.slots
  seqs := by rw [hafter.seqs, hafter.calls]; exact h.seqs
  started := by rw [hafter.started, hafter.calls]; exact h.started
  committed := by rw [hafter.committed, hafter.started]; exact h.committed
  flight := by rw [hafter.flight, hafter.started]; exact h.flight
  settled := by
    rw [hafter.settled, hafter.started]
    exact List.forall_mem_cons.mpr ⟨hindex, h.settled⟩
  filled := by
    intro position hposition
    rw [hafter.started]
    rcases hafter.filled position hposition with rfl | hfilled
    · exact hindex
    · exact h.filled position hfilled
  logged := by rw [hafter.started, hafter.seqs]; exact h.logged
  nodup := by rw [hafter.flight]; exact h.nodup
  cap := by rw [hafter.flight, hafter.cap]; exact h.cap
  alone := by rw [hafter.mode, hafter.calls]; exact h.alone
  first := by rw [hafter.mode, hafter.calls]; exact h.first
  modes := by rw [hafter.started, hafter.mode, hafter.calls]; exact h.modes

theorem Group.Accounts.settle {started : Nat} (h : group.Accounts started)
    (hafter : SettlesTo group index after) : after.Accounts started := by
  intro hfailure position hposition
  obtain ⟨hbefore, hfilled⟩ := hafter.answers hfailure
  rw [hafter.flight, hafter.settled]
  rcases h hbefore position hposition with hslot | ⟨hflight, hsettled⟩
  · exact .inl (hfilled position (.inr hslot))
  · by_cases heq : position = index
    · exact .inl (hfilled position (.inl heq))
    · exact .inr ⟨hflight, fun hmem => (List.mem_cons.mp hmem).elim heq hsettled⟩

theorem Group.Blames.settle (hafter : SettlesTo group index after) (hflight : index ∈ group.inFlight) :
    after.Blames := by
  intro _
  rw [hafter.flight]
  exact List.ne_nil_of_mem hflight

theorem Group.Caught.settle (h : group.Caught) (hafter : SettlesTo group index after)
    (hflight : index ∈ group.inFlight) : after.Caught := by
  intro hlt hfilled
  rw [hafter.committed, hafter.flight]
  rw [hafter.committed, hafter.started] at hlt
  rw [hafter.committed] at hfilled
  rcases hafter.filled _ hfilled with heq | hfilled
  · rw [heq]
    exact hflight
  · exact h hlt hfilled

theorem ToolPoint.Pools.settle {point : ToolPoint} (h : point.Pools out group)
    (hafter : SettlesTo group index after) (hflight : index ∈ group.inFlight)
    (hsettled : index ∉ group.settled) (hstarted : index < group.started) : point.Pools out after := by
  have hempty : group.inFlight ≠ [] := List.ne_nil_of_mem hflight
  have hblames := Group.Blames.settle hafter hflight
  have hadmits : ∀ {position : Nat} {call : ToolCallBlock}, out.Admits group position call →
      out.Admits after position call := by
    intro position call hadmits
    unfold Outside.Admits at hadmits ⊢
    rw [hafter.mode]
    exact hadmits
  cases point with
  | pool =>
    obtain ⟨hnext, haccounts, -, hcaught⟩ := h
    refine ⟨?_, ?_, hblames, hcaught.settle hafter hflight⟩
    · rw [hafter.nextToStart, hafter.started]
      exact hnext
    · rw [hafter.started]
      exact haccounts.settle hafter
  | starting position call =>
    obtain ⟨hnext, haccounts, -, hposition, hcap, hcall, hadmitted⟩ := h
    simp only [Pools, hafter.nextToStart, hafter.started, hafter.flight, hafter.cap, hafter.calls]
    exact ⟨hnext, haccounts.settle hafter, hblames, hposition, hcap, hcall, hadmits hadmitted⟩
  | called position seq =>
    obtain ⟨hnext, haccounts, -, hposition, hcap, call, hcall, hadmitted⟩ := h
    simp only [Pools, hafter.nextToStart, hafter.started, hafter.flight, hafter.cap, hafter.calls]
    exact ⟨hnext, haccounts.settle hafter, hblames, hposition, hcap, call, hcall, hadmits hadmitted⟩
  | registered position =>
    obtain ⟨hnext, haccounts, -, hposition, hcap, hfresh, hunsettled⟩ := h
    simp only [Pools, hafter.nextToStart, hafter.started, hafter.flight, hafter.cap, hafter.settled]
    refine ⟨hnext, haccounts.settle hafter, hblames, hposition, hcap, hfresh, ?_⟩
    intro hmem
    rcases List.mem_cons.mp hmem with rfl | hmem
    · exact hfresh hflight
    · exact hunsettled hmem
  | placed =>
    obtain ⟨hnext, haccounts, -⟩ := h
    simp only [Pools, hafter.nextToStart, hafter.started]
    exact ⟨hnext, haccounts.settle hafter, hblames⟩
  | changed =>
    obtain ⟨hnext, haccounts⟩ := h
    simp only [Pools, hafter.nextToStart, hafter.started]
    exact ⟨hnext, haccounts.settle hafter⟩
  | commits left =>
    obtain ⟨hnext, haccounts, -, hleft⟩ := h
    simp only [Pools, hafter.nextToStart, hafter.started, hafter.calls, hafter.committed]
    exact ⟨hnext, haccounts.settle hafter, hblames, hleft⟩
  | committing left call slot seq =>
    obtain ⟨hnext, haccounts, -, hleft⟩ := h
    simp only [Pools, hafter.nextToStart, hafter.started, hafter.calls, hafter.committed]
    exact ⟨hnext, haccounts.settle hafter, hblames, hleft⟩
  | resulted left slot result =>
    obtain ⟨hnext, haccounts, -, hleft⟩ := h
    simp only [Pools, hafter.nextToStart, hafter.started, hafter.calls, hafter.committed]
    exact ⟨hnext, haccounts.settle hafter, hblames, hleft⟩
  | accepting left result contexts =>
    obtain ⟨hnext, haccounts, -, hleft⟩ := h
    simp only [Pools, hafter.nextToStart, hafter.started, hafter.calls, hafter.committed]
    exact ⟨hnext, haccounts.settle hafter, hblames, hleft⟩
  | between => exact absurd h hempty
  | finishing started concluded => exact absurd h.1 hempty
  | skipping calls rest => exact absurd h hempty
  | skipCalled call seq calls rest => exact absurd h hempty
  | skipResulted calls rest => exact absurd h hempty
  | failing failure => trivial
  | leaving exit =>
    cases exit with
    | returned concluded => exact absurd h hempty
    | failed => exact absurd (h index hflight) hsettled

theorem Control.Pools.settle {c : Control} (h : c.Pools out group) (hafter : SettlesTo group index after)
    (hflight : index ∈ group.inFlight) (hsettled : index ∉ group.settled)
    (hstarted : index < group.started) : c.Pools out after := by
  have hquiet : group.Quiet → after.Quiet := fun h => absurd (h index hflight) hsettled
  cases c with
  | inStep vars step stage =>
    cases stage with
    | tools point => exact ToolPoint.Pools.settle h hafter hflight hsettled hstarted
    | _ => exact hquiet h
  | _ => exact hquiet h

theorem Pooled.settle (h : Pooled out tools history) (hflight : index ∈ tools.group.inFlight) :
    Pooled out (tools.settle index outcome) (history ++ [.bodySettled (tools.next + index)]) := by
  have hstarted := h.ok.flight index hflight
  have hafter : SettlesTo tools.group index (tools.settle index outcome).group :=
    settlesTo_settle (h.ok.slot_lt hstarted)
  have hnext : (tools.settle index outcome).next = tools.next := by cases outcome <;> rfl
  refine ⟨?_, throughout_concat.mpr ⟨h.alone, trivial⟩, h.ok.settle hafter hstarted⟩
  rw [running_concat, hafter.flight, hafter.settled, hafter.mode, hnext]
  simp only [runningNext, h.running, List.filter_map, List.filter_filter]
  congr 1
  apply List.filter_congr
  intro position _
  simp

end Settling

section Scheduling

variable {out : Outside} {w w' : AgentWorld} {group : Group} {point point' : ToolPoint}

theorem not_filled_of_not_ready (h : group.Ok out) (hready : ¬group.Ready)
    (hlt : group.committed < group.started) : ¬group.Filled group.committed := by
  rintro ⟨slot, hslot⟩
  obtain ⟨seq, hseq⟩ := h.logged _ hlt
  have hcalls := Nat.lt_of_lt_of_le hlt h.started
  exact hready ⟨slot, _, seq, hslot, List.getElem?_eq_getElem hcalls, hseq⟩

theorem committed_of_empty (h : group.Ok out) (hpools : ToolPoint.pool.Pools out group)
    (hflight : group.inFlight = []) : group.committed = group.started := by
  obtain ⟨-, haccounts, hblames, hcaught⟩ := hpools
  have hfailure : group.schedulerFailure = none := by
    by_contra hfailure
    exact hblames hfailure hflight
  refine Nat.le_antisymm h.committed (Nat.not_lt.mp fun hlt => ?_)
  rcases haccounts hfailure _ hlt with hfilled | ⟨hmem, -⟩
  · have hmem := hcaught hlt hfilled
    rw [hflight] at hmem
    cases hmem
  · rw [hflight] at hmem
    cases hmem

theorem quiet_of_empty (h : group.inFlight = []) : group.Quiet := by
  intro index hindex
  rw [h] at hindex
  cases hindex

theorem ToolMoves.pools (hmoves : ToolMoves out w point point') (hok : w.tools.group.Ok out)
    (h : point.Pools out w.tools.group) : point'.Pools out w.tools.group := by
  cases hmoves with
  | done => exact h
  | unclassified => exact quiet_of_empty h
  | start hcall _ hcap hadmits =>
    obtain ⟨hnext, haccounts, hblames, -⟩ := h
    exact ⟨hnext, haccounts, hblames, hnext, hcap, hcall, hadmits⟩
  | recheck => exact ⟨h.1, h.2.1⟩
  | commits hfailure =>
    refine ⟨h.1, h.2, fun hfailed => absurd hfailure hfailed, ?_⟩
    exact Nat.le_add_left _ _
  | @uncommittable left hleft =>
    obtain ⟨hnext, haccounts, hblames, hlength⟩ := h
    refine ⟨hnext, haccounts, hblames, ?_⟩
    intro hlt hfilled
    rcases hleft with rfl | hready
    · have hstarted := hok.started
      omega
    · exact absurd hfilled (not_filled_of_not_ready hok hready hlt)
  | commit hslot =>
    obtain ⟨hnext, haccounts, hblames, hlength⟩ := h
    exact ⟨hnext, haccounts, hblames, by omega, hok.filled _ ⟨_, hslot⟩⟩
  | finish hflight _ hcommitted => exact ⟨hflight, rfl, hcommitted⟩
  | uncommitted hflight => exact quiet_of_empty hflight
  | skip hflight => exact hflight
  | skipped => exact h
  | unskipped => exact quiet_of_empty h
  | unanswered => exact quiet_of_empty h
  | drained hsettled =>
    intro index hindex
    exact List.contains_iff_mem.mp (List.all_eq_true.mp hsettled index hindex)

theorem ok_openGroup {calls : List ToolCallBlock} {mode : ExecutionMode} {cap time : Nat}
    {aborted : Bool} {first : ToolCallBlock} {rest : List ToolCallBlock}
    (hcalls : calls = if mode = .parallel then first :: rest else [first])
    (hmode : out.executionMode time first = .ok mode) : (openGroup calls mode cap aborted).Ok out where
  slots := List.length_map _
  seqs := List.length_map _
  started := Nat.zero_le _
  committed := Nat.le_refl _
  flight := nofun
  settled := nofun
  filled := by
    rintro index ⟨slot, hslot⟩
    have hslot : (calls.map fun _ => (none : Option Slot))[index]? = some (some slot) := hslot
    rw [List.getElem?_map] at hslot
    cases hcall : calls[index]? <;> simp [hcall] at hslot
  logged := nofun
  nodup := List.nodup_nil
  cap := Nat.zero_le _
  alone := by
    intro halone
    have halone : mode = .exclusive := halone
    show calls.length ≤ 1
    rw [hcalls, halone]
    exact Nat.le_refl 1
  first := by
    intro call hcall
    have hcall : calls[0]? = some call := hcall
    have hfirst : calls[0]? = some first := by
      rw [hcalls]
      split <;> rfl
    obtain rfl := Option.some.inj (hfirst.symm.trans hcall)
    exact ⟨time, hmode⟩
  modes := nofun

theorem mode_of_admits (h : group.Ok out) {index : Nat} {call : ToolCallBlock}
    (hcall : group.calls[index]? = some call) (hadmits : out.Admits group index call) :
    ∃ time, out.executionMode time call = .ok group.mode := by
  rcases Nat.eq_zero_or_pos index with rfl | hpos
  · exact h.first call hcall
  · cases hmode : group.mode with
    | parallel => exact hadmits hpos hmode
    | exclusive =>
      have hlength := h.alone hmode
      have hindex := (List.getElem?_eq_some_iff.mp hcall).1
      omega

theorem Group.Ok.register (h : group.Ok out) {seq : Nat} {call : ToolCallBlock}
    (hcall : group.calls[group.started]? = some call) (hadmits : out.Admits group group.started call) :
    (group.register group.started seq).Ok out := by
  have hlt : group.started < group.calls.length := (List.getElem?_eq_some_iff.mp hcall).1
  refine ⟨h.slots, List.length_set.trans h.seqs, hlt, Nat.le_succ_of_le h.committed, ?_, ?_, ?_, ?_,
    h.nodup, h.cap, h.alone, h.first, ?_⟩
  · exact fun index hindex => Nat.lt_succ_of_lt (h.flight index hindex)
  · exact fun index hindex => Nat.lt_succ_of_lt (h.settled index hindex)
  · exact fun index hindex => Nat.lt_succ_of_lt (h.filled index hindex)
  · intro index hindex
    show ∃ found, (group.callSeqs.set group.started (some seq))[index]? = some (some found)
    by_cases heq : group.started = index
    · subst heq
      exact ⟨seq, List.getElem?_set_self (by rw [h.seqs]; exact hlt)⟩
    · rw [List.getElem?_set_ne heq]
      have hindex : index < group.started + 1 := hindex
      exact h.logged index (by omega)
  · intro index hindex other hother
    have hindex : index < group.started + 1 := hindex
    by_cases heq : index = group.started
    · have hother : group.calls[index]? = some other := hother
      rw [heq, hcall] at hother
      obtain rfl := Option.some.inj hother
      exact mode_of_admits h hcall hadmits
    · exact h.modes index (by omega) other hother

theorem running_nil (h : Pooled out w.tools w.history) (hquiet : w.tools.group.Quiet) :
    running w.history = [] := by
  rw [h.running, List.filter_eq_nil_iff.mpr]
  · rfl
  · intro index hindex
    simpa using hquiet index hindex

theorem Pooled.launch (h : Pooled out w.tools w.history) {index : Nat}
    (hpools : (ToolPoint.registered index).Pools out w.tools.group) :
    Pooled out (w.tools.launch index)
      (w.history ++ [.dispatched (w.tools.next + index) w.tools.group.mode]) := by
  obtain ⟨-, -, -, hindex, hcap, hfresh, hunsettled⟩ := hpools
  have hok := h.ok
  refine ⟨?_, throughout_concat.mpr ⟨h.alone, ?_⟩, ?_⟩
  · rw [running_concat, runningNext, h.running]
    simp only [ToolRun.launch, List.filter_append, List.map_append]
    congr 1
    simp [hunsettled]
  · cases hmode : w.tools.group.mode with
    | parallel =>
      intro body hbody
      rw [h.running] at hbody
      obtain ⟨position, -, rfl⟩ := List.mem_map.mp hbody
      exact hmode
    | exclusive =>
      have hlength := hok.alone hmode
      have hstarted := hok.started
      apply running_nil h
      intro position hposition
      have hlt := hok.flight position hposition
      have heq : position = index := by omega
      exact absurd (heq ▸ hposition) hfresh
  · refine { hok with flight := ?_, nodup := ?_, cap := ?_ }
    · intro position hposition
      rcases List.mem_append.mp hposition with hposition | hposition
      · exact hok.flight position hposition
      · rw [List.mem_singleton.mp hposition]
        show index < w.tools.group.started
        omega
    · refine List.nodup_append.mpr ⟨hok.nodup, by simp, ?_⟩
      intro position hposition other hother heq
      exact hfresh (List.mem_singleton.mp hother ▸ heq ▸ hposition)
    · show (w.tools.group.inFlight ++ [index]).length ≤ _
      rw [List.length_append, List.length_singleton]
      exact hcap

theorem ToolWrites.pools (hwrites : ToolWrites out point w point' w')
    (h : Pooled out w.tools w.history) (hpools : point.Pools out w.tools.group) :
    Pooled out w'.tools w'.history ∧ point'.Pools out w'.tools.group := by
  have hok := h.ok
  cases hwrites with
  | openGroup hdrop hmode =>
    have hnone := running_nil h (quiet_of_empty hpools)
    refine ⟨⟨hnone, h.alone, ok_openGroup rfl hmode⟩, rfl, nofun, fun hfailure => absurd rfl hfailure, nofun⟩
  | register =>
    obtain ⟨hnext, haccounts, hblames, rfl, hcap, call, hcall, hadmits⟩ := hpools
    refine ⟨⟨h.running, h.alone, hok.register hcall hadmits⟩, ?_⟩
    refine ⟨congrArg (· + 1) hnext, haccounts, hblames, rfl, hcap, ?_, ?_⟩
    · exact fun hmem => Nat.lt_irrefl _ (hok.flight _ hmem)
    · exact fun hmem => Nat.lt_irrefl _ (hok.settled _ hmem)
  | @launch _ index =>
    refine ⟨h.launch hpools, ?_⟩
    obtain ⟨hnext, haccounts, -, hindex, -, -, hunsettled⟩ := hpools
    refine ⟨hnext, ?_, fun _ => List.append_ne_nil_of_right_ne_nil _ nofun⟩
    intro hfailure position hposition
    have hposition : position < w.tools.group.started := hposition
    by_cases heq : position = index
    · subst heq
      exact .inr ⟨List.mem_append_right _ List.mem_cons_self, hunsettled⟩
    · rcases haccounts hfailure position (by omega) with hfilled | ⟨hmem, hsettled⟩
      · exact .inl hfilled
      · exact .inr ⟨List.mem_append_left _ hmem, hsettled⟩
  | @answer _ index slot =>
    obtain ⟨hnext, haccounts, hblames, hindex, -⟩ := hpools
    have hlt : index < w.tools.group.started := by omega
    refine ⟨⟨h.running, h.alone, ?_⟩, hnext, ?_, hblames⟩
    · refine { hok with slots := List.length_set.trans hok.slots, filled := ?_ }
      intro position hposition
      rcases filled_set hposition with rfl | hfilled
      · exact hlt
      · exact hok.filled position hfilled
    · intro hfailure position hposition
      have hposition : position < w.tools.group.started := hposition
      have hset := @filled_of_set w.tools.group index slot (hok.slot_lt hlt) position
      by_cases heq : position = index
      · exact .inl (hset (.inl heq))
      · rcases haccounts hfailure position (by omega) with hfilled | hrunning
        · exact .inl (hset (.inr hfilled))
        · exact .inr hrunning
  | advance =>
    refine ⟨⟨h.running, h.alone, { hok with }⟩, hpools.1, hpools.2.1⟩
  | noteAbort =>
    exact ⟨⟨h.running, h.alone, { hok with }⟩, hpools⟩
  | @race _ index hflight hsettled =>
    have hsub : ∀ position ∈ w.tools.group.inFlight.erase index, position ∈ w.tools.group.inFlight :=
      fun position hposition => List.mem_of_mem_erase hposition
    refine ⟨⟨?_, h.alone, { hok with
      flight := fun position hposition => hok.flight position (hsub position hposition)
      nodup := hok.nodup.erase _, cap := ?_ }⟩, hpools.1, ?_⟩
    · rw [h.running]
      show _ = ((w.tools.group.inFlight.erase index).filter _).map _
      rw [hok.nodup.erase_eq_filter, List.filter_filter]
      congr 1
      apply List.filter_congr
      intro position _
      by_cases heq : position = index
      · subst heq
        simp [hsettled]
      · simp [heq]
    · exact Nat.le_trans (List.length_erase_le) hok.cap
    · intro hfailure position hposition
      rcases hpools.2.1 hfailure position hposition with hfilled | ⟨hmem, hunsettled⟩
      · exact .inl hfilled
      · refine .inr ⟨(List.mem_erase_of_ne ?_).mpr hmem, hunsettled⟩
        rintro rfl
        exact hunsettled hsettled
  | commit => exact ⟨⟨h.running, h.alone, hok⟩, hpools⟩
  | accept => exact ⟨⟨h.running, h.alone, hok⟩, hpools⟩
  | committed =>
    obtain ⟨hnext, haccounts, hblames, hlength, hlt⟩ := hpools
    refine ⟨⟨h.running, h.alone, { hok with committed := hlt }⟩, hnext, haccounts, hblames, ?_⟩
    show w.tools.group.calls.length ≤ w.tools.group.committed + 1 + _
    omega
  | fail =>
    exact ⟨⟨h.running, h.alone, { hok with }⟩, trivial⟩
  | finish =>
    have hnone := running_nil h (quiet_of_empty hpools.1)
    refine ⟨⟨?_, h.alone, hok⟩, hpools.1⟩
    rw [hnone, hpools.1]
    rfl
  | skip => exact ⟨⟨h.running, h.alone, hok⟩, hpools⟩
  | skipGroup =>
    have hflight : w.tools.group.inFlight = [] := hpools
    have hnone := running_nil h (quiet_of_empty hflight)
    refine ⟨⟨?_, h.alone, hok⟩, hpools⟩
    rw [hnone, hflight]
    rfl

end Scheduling

section Runs

variable {out : Outside} {foreign : Foreign} {init w w' : AgentWorld} {c c' : Control}
  {history noted : List Happening} {tools : ToolRun}

def isBodiless : Happening → Prop
  | .dispatched _ _ => False
  | .bodySettled _ => False
  | _ => True

theorem Pooled.append (h : Pooled out tools history) (hnoted : ∀ happening ∈ noted, isBodiless happening) :
    Pooled out tools (history ++ noted) := by
  induction noted generalizing history with
  | nil =>
    rw [List.append_nil]
    exact h
  | cons happening noted ih =>
    obtain ⟨hfirst, hnoted⟩ := List.forall_mem_cons.mp hnoted
    rw [List.append_cons]
    refine ih ⟨?_, throughout_concat.mpr ⟨h.alone, ?_⟩, h.ok⟩ hnoted
    · rw [running_concat, ← h.running]
      cases happening <;> first | rfl | cases hfirst
    · cases happening <;> trivial

theorem Pooled.concat (h : Pooled out tools history) {happening : Happening} (hfirst : isBodiless happening) :
    Pooled out tools (history ++ [happening]) :=
  h.append (List.forall_mem_singleton.mpr hfirst)

theorem Noted.isBodiless {latched : Bool} (h : Noted w latched noted) :
    ∀ happening ∈ noted, isBodiless happening := by
  cases h with
  | nothing => exact nofun
  | sent => exact List.forall_mem_singleton.mpr trivial

structure PoolOf (out : Outside) (c : Control) (w : AgentWorld) : Prop where
  pooled : Pooled out w.tools w.history
  pools : c.Pools out w.tools.group

theorem OthersStep.pools (hstep : OthersStep foreign w w') (h : PoolOf out c w) : PoolOf out c w' := by
  cases hstep with
  | settle hflight hsettled =>
    have hstarted := h.pooled.ok.flight _ hflight
    refine ⟨h.pooled.settle hflight, h.pools.settle ?_ hflight hsettled hstarted⟩
    exact settlesTo_settle (h.pooled.ok.slot_lt hstarted)
  | latch _ hnoted => exact ⟨h.pooled.append hnoted.isBodiless, h.pools⟩
  | note _ hnoted => exact ⟨h.pooled.append hnoted.isBodiless, h.pools⟩
  | spliced => exact ⟨h.pooled.concat trivial, h.pools⟩
  | abort => exact ⟨h.pooled.concat trivial, h.pools⟩
  | cleared => exact ⟨h.pooled.concat trivial, h.pools⟩
  | _ => exact ⟨h.pooled, h.pools⟩

theorem StepWrites.pools {stage stage' : Stage} {vars : TurnVars} {step : Nat}
    (hwrites : StepWrites out stage w stage' w') (h : PoolOf out (.inStep vars step stage) w) :
    PoolOf out (.inStep vars step stage') w' := by
  obtain ⟨hpooled, hpools⟩ := h
  cases hwrites with
  | requested => exact ⟨hpooled.concat trivial, hpools⟩
  | maxTokens => exact ⟨hpooled.concat trivial, hpools⟩
  | noCalls => exact ⟨hpooled.concat trivial, hpools⟩
  | toolsDone => exact ⟨hpooled.concat trivial, hpools⟩
  | openTools =>
    have hnone : running w.history = [] := running_nil hpooled hpools
    refine ⟨⟨hnone, hpooled.alone, ?_⟩, rfl⟩
    exact ⟨rfl, rfl, Nat.le_refl _, Nat.le_refl _, nofun, nofun, nofun, nofun, List.nodup_nil,
      Nat.zero_le _, fun _ => Nat.zero_le _, nofun, nofun⟩
  | toolsReturn => exact ⟨⟨hpooled.running, hpooled.alone, hpooled.ok⟩, quiet_of_empty hpools⟩
  | toolsFail => exact ⟨⟨hpooled.running, hpooled.alone, hpooled.ok⟩, hpools⟩
  | tool hwrites =>
    obtain ⟨hpooled, hpools⟩ := hwrites.pools hpooled hpools
    exact ⟨hpooled, hpools⟩

theorem Moves.pools (hmoves : Moves out w c c') (hok : w.tools.group.Ok out)
    (h : c.Pools out w.tools.group) : c'.Pools out w.tools.group := by
  cases hmoves with
  | inStep hmoves =>
    cases hmoves with
    | tool hmoves => exact hmoves.pools hok h
    | _ => exact h
  | @stepEndRefused _ _ stage hover =>
    cases stage <;> first | exact h | cases hover
  | fail hturn =>
    cases c <;> first | exact h | cases hturn
  | _ => exact h

theorem Logs.pools {data : EventData} {sourceEventSeqs surfaceOp : Option Json} {seq : Nat}
    {group : Group} (hlogs : Logs out c data sourceEventSeqs surfaceOp seq c')
    (h : c.Pools out group) : c'.Pools out group := by
  cases hlogs with
  | inStep hlogs =>
    cases hlogs with
    | tool hlogs =>
      cases hlogs with
      | call =>
        obtain ⟨hnext, haccounts, hblames, hindex, hcap, hcall⟩ := h
        exact ⟨hnext, haccounts, hblames, hindex, hcap, _, hcall⟩
      | result => exact h
      | skippedCall => exact h
      | skippedResult => exact h
    | _ => exact h
  | _ => exact h

theorem Writes.pools (hwrites : Writes out c w c' w') (h : PoolOf out c w) : PoolOf out c' w' := by
  cases hwrites with
  | inStep hwrites => exact hwrites.pools h
  | stepOpened => exact ⟨h.pooled, h.pools⟩
  | _ => exact ⟨h.pooled.concat trivial, h.pools⟩

theorem PhaseStep.pools (hstep : PhaseStep c w c' w') (h : PoolOf out c w) : PoolOf out c' w' := by
  cases hstep with
  | wake _ hnoted =>
    exact ⟨h.pooled.append (List.forall_mem_cons.mpr ⟨trivial, hnoted.isBodiless⟩), h.pools⟩
  | maintained => exact ⟨h.pooled.concat trivial, h.pools⟩
  | _ => exact ⟨h.pooled, h.pools⟩

theorem AgentStep.pools (hstep : AgentStep out foreign c w c' w') (h : PoolOf out c w) :
    PoolOf out c' w' := by
  cases hstep with
  | others hstep => exact hstep.pools h
  | phase hstep => exact hstep.pools h
  | moves hstep => exact ⟨h.pooled, hstep.pools h.pooled.ok h.pools⟩
  | writes hstep => exact hstep.pools h
  | logs _ hstep => exact ⟨h.pooled, hstep.pools h.pools⟩

theorem AgentRuns.pools (hruns : AgentRuns out foreign init c w) (hhistory : init.history = [])
    (htools : init.tools.group = {}) : PoolOf out c w := by
  refine hruns.invariant (PoolOf out) ?_ fun _ h hstep => hstep.pools h
  intro _
  refine ⟨⟨?_, ?_, ?_⟩, ?_⟩
  · rw [hhistory, htools]
    rfl
  · rw [hhistory]
    exact throughout_nil
  · rw [htools]
    exact ⟨rfl, rfl, Nat.le_refl _, Nat.le_refl _, nofun, nofun, nofun, nofun, List.nodup_nil,
      Nat.zero_le _, fun _ => Nat.zero_le _, nofun, nofun⟩
  · rw [htools]
    exact nofun

end Runs

end DshKernel.Agent
