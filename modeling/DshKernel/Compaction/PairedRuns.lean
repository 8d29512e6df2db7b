import DshKernel.Compaction.ToolPairing
import DshKernel.Session.Derivations

/-!
# Runs of tool-pairing queries

Whatever is appended and asked in between, a query answers as the fold over the current surface
does, and where each result answers an earlier call of its own the answer is about the calls.
-/

namespace DshKernel.Compaction

open Js Session SurfaceManager Lib List

def eventMarks (event : SessionEvent) : List (Mark String) :=
  match event.data with
  | .assistantMessage data => (data.message.content.filterMap toolCallId).map .opens
  | .toolResult data => [.closes data.message.block.toolCallId]
  | _ => []

def surfaceMarks (events : List SessionEvent) (nodes : List Nat) : List (Mark String) :=
  nodes.flatMap fun seq => (events[seq]?.map eventMarks).getD []

section Marks

variable {events : List SessionEvent} {nodes : List Nat} {opening : Nat → Nat}

theorem balance_calls (content : List ContentBlock) :
    Mark.balance ((content.filterMap toolCallId).map .opens) =
      (content.filter isToolCall).length := by
  induction content with
  | nil => rfl
  | cons block rest ih =>
    cases hid : toolCallId block with
    | none =>
      have hnot : ¬isToolCall block = true := by simp [isToolCall, hid]
      rw [filterMap_cons_none hid, filter_cons_of_neg hnot, ih]
    | some id =>
      have hcall : isToolCall block = true := by simp [isToolCall, hid]
      rw [filterMap_cons_some hid, filter_cons_of_pos hcall, map_cons,
        ← singleton_append, Mark.balance_append, ih, Mark.balance_singleton, length_cons]
      show (1 : Int) + _ = _
      omega

theorem balance_eventMarks (event : SessionEvent) :
    Mark.balance (eventMarks event) = eventDelta event := by
  unfold eventMarks eventDelta
  cases event.data with
  | assistantMessage data => exact balance_calls data.message.content
  | toolResult data => rfl
  | _ => rfl

theorem balance_surfaceMarks (events : List SessionEvent) (nodes : List Nat) :
    Mark.balance (surfaceMarks events nodes) = openCalls events nodes := by
  induction nodes with
  | nil => rfl
  | cons seq rest ih =>
    rw [openCalls_cons, ← ih, surfaceMarks, flatMap_cons, Mark.balance_append]
    congr 1
    cases events[seq]? with
    | none => rfl
    | some event => exact balance_eventMarks event

theorem surfaceMarks_take (events : List SessionEvent) (nodes : List Nat) (cut : Nat) :
    surfaceMarks events (nodes.take cut) =
      (surfaceMarks events nodes).take (surfaceMarks events (nodes.take cut)).length := by
  have hsplit : surfaceMarks events nodes =
      surfaceMarks events (nodes.take cut) ++ surfaceMarks events (nodes.drop cut) := by
    rw [surfaceMarks, surfaceMarks, surfaceMarks, ← flatMap_append, take_append_drop]
  rw [hsplit, take_left]

theorem openCalls_take_eq (events : List SessionEvent) (nodes : List Nat) (cut : Nat) :
    openCalls events (nodes.take cut) = Mark.balance ((surfaceMarks events nodes).take
      (surfaceMarks events (nodes.take cut)).length) := by
  rw [← surfaceMarks_take, balance_surfaceMarks]

theorem openCalls_take_eq_zero_iff (h : Mark.Answers (surfaceMarks events nodes) opening)
    (cut : Nat) :
    openCalls events (nodes.take cut) = 0 ↔ Mark.AllClosed (surfaceMarks events nodes) opening
      (surfaceMarks events (nodes.take cut)).length := by
  rw [openCalls_take_eq]
  exact h.balance_eq_zero_iff _

theorem exists_scanTail_ok (hevents : ∀ seq ∈ nodes, ∃ event, events[seq]? = some event ∧
      event.seq = seq) {start : Int} (hstart : 0 ≤ start)
    (hnonneg : ∀ cut, 0 ≤ start + openCalls events (nodes.take cut)) :
    ∃ scanned, scanTail events nodes start = .ok scanned := by
  induction nodes generalizing start with
  | nil => exact ⟨_, rfl⟩
  | cons seq rest ih =>
    obtain ⟨event, hevent, hseq⟩ := hevents seq mem_cons_self
    have hdelta : ∀ nodes, openCalls events (seq :: nodes) =
        eventDelta event + openCalls events nodes := by
      intro nodes
      rw [openCalls_cons, hevent]
      rfl
    have hfirst : 0 ≤ start + eventDelta event := by
      have hone := hnonneg 1
      rw [take_succ_cons, hdelta, take_zero, openCalls_nil] at hone
      omega
    obtain ⟨⟨cuts, last⟩, hrest⟩ := ih
      (fun other hmem => hevents other (mem_cons_of_mem _ hmem)) hfirst (by
        intro cut
        have hcut := hnonneg (cut + 1)
        rw [take_succ_cons, hdelta] at hcut
        omega)
    refine ⟨(decide (start + eventDelta event = 0) :: cuts, last), ?_⟩
    rw [scanTail, hevent]
    simp only [hseq, ne_eq, not_true_eq_false, if_false, Int.not_lt.mpr hfirst, hrest]

end Marks

structure PairedSession.Kept (p : PairedSession) : Prop where
  live : Live p.session.log p.session.manager p.session.nextRef
  cached : ∀ cache, p.cache = some cache → ∃ n state replacements, n ≤ p.events.length ∧
    Folds (p.events.take n) state replacements ∧
    freshCache p.events state.replaceGeneration state.nodes = .ok cache

namespace PairedSession

section Steps

variable {p : PairedSession} {state : SurfaceFoldState}
  {replacements : List SurfaceFoldReplacement}

theorem balanceCache_eq (h : p.Kept) (hfold : Folds p.events state replacements) :
    ∃ manager, Live p.session.log manager p.session.nextRef ∧
      p.balanceCache =
        match freshCache p.events state.replaceGeneration state.nodes with
        | .error message => (.error message, { p with session := { p.session with manager } })
        | .ok cache => (.ok cache, ⟨{ p.session with manager }, some cache⟩) := by
  obtain ⟨heap, htracks⟩ := h.live.tracks
  have hnodes := readNodes_eq htracks hfold
  have hgeneration := readReplaceGeneration_eq (readNodes_tracks htracks) hfold
  refine ⟨_, h.live.readNodes.readReplaceGeneration, ?_⟩
  have hsynchronized : synchronized p.events p.cache state.replaceGeneration state.nodes =
      freshCache p.events state.replaceGeneration state.nodes := by
    apply synchronized_eq
    intro cache hcache
    obtain ⟨n, earlier, _, hn, hearlier, hfresh⟩ := h.cached cache hcache
    obtain ⟨_, _, _, hfields⟩ := freshCache_eq_ok.mp hfresh
    have hgen : cache.generation = earlier.replaceGeneration := by rw [hfields]
    refine ⟨earlier.nodes, by rw [hgen]; exact hfresh, ?_⟩
    intro heq
    exact (hfold.nodes_isPrefix hn hearlier).2 (hgen.symm.trans heq)
  unfold balanceCache surfaceNodes
  rw [show readNodes p.session.log p.session.manager =
    (.ok state.nodes, (readNodes p.session.log p.session.manager).2) from Prod.ext hnodes rfl]
  simp only [replaceGeneration]
  rw [show readReplaceGeneration p.session.log (readNodes p.session.log p.session.manager).2 =
    (.ok state.replaceGeneration, (readReplaceGeneration p.session.log
      (readNodes p.session.log p.session.manager).2).2) from Prod.ext hgeneration rfl]
  simp only
  show (match synchronized p.events p.cache state.replaceGeneration state.nodes with
    | .error message => _
    | .ok cache => _) = _
  rw [hsynchronized]

/-- What a query leaves: the same log, and the balances of the current surface, unless the surface
is corrupt. -/
structure Answered (p next : PairedSession) (state : SurfaceFoldState) : Prop where
  events : next.events = p.events
  kept : next.Kept
  unchanged : ∀ message, freshCache p.events state.replaceGeneration state.nodes = .error message →
    next.cache = p.cache
  current : ∀ cache, freshCache p.events state.replaceGeneration state.nodes = .ok cache →
    next.cache = some cache

theorem cutBalanceAt_spec (h : p.Kept) (hfold : Folds p.events state replacements)
    (seq : Nat) {offset : Nat} (hoffset : offset ≤ 1) :
    (p.cutBalanceAt seq offset).1 = fromScratch p.events state.nodes seq offset ∧
      Answered p (p.cutBalanceAt seq offset).2 state := by
  obtain ⟨manager, hlive, heq⟩ := balanceCache_eq h hfold
  unfold cutBalanceAt
  rw [heq]
  cases hfresh : freshCache p.events state.replaceGeneration state.nodes with
  | error message =>
    refine ⟨?_, rfl, ⟨hlive, h.cached⟩, fun _ _ => rfl, ?_⟩
    · unfold fromScratch
      unfold freshCache extendCache at hfresh
      simp only [emptyCache, length_singleton, Nat.sub_self, drop_zero] at hfresh
      cases hscan : scanTail p.events state.nodes 0 with
      | error other =>
        rw [hscan] at hfresh
        cases hfresh
        rfl
      | ok scanned =>
        rw [hscan] at hfresh
        cases hfresh
    · intro cache hcache
      rw [hfresh] at hcache
      cases hcache
  | ok cache =>
    refine ⟨cutBalance_fresh hfold.nodup_nodes hoffset hfresh seq, rfl, ⟨hlive, ?_⟩, ?_, ?_⟩
    · intro other hother
      cases hother
      refine ⟨p.events.length, state, replacements, Nat.le_refl _, ?_, hfresh⟩
      show Folds (p.events.take p.events.length) state replacements
      rwa [take_length]
    · intro message hmessage
      rw [hfresh] at hmessage
      cases hmessage
    · intro other hother
      rw [hfresh] at hother
      cases hother
      rfl

theorem Kept.append (h : p.Kept) (data : EventData) (opts : SurfaceIntent) (now : Clock)
    (veto : Option String) : (p.append data opts now veto).Kept := by
  unfold PairedSession.append
  rcases append_cases h.live data opts now veto with
    ⟨message, manager, nextRef, heq, hlive⟩ | ⟨event, manager, heq, hlive, -, -⟩
  · rw [heq]
    exact ⟨hlive, h.cached⟩
  · rw [heq]
    refine ⟨hlive, ?_⟩
    intro cache hcache
    obtain ⟨n, state, replacements, hn, hfold, hfresh⟩ := h.cached cache hcache
    have hevents : SurfaceManager.events (p.session.log ++ [⟨p.session.nextRef, event⟩]) =
        p.events ++ [event] := by
      rw [events_append]
      rfl
    have hlt : ∀ seq ∈ state.nodes, seq < p.events.length := by
      intro seq hseq
      have hseq' := hfold.nodes_lt seq hseq
      rw [length_take] at hseq'
      omega
    refine ⟨n, state, replacements, ?_, ?_, ?_⟩
    · show n ≤ (SurfaceManager.events (p.session.log ++ [⟨p.session.nextRef, event⟩])).length
      rw [hevents, length_append]
      omega
    · show Folds ((SurfaceManager.events
        (p.session.log ++ [⟨p.session.nextRef, event⟩])).take n) state replacements
      rw [hevents, take_append_of_le_length hn]
      exact hfold
    · show freshCache (SurfaceManager.events (p.session.log ++ [⟨p.session.nextRef, event⟩])) _ _ =
        _
      rw [hevents, freshCache_append_events [event] hlt]
      exact hfresh

theorem Kept.folds (h : p.Kept) : ∃ state replacements, Folds p.events state replacements :=
  h.live.folds

theorem Kept.cutBalanceAt (h : p.Kept) (seq : Nat) {offset : Nat} (hoffset : offset ≤ 1) :
    (p.cutBalanceAt seq offset).2.Kept := by
  obtain ⟨state, replacements, hfold⟩ := h.folds
  exact (cutBalanceAt_spec h hfold seq hoffset).2.kept

theorem Later.kept {later : PairedSession} (h : p.Kept) (hlater : Later p later) : later.Kept := by
  induction hlater with
  | refl => exact h
  | append data opts now veto _ ih => exact ih.append data opts now veto
  | balancedBefore seq _ ih => exact ih.cutBalanceAt seq (Nat.zero_le 1)
  | balancedAfter seq _ ih => exact ih.cutBalanceAt seq (Nat.le_refl 1)

end Steps

end PairedSession

inductive CutSide where
  | before
  | after

namespace CutSide

def offset : CutSide → Nat
  | before => 0
  | after => 1

def ask : CutSide → PairedSession → Nat → Except String Bool × PairedSession
  | before => PairedSession.toolPairingBalancedBefore
  | after => PairedSession.toolPairingBalancedAfter

end CutSide

section Construction

variable {restored : Bool} {seed : Option (List SessionEvent)} {header : Except String Json}
variable {supplied : Option Nat} {now : Clock} {s : Session}

theorem kept_create (h : Session.build restored seed header supplied now = .ok s) :
    PairedSession.Kept ⟨s, none⟩ := by
  refine ⟨(CachedSession.cachesOk_create h).live, ?_⟩
  intro cache hcache
  cases hcache

theorem scanTail_ok_of_answers {events : List SessionEvent} {state : SurfaceFoldState}
    {replacements : List SurfaceFoldReplacement} {opening : Nat → Nat}
    (hfold : Folds events state replacements)
    (h : Mark.Answers (surfaceMarks events state.nodes) opening) :
    ∃ scanned, scanTail events state.nodes 0 = .ok scanned := by
  apply exists_scanTail_ok
  · intro seq hseq
    have hlt := hfold.nodes_lt seq hseq
    exact ⟨events[seq], getElem?_eq_getElem hlt, hfold.seq_eq seq hlt⟩
  · exact Int.le_refl 0
  · intro cut
    rw [Int.zero_add, openCalls_take_eq]
    exact h.balance_nonneg _

def promptedPair : PairedSession :=
  (⟨freshSession, none⟩ : PairedSession).append (.userMessage ⟨"prompt", [], .user⟩)
    { surfaceOp := some (.str "append") } epoch none

theorem later_promptedPair : PairedSession.Later ⟨freshSession, none⟩ promptedPair :=
  .append _ _ _ _ (.refl _)

def repromptedPair : PairedSession :=
  (promptedPair.toolPairingBalancedAfter 0).2.append (.userMessage ⟨"more", [], .user⟩)
    { surfaceOp := some (.str "append") } epoch none

end Construction

end DshKernel.Compaction
