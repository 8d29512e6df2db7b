import DshKernel.Lib.OrderedMap
import DshKernel.Lib.Pairing
import DshKernel.Session.Provenance
import DshKernel.Session.SessionLog

/-!
# Tool-pairing balance

Which cuts of a surface separate no tool call from its result. The balances of a session are kept
from one query to the next, and extended or rebuilt when the surface has moved on.
-/

namespace DshKernel.Compaction

open Js Session SurfaceManager Lib List

def toolCallId : ContentBlock → Option String
  | .toolCall id _ _ => some id
  | _ => none

def isToolCall (block : ContentBlock) : Bool := (toolCallId block).isSome

def eventDelta (event : SessionEvent) : Int :=
  match event.data with
  | .assistantMessage data => (data.message.content.filter isToolCall).length
  | .toolResult _ => -1
  | _ => 0

structure BalanceCache where
  generation : Nat
  cutBalanced : List Bool
  indexBySeq : OrderedMap Nat Nat
  inProgressToolCalls : Int

section Cache

variable (events : List SessionEvent)

/-- The loop of `extendCache` over the unseen tail: its cuts, and the calls in progress after. -/
def scanTail : List Nat → Int → Except String (List Bool × Int)
  | [], inProgress => .ok ([], inProgress)
  | seq :: rest, inProgress =>
    match events[seq]? with
    | none =>
      .error (s!"tool-pairing balance: surface seq {seq} has no matching session event "
        ++ "(corrupt surface)")
    | some event =>
      if event.seq ≠ seq then
        .error (s!"tool-pairing balance: surface seq {seq} has no matching session event "
          ++ "(corrupt surface)")
      else if inProgress + eventDelta event < 0 then
        .error (s!"tool-pairing balance: tool/result at surface seq {seq} has no matching "
          ++ "tool-call (corrupt surface)")
      else
        match scanTail rest (inProgress + eventDelta event) with
        | .error message => .error message
        | .ok (cuts, last) => .ok (decide (inProgress + eventDelta event = 0) :: cuts, last)

/-- `tail.forEach((seq, offset) => cache.indexBySeq.set(seq, processed + offset))` -/
def indexTail (index : OrderedMap Nat Nat) (processed : Nat) (tail : List Nat) :
    OrderedMap Nat Nat :=
  (tail.zipIdx processed).foldl (fun index entry => index.set entry.1 entry.2) index

def extendCache (cache : BalanceCache) (seqs : List Nat) : Except String BalanceCache :=
  let processed := cache.cutBalanced.length - 1
  let tail := seqs.drop processed
  match scanTail events tail cache.inProgressToolCalls with
  | .error message => .error message
  | .ok (pendingCuts, inProgress) => .ok {
      generation := cache.generation
      cutBalanced := cache.cutBalanced ++ pendingCuts
      indexBySeq := indexTail cache.indexBySeq processed tail
      inProgressToolCalls := inProgress }

def emptyCache (generation : Nat) : BalanceCache := ⟨generation, [true], .empty, 0⟩

/-- The body of `balanceCache`, given the surface. -/
def synchronized (cached : Option BalanceCache) (generation : Nat) (seqs : List Nat) :
    Except String BalanceCache :=
  match cached with
  | none => extendCache events (emptyCache generation) seqs
  | some cached =>
    if cached.generation ≠ generation ∨ seqs.length < cached.cutBalanced.length - 1 then
      extendCache events (emptyCache generation) seqs
    else if cached.cutBalanced.length - 1 < seqs.length then extendCache events cached seqs
    else .ok cached

end Cache

def cutBalance (cache : BalanceCache) (seq offset : Nat) : Except String Bool :=
  match (cache.indexBySeq.get? seq).bind fun index => cache.cutBalanced[index + offset]? with
  | none => .error s!"tool-pairing balance: surface seq {seq} not found"
  | some balanced => .ok balanced

/-- A session with what `balanceCacheBySession` has for it. -/
structure PairedSession where
  session : Session
  cache : Option BalanceCache := none

namespace PairedSession

def events (p : PairedSession) : List SessionEvent := p.session.events

def append (p : PairedSession) (data : EventData) (opts : SurfaceIntent) (now : Clock)
    (veto : Option String) : PairedSession :=
  { p with session := (p.session.append data opts now veto).2 }

/-- `session.surface.nodes` -/
def surfaceNodes (p : PairedSession) : Except String (List Nat) × PairedSession :=
  match readNodes p.session.log p.session.manager with
  | (result, manager) => (result, { p with session := { p.session with manager } })

/-- `session.surface.replaceGeneration` -/
def replaceGeneration (p : PairedSession) : Except String Nat × PairedSession :=
  match readReplaceGeneration p.session.log p.session.manager with
  | (result, manager) => (result, { p with session := { p.session with manager } })

def balanceCache (p : PairedSession) : Except String BalanceCache × PairedSession :=
  match p.surfaceNodes with
  | (.error message, p) => (.error message, p)
  | (.ok seqs, p) =>
    match p.replaceGeneration with
    | (.error message, p) => (.error message, p)
    | (.ok generation, p) =>
      match synchronized p.events p.cache generation seqs with
      | .error message => (.error message, p)
      | .ok cache => (.ok cache, { p with cache := some cache })

/-- The balance of the cut at the position of `seq` plus `offset`. -/
def cutBalanceAt (p : PairedSession) (seq offset : Nat) : Except String Bool × PairedSession :=
  match p.balanceCache with
  | (.error message, p) => (.error message, p)
  | (.ok cache, p) => (cutBalance cache seq offset, p)

def toolPairingBalancedBefore (p : PairedSession) (seq : Nat) : Except String Bool × PairedSession :=
  p.cutBalanceAt seq 0

def toolPairingBalancedAfter (p : PairedSession) (seq : Nat) : Except String Bool × PairedSession :=
  p.cutBalanceAt seq 1

inductive Later : PairedSession → PairedSession → Prop where
  | refl (p : PairedSession) : Later p p
  | append {p later : PairedSession} (data : EventData) (opts : SurfaceIntent) (now : Clock)
      (veto : Option String) : Later p later → Later p (later.append data opts now veto)
  | balancedBefore {p later : PairedSession} (seq : Nat) :
      Later p later → Later p (later.toolPairingBalancedBefore seq).2
  | balancedAfter {p later : PairedSession} (seq : Nat) :
      Later p later → Later p (later.toolPairingBalancedAfter seq).2

end PairedSession

section Scratch

variable (events : List SessionEvent)

def openCalls (nodes : List Nat) : Int :=
  (nodes.map fun seq => (events[seq]?.map eventDelta).getD 0).sum

def fromScratch (nodes : List Nat) (seq offset : Nat) : Except String Bool :=
  match scanTail events nodes 0, nodes.idxOf? seq with
  | .error message, _ => .error message
  | .ok _, none => .error s!"tool-pairing balance: surface seq {seq} not found"
  | .ok _, some index => .ok (decide (openCalls events (nodes.take (index + offset)) = 0))

def freshCache (generation : Nat) (nodes : List Nat) : Except String BalanceCache :=
  extendCache events (emptyCache generation) nodes

end Scratch

section Scan

variable {events : List SessionEvent} {nodes more : List Nat} {start last : Int}
  {cuts : List Bool}

@[simp] theorem openCalls_nil : openCalls events [] = 0 := rfl

theorem openCalls_cons (seq : Nat) (rest : List Nat) :
    openCalls events (seq :: rest) =
      (events[seq]?.map eventDelta).getD 0 + openCalls events rest := by
  simp [openCalls]

theorem scanTail_append (nodes more : List Nat) (start : Int) :
    scanTail events (nodes ++ more) start =
      match scanTail events nodes start with
      | .error message => .error message
      | .ok (cuts, last) =>
        match scanTail events more last with
        | .error message => .error message
        | .ok (later, last) => .ok (cuts ++ later, last) := by
  induction nodes generalizing start with
  | nil =>
    simp only [nil_append, scanTail]
    cases hmore : scanTail events more start <;> rfl
  | cons seq rest ih =>
    rw [cons_append, scanTail, scanTail]
    cases events[seq]? with
    | none => rfl
    | some event =>
      simp only
      split
      · rfl
      · split
        · rfl
        · rw [ih]
          cases scanTail events rest (start + eventDelta event) with
          | error message => rfl
          | ok scanned =>
            simp only
            cases scanTail events more scanned.2 <;> rfl

theorem scanTail_cons_eq_ok {seq : Nat} {rest : List Nat}
    (h : scanTail events (seq :: rest) start = .ok (cuts, last)) :
    ∃ event later, events[seq]? = some event ∧ event.seq = seq ∧
      0 ≤ start + eventDelta event ∧
      scanTail events rest (start + eventDelta event) = .ok (later, last) ∧
      cuts = decide (start + eventDelta event = 0) :: later := by
  rw [scanTail] at h
  cases hevent : events[seq]? with
  | none =>
    rw [hevent] at h
    cases h
  | some event =>
    rw [hevent] at h
    simp only at h
    split at h
    · cases h
    · rename_i hseq
      split at h
      · cases h
      · rename_i hnonneg
        cases hrest : scanTail events rest (start + eventDelta event) with
        | error message =>
          rw [hrest] at h
          cases h
        | ok scanned =>
          rw [hrest] at h
          cases h
          exact ⟨event, _, rfl, not_not.mp hseq, by omega, hrest, rfl⟩

theorem scanTail_spec (h : scanTail events nodes start = .ok (cuts, last)) :
    cuts.length = nodes.length ∧ last = start + openCalls events nodes ∧
      ∀ k, k < nodes.length →
        cuts[k]? = some (decide (start + openCalls events (nodes.take (k + 1)) = 0)) := by
  induction nodes generalizing start cuts with
  | nil =>
    rw [scanTail] at h
    cases h
    refine ⟨rfl, by simp, ?_⟩
    intro k hk
    cases hk
  | cons seq rest ih =>
    obtain ⟨event, later, hevent, -, -, hrest, rfl⟩ := scanTail_cons_eq_ok h
    obtain ⟨hlength, hlast, hcuts⟩ := ih hrest
    have hdelta : (events[seq]?.map eventDelta).getD 0 = eventDelta event := by
      rw [hevent]
      rfl
    refine ⟨by simp [hlength], ?_, ?_⟩
    · rw [hlast, openCalls_cons, hdelta]
      omega
    · intro k hk
      rw [take_succ_cons, openCalls_cons, hdelta]
      cases k with
      | zero => simp
      | succ k =>
        rw [getElem?_cons_succ, hcuts k (by simpa using hk)]
        simp only [Option.some.injEq, decide_eq_decide]
        constructor <;> intro hzero <;> omega

theorem scanTail_append_events (later : List SessionEvent)
    (h : ∀ seq ∈ nodes, seq < events.length) (start : Int) :
    scanTail (events ++ later) nodes start = scanTail events nodes start := by
  induction nodes generalizing start with
  | nil => rfl
  | cons seq rest ih =>
    have hseq : seq < events.length := h seq mem_cons_self
    have hrest := ih fun seq hmem => h seq (mem_cons_of_mem _ hmem)
    rw [scanTail, scanTail, getElem?_append_left hseq]
    cases events[seq]? with
    | none => rfl
    | some event => simp only [hrest]

end Scan

section Caches

variable {events : List SessionEvent} {nodes more : List Nat} {generation : Nat}
  {cache : BalanceCache}

theorem freshCache_append_events (later : List SessionEvent)
    (h : ∀ seq ∈ nodes, seq < events.length) :
    freshCache (events ++ later) generation nodes = freshCache events generation nodes := by
  unfold freshCache extendCache
  simp only [emptyCache, length_singleton, Nat.sub_self, drop_zero,
    scanTail_append_events later h]

theorem freshCache_eq_ok :
    freshCache events generation nodes = .ok cache ↔ ∃ cuts last,
      scanTail events nodes 0 = .ok (cuts, last) ∧
        cache = ⟨generation, true :: cuts, indexTail .empty 0 nodes, last⟩ := by
  unfold freshCache extendCache
  simp only [emptyCache, length_singleton, Nat.sub_self, drop_zero]
  cases scanTail events nodes 0 with
  | error message => simp
  | ok scanned =>
    obtain ⟨cuts, last⟩ := scanned
    simp [eq_comm]

theorem extendCache_fresh (h : freshCache events generation nodes = .ok cache) :
    extendCache events cache (nodes ++ more) = freshCache events generation (nodes ++ more) := by
  obtain ⟨cuts, last, hscan, rfl⟩ := freshCache_eq_ok.mp h
  have hlength : cuts.length = nodes.length := (scanTail_spec hscan).1
  unfold freshCache extendCache
  simp only [emptyCache, length_cons, length_nil, Nat.sub_self, drop_zero,
    Nat.add_sub_cancel, hlength, drop_left, scanTail_append, hscan]
  cases scanTail events more last with
  | error message => rfl
  | ok scanned =>
    simp [indexTail, zipIdx_append]

theorem synchronized_eq {cached : Option BalanceCache}
    (h : ∀ cache, cached = some cache → ∃ earlier, freshCache events cache.generation earlier =
      .ok cache ∧ (cache.generation = generation → earlier <+: nodes)) :
    synchronized events cached generation nodes = freshCache events generation nodes := by
  unfold synchronized
  cases cached with
  | none => rfl
  | some cache =>
    obtain ⟨earlier, hfresh, hearlier⟩ := h cache rfl
    simp only
    split
    · rfl
    · rename_i hstale
      rw [not_or, not_not] at hstale
      obtain ⟨hgeneration, -⟩ := hstale
      obtain ⟨later, rfl⟩ := hearlier hgeneration
      obtain ⟨cuts, last, hscan, hcache⟩ := freshCache_eq_ok.mp hfresh
      have hlength : cache.cutBalanced.length - 1 = earlier.length := by
        rw [hcache]
        exact (scanTail_spec hscan).1
      rw [← hgeneration]
      split
      · exact extendCache_fresh hfresh
      · rename_i hle
        rw [hlength, length_append] at hle
        have hnil : later = [] := eq_nil_of_length_eq_zero (by omega)
        rw [hnil, append_nil]
        exact hfresh.symm

theorem entries_indexTail {index : OrderedMap Nat Nat} {processed : Nat} {tail : List Nat}
    (hfresh : ∀ seq ∈ tail, seq ∉ index.keys) (hnodup : tail.Nodup) :
    (indexTail index processed tail).entries = index.entries ++ tail.zipIdx processed := by
  induction tail generalizing index processed with
  | nil => simp [indexTail]
  | cons seq rest ih =>
    obtain ⟨hseq, hrest⟩ := nodup_cons.mp hnodup
    have hentries := OrderedMap.entries_set_of_not_mem (v := processed)
      (hfresh seq mem_cons_self)
    have hnext := @ih (index.set seq processed) (processed + 1) (by
      intro other hother hmem
      rw [OrderedMap.keys, hentries, map_append, mem_append] at hmem
      rcases hmem with hold | hnew
      · exact hfresh other (mem_cons_of_mem _ hother) hold
      · rw [map_singleton, mem_singleton] at hnew
        rw [hnew] at hother
        exact hseq hother) hrest
    rw [hentries] at hnext
    rw [zipIdx_cons]
    show (indexTail (index.set seq processed) (processed + 1) rest).entries = _
    rw [hnext, append_assoc, singleton_append]

theorem lookup_zipIdx (nodes : List Nat) (start seq : Nat) :
    (nodes.zipIdx start).lookup seq = (nodes.idxOf? seq).map (start + ·) := by
  induction nodes generalizing start with
  | nil => rfl
  | cons node rest ih =>
    rw [zipIdx_cons, idxOf?_cons]
    by_cases heq : node = seq
    · subst heq
      simp
    · rw [lookup_cons, beq_false_of_ne (Ne.symm heq), ih, if_neg (by simpa using heq)]
      simp only [Option.map_map]
      congr 1
      funext index
      show start + 1 + index = start + (index + 1)
      omega

theorem get?_indexTail (hnodup : nodes.Nodup) (seq : Nat) :
    (indexTail .empty 0 nodes).get? seq = nodes.idxOf? seq := by
  rw [OrderedMap.get?, entries_indexTail (by simp [OrderedMap.keys]) hnodup,
    OrderedMap.entries_empty, nil_append, lookup_zipIdx]
  simp

theorem cutBalance_fresh (hnodup : nodes.Nodup) {offset : Nat} (hoffset : offset ≤ 1)
    (h : freshCache events generation nodes = .ok cache) (seq : Nat) :
    cutBalance cache seq offset = fromScratch events nodes seq offset := by
  obtain ⟨cuts, last, hscan, rfl⟩ := freshCache_eq_ok.mp h
  obtain ⟨hlength, -, hcuts⟩ := scanTail_spec hscan
  unfold cutBalance fromScratch
  simp only [get?_indexTail hnodup, hscan]
  cases hindex : nodes.idxOf? seq with
  | none => rfl
  | some index =>
    have hlt : index < nodes.length := (idxOf?_eq_some_iff.mp hindex).1
    have hcut : (true :: cuts)[index + offset]? =
        some (decide (openCalls events (nodes.take (index + offset)) = 0)) := by
      rcases hplace : index + offset with _ | place
      · simp
      · rw [getElem?_cons_succ, hcuts place (by omega), Int.zero_add]
    simp [hcut]

end Caches

end DshKernel.Compaction
