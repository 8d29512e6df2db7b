import DshKernel.Js.Json
import DshKernel.Js.Utf16

/-!
# Pruning a tool result

The middle of an over-long result gives way to a marker. The loop goes over the blocks one at a
time; by the points of the texts it keeps the head and the tail of what they hold together.
-/

namespace DshKernel.Compaction.ToolResultPruner

open Js Lib List

/-! ## The configuration -/

/-- `PRUNE_MARKER` -/
def pruneMarker : List UInt16 := stringUnits "\n\n[... tool result middle pruned ...]\n\n"

structure ResolvedConfig where
  thresholdChars : Nat
  headChars : Nat
  tailChars : Nat
  positive : 0 < thresholdChars
  fits : headChars + codePointLength pruneMarker + tailChars ≤ thresholdChars

inductive ConfigError where
  | unknownKey (key : String)
  | notPositiveInteger (name : String) (value : Json)
  | notNonNegativeInteger (name : String) (value : Json)
  | overThreshold (emittedChars thresholdChars : Nat)

/-- `CONFIG_KEYS` -/
def configKeys : List String := ["thresholdChars", "headChars", "tailChars"]

/-- `config[key] ?? DEFAULTS[key]` -/
def orDefault (config : OrderedMap String Json) (key : String) (default : Nat) : Json :=
  match config.get? key with
  | none => .ofNat default
  | some .null => .ofNat default
  | some value => value

def assertPositiveInteger (name : String) : Json → Except ConfigError Nat
  | .num (.integral value) =>
    if 0 < value.toInt then .ok value.toInt.toNat
    else .error (.notPositiveInteger name (.num (.integral value)))
  | value => .error (.notPositiveInteger name value)

def assertNonNegativeInteger (name : String) : Json → Except ConfigError Nat
  | .num (.integral value) =>
    if 0 ≤ value.toInt then .ok value.toInt.toNat
    else .error (.notNonNegativeInteger name (.num (.integral value)))
  | value => .error (.notNonNegativeInteger name value)

def resolveConfig (config : OrderedMap String Json) : Except ConfigError ResolvedConfig :=
  match config.keys.find? (fun key => !configKeys.contains key) with
  | some key => .error (.unknownKey key)
  | none => do
    let thresholdChars ← assertPositiveInteger "thresholdChars"
      (orDefault config "thresholdChars" 8192)
    let headChars ← assertNonNegativeInteger "headChars" (orDefault config "headChars" 4096)
    let tailChars ← assertNonNegativeInteger "tailChars" (orDefault config "tailChars" 1024)
    if h : 0 < thresholdChars ∧ headChars + codePointLength pruneMarker + tailChars ≤ thresholdChars then
      .ok ⟨thresholdChars, headChars, tailChars, h.1, h.2⟩
    else
      .error (.overThreshold (headChars + codePointLength pruneMarker + tailChars) thresholdChars)

theorem resolveConfig_surjective (config : ResolvedConfig) :
    ∃ raw, resolveConfig raw = .ok config := by
  obtain ⟨thresholdChars, headChars, tailChars, hpositive, hfits⟩ := config
  refine ⟨⟨[("thresholdChars", .ofNat thresholdChars), ("headChars", .ofNat headChars),
    ("tailChars", .ofNat tailChars)], by simp⟩, ?_⟩
  have hkeys : (["thresholdChars", "headChars", "tailChars"].find?
      fun key => !configKeys.contains key) = none := by decide
  simp only [resolveConfig, OrderedMap.keys, map_cons, map_nil, hkeys]
  simp [orDefault, OrderedMap.get?, lookup_cons, Json.ofNat, Number.ofNat,
    assertPositiveInteger, assertNonNegativeInteger, hpositive, hfits, bind, Except.bind]

/-! ## The blocks -/

inductive ContentBlock where
  | text (text : List UInt16)
  | other (block : Json)

namespace ContentBlock

def points : ContentBlock → List (List UInt16)
  | .text units => codePoints units
  | .other _ => []

def text? : ContentBlock → Option (List UInt16)
  | .text units => some units
  | .other _ => none

def other? : ContentBlock → Option Json
  | .text _ => none
  | .other block => some block

end ContentBlock

def textPoints (blocks : List ContentBlock) : List (List UInt16) := blocks.flatMap (·.points)

def joinedText (blocks : List ContentBlock) : List UInt16 := (blocks.filterMap (·.text?)).flatten

def otherBlocks (blocks : List ContentBlock) : List Json := blocks.filterMap (·.other?)

def measureBlock (chars : Nat) : ContentBlock → Nat
  | .text units => chars + codePointLength units
  | .other _ => chars

def measureContent (blocks : List ContentBlock) : Nat := blocks.foldl measureBlock 0

structure PruneState where
  pruned : List ContentBlock
  consumed : Nat
  markerInserted : Bool

def pruneBlock (removedStart removedEnd : Nat) (state : PruneState) : ContentBlock → PruneState
  | .other block => { state with pruned := state.pruned ++ [.other block] }
  | .text units =>
    let points := codePoints units
    let blockStart := state.consumed
    let blockEnd := blockStart + points.length
    let headEnd := min points.length (removedStart - blockStart)
    let tailStart := min points.length (removedEnd - blockStart)
    let intersectsRemoved := decide (blockStart < removedEnd) && decide (removedStart < blockEnd)
    let inserts := intersectsRemoved && !state.markerInserted
    let marker := if inserts then pruneMarker else []
    let text := (points.take headEnd).flatten ++ marker ++ (points.drop tailStart).flatten
    { pruned := if text = [] then state.pruned else state.pruned ++ [.text text]
      consumed := blockEnd
      markerInserted := state.markerInserted || inserts }

/-- `none` is the `null` of a result within its budget. -/
def pruneContent (config : ResolvedConfig) (blocks : List ContentBlock) :
    Except String (Option (List ContentBlock)) :=
  let totalChars := measureContent blocks
  if totalChars ≤ config.thresholdChars then .ok none
  else
    let state := blocks.foldl (pruneBlock config.headChars (totalChars - config.tailChars)) ⟨[], 0, false⟩
    if !state.markerInserted then .error "tool-result prune: failed to locate the removed text span"
    else
      let charsAfter := measureContent state.pruned
      if config.thresholdChars < charsAfter ∨ totalChars ≤ charsAfter then
        .error "tool-result prune: replacement must be smaller and within threshold"
      else .ok (some state.pruned)

/-! ## Measures -/

section Measures

variable {before blocks : List ContentBlock} {block : ContentBlock}

theorem measureBlock_eq (chars : Nat) : measureBlock chars block = chars + block.points.length := by
  cases block with
  | text units => rfl
  | other block => rfl

theorem measureContent_eq : measureContent blocks = (textPoints blocks).length := by
  have hfold : ∀ chars, blocks.foldl measureBlock chars = chars + (textPoints blocks).length := by
    induction blocks with
    | nil => exact fun chars => rfl
    | cons block blocks ih =>
      intro chars
      rw [foldl_cons, ih, measureBlock_eq, textPoints, textPoints, flatMap_cons,
        length_append, Nat.add_assoc]
  exact (hfold 0).trans (Nat.zero_add _)

theorem textPoints_snoc : textPoints (before ++ [block]) = textPoints before ++ block.points := by
  simp [textPoints]

theorem otherBlocks_append :
    otherBlocks (before ++ blocks) = otherBlocks before ++ otherBlocks blocks :=
  filterMap_append

end Measures

theorem codePointLength_pruneMarker : codePointLength pruneMarker = 39 := by
  decide

theorem codePoints_around_marker (front back : List UInt16) :
    codePoints (front ++ pruneMarker ++ back) =
      codePoints front ++ codePoints pruneMarker ++ codePoints back := by
  have hafter : ∀ unit ∈ (front ++ pruneMarker).getLast?, Apart unit back := by
    intro unit hunit
    have hlast : pruneMarker.getLast? = some 10 := by decide
    rw [getLast?_append, hlast] at hunit
    rw [← Option.some.inj hunit]
    exact apart_of_not_high rfl
  have hbefore : ∀ unit ∈ front.getLast?, Apart unit pruneMarker := by
    intro unit _
    apply apart_of_not_low
    intro next hnext
    have hfirst : pruneMarker.head? = some 10 := by decide
    rw [hfirst] at hnext
    rw [← Option.some.inj hnext]
    rfl
  rw [codePoints_append hafter, codePoints_append hbefore]

/-! ## The loop -/

def prunedPoints (removedStart removedEnd : Nat) (points : List (List UInt16)) : List (List UInt16) :=
  if points.length ≤ removedStart then points
  else points.take removedStart ++ codePoints pruneMarker ++ points.drop removedEnd

structure Pruned (removedStart removedEnd : Nat) (blocks : List ContentBlock) (state : PruneState) :
    Prop where
  points : textPoints state.pruned = prunedPoints removedStart removedEnd (textPoints blocks)
  others : otherBlocks state.pruned = otherBlocks blocks
  consumed : state.consumed = (textPoints blocks).length
  inserted : state.markerInserted = decide (removedStart < (textPoints blocks).length)

section Loop

variable {removedStart removedEnd : Nat} {before blocks : List ContentBlock} {state : PruneState}

theorem prunedPoints_append (hspan : removedStart < removedEnd) (front points : List (List UInt16)) :
    prunedPoints removedStart removedEnd (front ++ points) =
      prunedPoints removedStart removedEnd front ++
        (points.take (removedStart - front.length) ++
          (if front.length ≤ removedStart ∧ removedStart < front.length + points.length then
            codePoints pruneMarker else []) ++
          points.drop (removedEnd - front.length)) := by
  unfold prunedPoints
  rw [length_append]
  by_cases hwhole : front.length + points.length ≤ removedStart
  · -- the text lies in the head
    rw [if_pos hwhole, if_pos (by omega), if_neg (by omega), take_of_length_le (by omega),
      drop_eq_nil_of_le (by omega), append_nil, append_nil]
  · rw [if_neg hwhole, take_append, drop_append]
    by_cases hfront : front.length ≤ removedStart
    · -- the removed part begins in the text
      rw [if_pos hfront, if_pos ⟨hfront, by omega⟩, take_of_length_le hfront,
        drop_eq_nil_of_le (by omega), nil_append, append_assoc, append_assoc,
        append_assoc]
    · have hnone : removedStart - front.length = 0 := by omega
      rw [if_neg hfront, if_neg (fun h => hfront h.1), hnone, take_zero, append_nil,
        nil_append, nil_append, append_assoc, append_assoc, append_assoc]

theorem textPoints_snoc_text (units : List UInt16) :
    textPoints (if units = [] then blocks else blocks ++ [.text units]) =
      textPoints blocks ++ codePoints units := by
  split
  · next hnone => rw [hnone, codePoints, append_nil]
  · exact textPoints_snoc

theorem otherBlocks_snoc_text (units : List UInt16) :
    otherBlocks (if units = [] then blocks else blocks ++ [.text units]) = otherBlocks blocks := by
  split
  · rfl
  · exact otherBlocks_append.trans (append_nil _)

theorem codePoints_kept (units : List UInt16) (headEnd tailStart : Nat) (inserts : Bool)
    (hone : inserts = false → headEnd = 0 ∨ (codePoints units).length ≤ tailStart) :
    codePoints (((codePoints units).take headEnd).flatten ++ (if inserts then pruneMarker else []) ++
        ((codePoints units).drop tailStart).flatten) =
      (codePoints units).take headEnd ++ (if inserts then codePoints pruneMarker else []) ++
        (codePoints units).drop tailStart := by
  cases inserts with
  | true =>
    rw [if_pos rfl, if_pos rfl, codePoints_around_marker, codePoints_take, codePoints_drop]
  | false =>
    rw [if_neg Bool.false_ne_true, if_neg Bool.false_ne_true, append_nil, append_nil]
    rcases hone rfl with hhead | htail
    · rw [hhead, take_zero, flatten_nil, nil_append, nil_append, codePoints_drop]
    · rw [drop_eq_nil_of_le htail, flatten_nil, append_nil, append_nil,
        codePoints_take]

theorem take_min_length {α : Type} (k : Nat) (items : List α) :
    items.take (min items.length k) = items.take k := by
  rw [take_eq_take_iff]
  omega

theorem drop_min_length {α : Type} (k : Nat) (items : List α) :
    items.drop (min items.length k) = items.drop k := by
  rw [drop_eq_drop_iff]
  omega

theorem Pruned.pruneBlock (hspan : removedStart < removedEnd)
    (h : Pruned removedStart removedEnd before state) (block : ContentBlock) :
    Pruned removedStart removedEnd (before ++ [block])
      (pruneBlock removedStart removedEnd state block) := by
  cases block with
  | other block =>
    have hpoints : textPoints (before ++ [.other block]) = textPoints before :=
      textPoints_snoc.trans (append_nil _)
    refine ⟨?_, ?_, ?_, ?_⟩
    · rw [hpoints, ← h.points]
      exact textPoints_snoc.trans (append_nil _)
    · rw [otherBlocks_append, ← h.others]
      exact otherBlocks_append
    · rw [hpoints]
      exact h.consumed
    · rw [hpoints]
      exact h.inserted
  | text units =>
    obtain ⟨hpoints, hothers, hconsumed, hinserted⟩ := h
    have htext : textPoints (before ++ [.text units]) = textPoints before ++ codePoints units :=
      textPoints_snoc
    have hinserts : (decide (state.consumed < removedEnd) &&
        decide (removedStart < state.consumed + (codePoints units).length) &&
          !state.markerInserted) =
        decide ((textPoints before).length ≤ removedStart ∧
          removedStart < (textPoints before).length + (codePoints units).length) := by
      rw [hconsumed, hinserted, ← Bool.decide_and, ← decide_not, ← Bool.decide_and]
      apply decide_eq_decide.mpr
      omega
    refine ⟨?_, ?_, ?_, ?_⟩
    · simp only [ToolResultPruner.pruneBlock]
      rw [textPoints_snoc_text, codePoints_kept, hpoints, htext, prunedPoints_append hspan, hinserts,
        take_min_length, drop_min_length, hconsumed]
      · simp only [decide_eq_true_eq]
      · intro hnone
        rw [hinserts, decide_eq_false_iff_not] at hnone
        omega
    · simp only [ToolResultPruner.pruneBlock]
      rw [otherBlocks_snoc_text, hothers, otherBlocks_append]
      exact (append_nil _).symm
    · rw [htext, length_append, ← hconsumed]
      rfl
    · simp only [ToolResultPruner.pruneBlock]
      rw [hinserts, hinserted, htext, length_append, ← Bool.decide_or]
      apply decide_eq_decide.mpr
      omega

theorem Pruned.foldl (hspan : removedStart < removedEnd)
    (h : Pruned removedStart removedEnd before state) (blocks : List ContentBlock) :
    Pruned removedStart removedEnd (before ++ blocks)
      (blocks.foldl (ToolResultPruner.pruneBlock removedStart removedEnd) state) := by
  induction blocks generalizing before state with
  | nil =>
    rw [append_nil]
    exact h
  | cons block blocks ih =>
    have hnext := ih (h.pruneBlock hspan block)
    rw [append_assoc] at hnext
    exact hnext

theorem pruned_start : Pruned removedStart removedEnd [] ⟨[], 0, false⟩ := by
  refine ⟨rfl, rfl, rfl, ?_⟩
  exact (decide_eq_false (Nat.not_lt_zero _)).symm

end Loop

/-! ## The result -/

section Result

variable (config : ResolvedConfig) (blocks : List ContentBlock)

theorem pruneContent_over (hover : config.thresholdChars < (textPoints blocks).length) :
    ∃ pruned, pruneContent config blocks = .ok (some pruned) ∧
      textPoints pruned = (textPoints blocks).take config.headChars ++ codePoints pruneMarker ++
        (textPoints blocks).drop ((textPoints blocks).length - config.tailChars) ∧
      otherBlocks pruned = otherBlocks blocks ∧
      (textPoints pruned).length = config.headChars + 39 + config.tailChars := by
  have hfits := config.fits
  rw [codePointLength_pruneMarker] at hfits
  have hspan : config.headChars < (textPoints blocks).length - config.tailChars := by omega
  have hloop := pruned_start.foldl hspan blocks
  rw [nil_append] at hloop
  have hpoints := hloop.points
  rw [prunedPoints, if_neg (by omega)] at hpoints
  have hlength := congrArg length hpoints
  rw [length_append, length_append, length_take, length_drop,
    ← codePointLength, codePointLength_pruneMarker, Nat.min_eq_left (by omega)] at hlength
  have htail : (textPoints blocks).length - ((textPoints blocks).length - config.tailChars) =
      config.tailChars := by omega
  rw [htail] at hlength
  refine ⟨_, ?_, hpoints, hloop.others, hlength⟩
  simp only [pruneContent, measureContent_eq, hloop.inserted, hlength]
  rw [if_neg (by omega), decide_eq_true (by omega), Bool.not_true, if_neg Bool.false_ne_true,
    if_neg (by omega)]

theorem pruneContent_eq_none :
    pruneContent config blocks = .ok none ↔ (textPoints blocks).length ≤ config.thresholdChars := by
  constructor
  · intro h
    apply Nat.le_of_not_lt
    intro hover
    obtain ⟨pruned, hpruned, _⟩ := pruneContent_over config blocks hover
    rw [hpruned] at h
    cases h
  · intro hwithin
    simp only [pruneContent, measureContent_eq]
    exact if_pos hwithin

theorem textPoints_eq_codePoints
    (hwhole : ∀ units, .text units ∈ blocks → ∀ next ∈ units.head?, isLowSurrogate next = false) :
    textPoints blocks = codePoints (joinedText blocks) ∧
      ∀ next ∈ (joinedText blocks).head?, isLowSurrogate next = false := by
  induction blocks with
  | nil => exact ⟨rfl, fun next hnext => by cases hnext⟩
  | cons block blocks ih =>
    obtain ⟨hpoints, hhead⟩ := ih fun units hmem => hwhole units (mem_cons_of_mem _ hmem)
    cases block with
    | other block => exact ⟨hpoints, hhead⟩
    | text units =>
      have hjoined : joinedText (.text units :: blocks) = units ++ joinedText blocks := rfl
      have hunits := hwhole units mem_cons_self
      constructor
      · rw [hjoined, codePoints_append (fun unit _ => apart_of_not_low hhead), ← hpoints]
        rfl
      · intro next hnext
        rw [hjoined, head?_append] at hnext
        cases hfirst : units.head? with
        | none =>
          rw [hfirst] at hnext
          exact hhead next hnext
        | some first =>
          rw [hfirst] at hnext
          exact hunits next (hfirst.trans hnext)

/-- Pruning is exact by the points of the texts, and its result is pruned no further. -/
theorem pruneContent_exact :
    (pruneContent config blocks = .ok none ↔
      (textPoints blocks).length ≤ config.thresholdChars) ∧
    (config.thresholdChars < (textPoints blocks).length →
      ∃ pruned, pruneContent config blocks = .ok (some pruned) ∧
        textPoints pruned = (textPoints blocks).take config.headChars ++ codePoints pruneMarker ++
          (textPoints blocks).drop ((textPoints blocks).length - config.tailChars) ∧
        otherBlocks pruned = otherBlocks blocks ∧
        (textPoints pruned).length ≤ config.thresholdChars ∧
        pruneContent config pruned = .ok none) ∧
    ((∀ units, .text units ∈ blocks → ∀ next ∈ units.head?, isLowSurrogate next = false) →
      textPoints blocks = codePoints (joinedText blocks)) := by
  refine ⟨pruneContent_eq_none config blocks, ?_, fun hwhole => (textPoints_eq_codePoints _ hwhole).1⟩
  intro hover
  obtain ⟨pruned, hpruned, hpoints, hothers, hlength⟩ := pruneContent_over config blocks hover
  have hwithin : (textPoints pruned).length ≤ config.thresholdChars := by
    rw [hlength, ← codePointLength_pruneMarker]
    exact config.fits
  exact ⟨pruned, hpruned, hpoints, hothers, hwithin,
    (pruneContent_eq_none config pruned).mpr hwithin⟩

end Result

def tightConfig : ResolvedConfig :=
  ⟨39, 0, 0, Nat.zero_lt_succ _, Nat.le_of_eq codePointLength_pruneMarker⟩

def splitPair : List ContentBlock :=
  [.text (replicate 38 97 ++ [0xD83D]), .text [0xDE00]]

theorem splitPair_pruned :
    codePointLength (joinedText splitPair) ≤ tightConfig.thresholdChars ∧
      pruneContent tightConfig splitPair ≠ .ok none := by
  constructor
  · decide
  · rw [Ne, pruneContent_eq_none]
    decide

end DshKernel.Compaction.ToolResultPruner
