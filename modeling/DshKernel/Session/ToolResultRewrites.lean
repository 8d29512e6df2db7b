import DshKernel.Js.JsonPath
import DshKernel.Session.SurfaceFold

/-!
# Rewritten tool results

A replacement of a tool result by a tool result is compared with the node it replaces only. Along
a chain of such replacements nothing changes but the content of the result block.
-/

namespace DshKernel.Session

open Js

def contentPath : List PathStep := [.key "message", .key "content", .index 0, .key "content"]

theorem withoutContent_eq (data : ToolResultData) :
    data.withoutContent = data.toJson.setAt contentPath .null := by
  obtain ⟨turn, step, ⟨id, ⟨toolCallId, content, isError⟩, source⟩, error, «meta»⟩ := data
  cases error with
  | none =>
    cases «meta» with
    | none =>
      cases isError with
      | none => rfl
      | some flag => rfl
    | some value =>
      cases isError with
      | none => rfl
      | some flag => rfl
  | some failure =>
    cases «meta» with
    | none =>
      cases isError with
      | none => rfl
      | some flag => rfl
    | some value =>
      cases isError with
      | none => rfl
      | some flag => rfl

def SameButContent (first last : ToolResultData) : Prop :=
  ∀ path, ¬ contentPath <+: path → first.toJson.shapeAt path = last.toJson.shapeAt path

theorem SameButContent.refl (data : ToolResultData) : SameButContent data data :=
  fun _ _ => rfl

theorem SameButContent.trans {first middle last : ToolResultData}
    (h : SameButContent first middle) (h' : SameButContent middle last) :
    SameButContent first last :=
  fun path hpath => (h path hpath).trans (h' path hpath)

section Log

def toolResultAt (log : List SessionEvent) (seq : Nat) : Option ToolResultData :=
  match (log[seq]?).map SessionEvent.data with
  | some (.toolResult data) => some data
  | _ => none

variable {log : List SessionEvent} {seq : Nat} {data : ToolResultData}
variable {replacements : List SurfaceFoldReplacement} {state : SurfaceFoldState}

theorem toolResultAt_eq_some :
    toolResultAt log seq = some data ↔ ∃ event, log[seq]? = some event ∧ event.data = .toolResult data := by
  unfold toolResultAt
  cases log[seq]? with
  | none => simp
  | some event =>
    simp only [Option.map_some, Option.some.injEq, exists_eq_left']
    cases event.data with
    | toolResult other => simp
    | _ => simp

theorem toolResultAt_append
    (more : List SessionEvent) (h : toolResultAt log seq = some data) :
    toolResultAt (log ++ more) seq = some data := by
  obtain ⟨event, hevent, hdata⟩ := toolResultAt_eq_some.mp h
  obtain ⟨hlt, -⟩ := List.getElem?_eq_some_iff.mp hevent
  apply toolResultAt_eq_some.mpr
  exact ⟨event, by rw [List.getElem?_append_left hlt, hevent], hdata⟩

inductive RewriteChain (log : List SessionEvent) (replacements : List SurfaceFoldReplacement) :
    Nat → Nat → Prop where
  | appended {seq : Nat} {event : SessionEvent} {data : ToolResultData} :
      log[seq]? = some event → event.data = .toolResult data →
      surfaceOpOf event = .ok (some .append) → RewriteChain log replacements seq seq
  | rewritten {original current : Nat} {replacement : SurfaceFoldReplacement}
      {data : ToolResultData} :
      RewriteChain log replacements original current → replacement ∈ replacements →
      current ∈ replacement.shadowedSeqs → toolResultAt log replacement.seq = some data →
      RewriteChain log replacements original replacement.seq

def Rewrites (original replacement : ToolResultData) : Prop :=
  isDeepEqualJson original.withoutContent replacement.withoutContent = true

theorem rewrites_of_assert {event : SessionEvent} {shadowedSeqs : List Nat}
    {events : List SessionEvent} (hdata : event.data = .toolResult data)
    (h : assertToolResultRewrite event shadowedSeqs events 0 = .ok ()) :
    ∃ seq original, shadowedSeqs = [seq] ∧ toolResultAt events seq = some original ∧
      Rewrites original data := by
  rw [assertToolResultRewrite, hdata] at h
  dsimp only at h
  split at h
  · rename_i seq
    have hevent : eventAtSeq events 0 seq = events[seq]? := by
      rw [eventAtSeq, if_neg (Nat.not_lt_zero _), Nat.sub_zero]
    rw [hevent] at h
    split at h
    · rename_i original horiginal
      split at h
      · rename_i hequal
        refine ⟨seq, original, rfl, ?_, hequal⟩
        rw [toolResultAt, horiginal]
      · cases h
    · cases h
  · cases h

theorem Folds.replacement_lt (h : Folds log state replacements) :
    ∀ replacement ∈ replacements, replacement.seq < log.length := by
  induction h with
  | nil => simp
  | @snoc log state replacements event plan _ _ hplan ih =>
    intro replacement hmem
    rw [List.length_append, List.length_singleton]
    rcases List.mem_append.mp hmem with hold | hnew
    · exact Nat.lt_succ_of_lt (ih replacement hold)
    · rcases (planSurfaceEvent_cases hplan).2 with
        ⟨rfl, -⟩ | ⟨rfl, -⟩ | ⟨startSeq, endSeq, range, rfl, -⟩
      · cases hnew
      · cases hnew
      · simp only [applySurfacePlan, Option.toList_some, List.mem_singleton] at hnew
        subst hnew
        exact Nat.lt_succ_self _

theorem Folds.rewrites (h : Folds log state replacements)
    {replacement : SurfaceFoldReplacement} (hmem : replacement ∈ replacements)
    (hdata : toolResultAt log replacement.seq = some data) :
    ∃ seq original, replacement.shadowedSeqs = [seq] ∧ toolResultAt log seq = some original ∧
      Rewrites original data := by
  induction h with
  | nil => cases hmem
  | @snoc log state replacements event plan hfold _ hplan ih =>
    rcases List.mem_append.mp hmem with hold | hnew
    · have hlt : replacement.seq < log.length := hfold.replacement_lt replacement hold
      have hbefore : toolResultAt log replacement.seq = some data := by
        rw [toolResultAt] at hdata ⊢
        rwa [List.getElem?_append_left hlt] at hdata
      obtain ⟨seq, original, hshadowed, horiginal, hrewrites⟩ := ih hold hbefore
      exact ⟨seq, original, hshadowed, toolResultAt_append [event] horiginal, hrewrites⟩
    · rcases (planSurfaceEvent_cases hplan).2 with
        ⟨rfl, -⟩ | ⟨rfl, -⟩ | ⟨startSeq, endSeq, range, rfl, -, -, -, hassert⟩
      · cases hnew
      · cases hnew
      · simp only [applySurfacePlan, Option.toList_some, List.mem_singleton] at hnew
        subst hnew
        have hevent : event.data = .toolResult data := by
          obtain ⟨other, hother, hotherData⟩ := toolResultAt_eq_some.mp hdata
          dsimp only at hother
          rw [List.getElem?_concat_length] at hother
          cases hother
          exact hotherData
        obtain ⟨seq, original, hshadowed, horiginal, hrewrites⟩ := rewrites_of_assert hevent hassert
        exact ⟨seq, original, hshadowed, toolResultAt_append [event] horiginal, hrewrites⟩

theorem RewriteChain.append
    {original current : Nat} (h : RewriteChain log replacements original current)
    (more : List SessionEvent) (others : List SurfaceFoldReplacement) :
    RewriteChain (log ++ more) (replacements ++ others) original current := by
  induction h with
  | appended hevent hdata hop =>
    obtain ⟨hlt, -⟩ := List.getElem?_eq_some_iff.mp hevent
    exact .appended (by rw [List.getElem?_append_left hlt, hevent]) hdata hop
  | rewritten _ hmem hshadowed hdata ih =>
    exact ih.rewritten (List.mem_append_left _ hmem) hshadowed (toolResultAt_append more hdata)

theorem Folds.exists_chain (h : Folds log state replacements)
    (hdata : toolResultAt log seq = some data) :
    ∃ original, RewriteChain log replacements original seq := by
  induction h generalizing seq data with
  | nil => cases hdata
  | @snoc log state replacements event plan hfold hle hplan ih =>
    obtain ⟨found, hfound, hfoundData⟩ := toolResultAt_eq_some.mp hdata
    by_cases hlt : seq < log.length
    · rw [List.getElem?_append_left hlt] at hfound
      obtain ⟨original, hchain⟩ := ih (toolResultAt_eq_some.mpr ⟨found, hfound, hfoundData⟩)
      exact ⟨original, hchain.append [event] _⟩
    · obtain ⟨hbound, -⟩ := List.getElem?_eq_some_iff.mp hfound
      obtain rfl : seq = log.length := by
        rw [List.length_append, List.length_singleton] at hbound
        omega
      rw [List.getElem?_concat_length] at hfound
      cases hfound
      rcases (planSurfaceEvent_cases hplan).2 with
        ⟨rfl, hop⟩ | ⟨rfl, hop, -⟩ | ⟨startSeq, endSeq, range, rfl, -, -, -, hassert⟩
      · have heligible : isSurfaceEligibleType event.type = true := by
          rw [SessionEvent.type, hfoundData, EventData.type]
          decide
        rcases surfaceOpOf_cases hop with ⟨-, hplain, -⟩ | ⟨-, raw, -, ⟨hne, -⟩ | ⟨_, _, hne, -⟩⟩
        · rw [heligible] at hplain
          cases hplain
        · cases hne
        · cases hne
      · exact ⟨log.length, .appended List.getElem?_concat_length hfoundData hop⟩
      · obtain ⟨replaced, before, hshadowed, hbefore, -⟩ := rewrites_of_assert hfoundData hassert
        obtain ⟨original, hchain⟩ := ih hbefore
        refine ⟨original, ?_⟩
        have hchain' := hchain.append [event]
          [⟨log.length, startSeq, endSeq, range.shadowedSeqs⟩]
        apply RewriteChain.rewritten hchain' (List.mem_append_right _ List.mem_cons_self)
        · rw [hshadowed]
          exact List.mem_cons_self
        · exact hdata

theorem sameButContent_of_rewrites {original replacement : ToolResultData}
    (h : Rewrites original replacement) (hwellFormed : original.toJson.WellFormed) :
    SameButContent original replacement := by
  unfold Rewrites at h
  rw [withoutContent_eq, withoutContent_eq] at h
  intro path hpath
  have hwell : (original.toJson.setAt contentPath .null).WellFormed :=
    Json.wellFormed_setAt hwellFormed trivial
  have hshape := shapeAt_of_equalBy h hwell path
  rwa [Json.shapeAt_setAt hpath, Json.shapeAt_setAt hpath] at hshape

/-- Along a chain of rewrites, a tool result keeps everything but the content of its block, and
every tool result is the end of such a chain. -/
theorem rewriteChain_sameButContent {log : List SessionEvent} {result : SurfaceFoldResult}
    (h : foldSurface log = .ok result) (hwellFormed : ∀ event ∈ log, event.data.toJson.WellFormed) :
    (∀ original current, RewriteChain log result.replacements original current →
      ∃ first last, toolResultAt log original = some first ∧
        toolResultAt log current = some last ∧ SameButContent first last) ∧
    (∀ seq data, toolResultAt log seq = some data →
      ∃ original, RewriteChain log result.replacements original seq) := by
  obtain ⟨state, hfold, -⟩ := exists_folds_of_foldSurface h
  refine ⟨?_, fun seq data hdata => hfold.exists_chain hdata⟩
  intro original current hchain
  induction hchain with
  | appended hevent hdata _ =>
    have hresult := toolResultAt_eq_some.mpr ⟨_, hevent, hdata⟩
    exact ⟨_, _, hresult, hresult, SameButContent.refl _⟩
  | rewritten _ hmem hshadowed hdata ih =>
    obtain ⟨first, middle, hfirst, hmiddle, hsame⟩ := ih
    obtain ⟨seq, replaced, hsingle, hreplaced, hrewrites⟩ := hfold.rewrites hmem hdata
    rw [hsingle, List.mem_singleton] at hshadowed
    subst hshadowed
    obtain rfl : middle = replaced := Option.some.inj (hmiddle.symm.trans hreplaced)
    obtain ⟨event, hevent, heventData⟩ := toolResultAt_eq_some.mp hmiddle
    have hwell := hwellFormed event (List.mem_of_getElem? hevent)
    rw [heventData] at hwell
    exact ⟨first, _, hfirst, hdata, hsame.trans (sameButContent_of_rewrites hrewrites hwell)⟩

def sampleResult (text : String) : ToolResultData where
  turn := .ofNat 0
  step := .ofNat 0
  message := ⟨"m", ⟨"c", [.text text], none⟩, ⟨"c"⟩⟩
  «meta» := some (.obj [("lines", .arr [.num (.ofNat 1)])])

theorem wellFormed_sampleResult (text : String) : (sampleResult text).toJson.WellFormed := by
  simp [sampleResult, ToolResultData.toJson, ToolResultData.toJsonWith, ToolResultMessage.toJson,
    messageToJson, ToolResultBlock.toJson, ContentBlock.toJson, contentToJson, optional,
    Json.WellFormed, Json.FieldsWellFormed, Json.ItemsWellFormed, ToolMessageSource.toJson]

def sampleLog : List SessionEvent :=
  [{ seq := 0, time := .ofNat 0, data := .toolResult (sampleResult "long")
     surfaceOp := some (.str "append") },
   { seq := 1, time := .ofNat 0, data := .toolResult (sampleResult "short")
     sourceEventSeqs := some (.arr [.ofNat 0])
     surfaceOp := some (.obj [("op", .str "replace"), ("start", .ofNat 0), ("end", .ofNat 0)]) }]

theorem rewriteChain_sameButContent_sample :
    (∀ original current, RewriteChain sampleLog [⟨1, 0, 0, [0]⟩] original current →
      ∃ first last, toolResultAt sampleLog original = some first ∧
        toolResultAt sampleLog current = some last ∧ SameButContent first last) ∧
    (∀ seq data, toolResultAt sampleLog seq = some data →
      ∃ original, RewriteChain sampleLog [⟨1, 0, 0, [0]⟩] original seq) := by
  have hfold : foldSurface sampleLog = .ok ⟨[1], [⟨1, 0, 0, [0]⟩]⟩ := rfl
  refine rewriteChain_sameButContent hfold ?_
  intro event hevent
  simp only [sampleLog, List.mem_cons, List.not_mem_nil, or_false] at hevent
  rcases hevent with rfl | rfl
  · exact wellFormed_sampleResult "long"
  · exact wellFormed_sampleResult "short"

end Log

end DshKernel.Session
