import DshKernel.DeepSeek.Translate
import DshKernel.Lib.Grouping

/-!
# The fragments of a stream

What the payloads deliver, read without the state of the translation, and what one fragment does to
that state.
-/

namespace DshKernel.DeepSeek

open Js Lib Session Llm Yields

inductive Fragment where
  | reasoning (text : String)
  | content (text : String)
  | call (key : Option WireKey) (id name : Option String) (arguments : String)

inductive Slot where
  | reasoning
  | text
  | call (key : WireKey)
  deriving DecidableEq

namespace Fragment

def slot : Fragment → Option Slot
  | reasoning _ => some .reasoning
  | content _ => some .text
  | call key _ _ _ => key.map .call

def kind : Fragment → BlockKind
  | reasoning _ => .reasoning
  | content _ => .text
  | call _ _ _ _ => .toolCall

def text : Fragment → String
  | reasoning text => text
  | content text => text
  | call _ _ _ arguments => arguments

def id : Fragment → Option String
  | call _ id _ _ => id
  | _ => none

def name : Fragment → Option String
  | call _ _ name _ => name
  | _ => none

def absorb (fragment : Fragment) (block : OpenBlock) : OpenBlock :=
  { block with
    text := block.text ++ fragment.text
    callId := fragment.id.or block.callId
    name := fragment.name.or block.name }

def delta (place : Nat) (block : OpenBlock) : Fragment → StreamChunk
  | reasoning text => .reasoningDelta place text
  | content text => .textDelta place text
  | call _ _ _ arguments => .toolCallDelta place (block.callId.getD "") block.name arguments

end Fragment

section Reading

variable (builtins : Builtins)

def elements (value : Option Json) : List Json := (iterate value).toOption.getD []

def callFragment (call : Json) : Fragment :=
  .call (WireKey.ofJson (call.get? "index")) (nonEmptyText (call.get? "id"))
    (nonEmptyText (optionalMember (call.get? "function") "name"))
    ((argumentsText builtins (optionalMember (call.get? "function") "arguments")).toOption.getD "")

def choiceFragments (choice : Json) : List Fragment :=
  let delta := choice.get? "delta"
  ((nonEmptyText (optionalMember delta "reasoning_content")).map .reasoning).toList ++
    ((nonEmptyText (optionalMember delta "content")).map .content).toList ++
    (elements (optionalMember delta "tool_calls")).map (callFragment builtins)

def payloadFragments (payload : String) : List Fragment :=
  match builtins.parse payload with
  | none => []
  | some chunk => (elements (chunk.get? "choices")).flatMap (choiceFragments builtins)

def fragments (payloads : List String) : List Fragment :=
  (payloads.takeWhile (· ≠ DONE)).flatMap (payloadFragments builtins)

end Reading

section Steps

def refOf (state : TranslateState) : Fragment → Option Nat
  | .reasoning _ => state.reasoningBlock
  | .content _ => state.textBlock
  | .call key _ _ _ => key.bind fun key => state.toolBlocks.lookup key

def remember (state : TranslateState) (place : Nat) : Fragment → TranslateState
  | .reasoning _ => { state with reasoningBlock := some place }
  | .content _ => { state with textBlock := some place }
  | .call key _ _ _ =>
    { state with toolBlocks := state.toolBlocks ++ (key.map fun key => (key, place)).toList }

def Suits (fragment : Fragment) (block : OpenBlock) : Prop :=
  (∀ id ∈ fragment.id, ∀ held ∈ block.callId, id = held) ∧
    ∀ name ∈ fragment.name, ∀ held ∈ block.name, name = held

inductive Absorbs (state : TranslateState) (fragment : Fragment) :
    List StreamChunk → TranslateState → Prop where
  | known {place : Nat} {block : OpenBlock} : refOf state fragment = some place →
      state.order[place]? = some block → Suits fragment block →
      Absorbs state fragment [fragment.delta place (fragment.absorb block)]
        { state with order := state.order.set place (fragment.absorb block) }
  | opened : refOf state fragment = none → state.order.length < maxArrayLength →
      Absorbs state fragment
        [.blockStart state.order.length fragment.kind.name,
          fragment.delta state.order.length (fragment.absorb { kind := fragment.kind })]
        { remember state state.order.length fragment with
          order := state.order ++ [fragment.absorb { kind := fragment.kind }] }

def Remembered (state : TranslateState) : Prop :=
  ∀ fragment place, refOf state fragment = some place → place < state.order.length

variable {state next : TranslateState} {chunks : List StreamChunk} {builtins : Builtins}

theorem openBlock_eq_ok {kind : BlockKind} (h : openBlock state kind = ⟨chunks, .ok next⟩) :
    state.order.length < maxArrayLength ∧
      chunks = [.blockStart state.order.length kind.name] ∧
      next = { state with order := state.order ++ [{ kind }] } := by
  unfold openBlock at h
  split at h
  case isTrue hlength =>
    obtain ⟨_, _, _, hemit, hpure, rfl⟩ := bind_eq_ok.mp h
    obtain ⟨rfl, rfl⟩ := pure_eq_ok.mp hpure
    rw [emit_eq_ok.mp hemit]
    exact ⟨hlength, rfl, rfl⟩
  case isFalse => cases h

theorem acceptIdentity_eq (current : Option String) (incoming : Option Json) :
    acceptIdentity current incoming = (nonEmptyText incoming).or current := by
  unfold acceptIdentity
  cases nonEmptyText incoming <;> rfl

theorem eq_of_assertIdentityStable {current : Option String} {incoming index : Option Json}
    {field : String} {result : Unit}
    (h : assertIdentityStable builtins current incoming index field = .ok result) :
    ∀ value ∈ nonEmptyText incoming, ∀ held ∈ current, value = held := by
  intro value hvalue held hheld
  rw [Option.mem_def] at hvalue hheld
  unfold assertIdentityStable at h
  rw [hvalue, hheld] at h
  dsimp only at h
  split at h
  · cases h
  · rename_i heq
    exact Classical.not_not.mp heq

theorem modify_concat (order : List OpenBlock) (block : OpenBlock) (change : OpenBlock → OpenBlock) :
    (order ++ [block]).modify order.length change = order ++ [change block] := by
  induction order with
  | nil => rfl
  | cons first order ih => rw [List.cons_append, List.length_cons, List.modify_succ_cons, ih]; rfl

theorem modify_eq_set {α : Type} {items : List α} {place : Nat} (h : place < items.length)
    (change : α → α) : items.modify place change = items.set place (change items[place]) := by
  induction items generalizing place with
  | nil => cases h
  | cons first items ih =>
    cases place with
    | zero => rfl
    | succ place =>
      rw [List.modify_succ_cons, ih (Nat.lt_of_succ_lt_succ h)]
      rfl

theorem suits_of_no_identity {fragment : Fragment} (hid : fragment.id = none)
    (hname : fragment.name = none) (block : OpenBlock) : Suits fragment block := by
  unfold Suits
  rw [hid, hname]
  refine ⟨?_, ?_⟩
  · intro value hvalue
    cases hvalue
  · intro value hvalue
    cases hvalue

/-- A fragment without an identity is appended to the block of its kind. -/
theorem absorbs_of_reach {fragment : Fragment} {delta : Nat → StreamChunk}
    (hid : fragment.id = none) (hname : fragment.name = none)
    (hdelta : ∀ place block, fragment.delta place block = delta place) (hheld : Remembered state)
    {reach : Yields (Nat × TranslateState)}
    (heq : reach = match refOf state fragment with
      | some place => pure (place, state)
      | none => do
        let opened ← openBlock state fragment.kind
        pure (state.order.length, remember opened state.order.length fragment))
    (h : (do
      let (place, state) ← reach
      emit (delta place)
      pure { state with order := state.order.modify place fragment.absorb }) =
        ⟨chunks, .ok next⟩) :
    Absorbs state fragment chunks next := by
  subst heq
  obtain ⟨before, ⟨place, reached⟩, after, hreach, hrest, rfl⟩ := bind_eq_ok.mp h
  obtain ⟨emitted, _, _, hemit, hlast, rfl⟩ := bind_eq_ok.mp hrest
  obtain ⟨rfl, rfl⟩ := pure_eq_ok.mp hlast
  rw [emit_eq_ok.mp hemit]
  cases hblock : refOf state fragment with
  | some found =>
    rw [hblock] at hreach
    obtain ⟨rfl, heq⟩ := pure_eq_ok.mp hreach
    cases heq
    have hplace := hheld fragment place hblock
    have hget := List.getElem?_eq_getElem hplace
    rw [modify_eq_set hplace, ← hdelta]
    exact .known hblock hget (suits_of_no_identity hid hname _)
  | none =>
    rw [hblock] at hreach
    obtain ⟨started, opened, _, hopen, hpair, rfl⟩ := bind_eq_ok.mp hreach
    obtain ⟨rfl, heq⟩ := pure_eq_ok.mp hpair
    cases heq
    obtain ⟨hlength, rfl, rfl⟩ := openBlock_eq_ok hopen
    have horder : (remember { state with order := state.order ++ [{ kind := fragment.kind }] }
        state.order.length fragment).order = state.order ++ [{ kind := fragment.kind }] := by
      cases fragment <;> rfl
    rw [← hdelta _ (fragment.absorb { kind := fragment.kind }), horder, modify_concat]
    cases fragment <;> exact .opened hblock hlength

theorem onReasoning_absorbs {text : String} (hheld : Remembered state)
    (h : onReasoning state text = ⟨chunks, .ok next⟩) :
    Absorbs state (.reasoning text) chunks next :=
  absorbs_of_reach rfl rfl (fun _ _ => rfl) hheld rfl h

theorem onContent_absorbs {text : String} (hheld : Remembered state)
    (h : onContent state text = ⟨chunks, .ok next⟩) : Absorbs state (.content text) chunks next :=
  absorbs_of_reach rfl rfl (fun _ _ => rfl) hheld rfl h

theorem member_eq_ok {value : Json} {key : String} {found : Option Json}
    (h : member value key = .ok found) : found = value.get? key := by
  unfold member at h
  split at h <;> cases h
  rfl

theorem onCall_absorbs {call : Json} (hheld : Remembered state)
    (h : onCall builtins state call = ⟨chunks, .ok next⟩) :
    Absorbs state (callFragment builtins call) chunks next := by
  unfold onCall reachTool at h
  obtain ⟨_, index, _, hmember, hindexed, rfl⟩ := bind_eq_ok.mp h
  obtain ⟨rfl, hindex⟩ := lift_eq_ok.mp hmember
  obtain rfl := member_eq_ok hindex
  obtain ⟨before, ⟨place, reached⟩, after, hreach, hreached, rfl⟩ := bind_eq_ok.mp hindexed
  obtain ⟨_, _, _, hassertId, hstableId, rfl⟩ := bind_eq_ok.mp hreached
  obtain ⟨rfl, hid⟩ := lift_eq_ok.mp hassertId
  obtain ⟨_, _, _, hassertName, hstableName, rfl⟩ := bind_eq_ok.mp hstableId
  obtain ⟨rfl, hname⟩ := lift_eq_ok.mp hassertName
  obtain ⟨_, fragment, _, hread, hfragment, rfl⟩ := bind_eq_ok.mp hstableName
  obtain ⟨rfl, harguments⟩ := lift_eq_ok.mp hread
  obtain ⟨_, _, _, hemit, hlast, rfl⟩ := bind_eq_ok.mp hfragment
  obtain ⟨rfl, rfl⟩ := pure_eq_ok.mp hlast
  rw [emit_eq_ok.mp hemit]
  have hsuits := And.intro (eq_of_assertIdentityStable hid) (eq_of_assertIdentityStable hname)
  have htext : fragment = (callFragment builtins call).text := by
    simp only [callFragment, Fragment.text, harguments, Except.toOption, Option.getD_some]
  simp only [acceptIdentity_eq, htext]
  cases hblock : refOf state (callFragment builtins call) with
  | some found =>
    have hblock' := hblock
    unfold callFragment refOf at hblock'
    dsimp only at hblock'
    rw [hblock'] at hreach
    obtain ⟨rfl, heq⟩ := pure_eq_ok.mp hreach
    cases heq
    have hplace := hheld _ place hblock
    have hget := List.getElem?_eq_getElem hplace
    simp only [hget, Option.getD_some] at hsuits ⊢
    exact .known hblock hget hsuits
  | none =>
    have hblock' := hblock
    unfold callFragment refOf at hblock'
    dsimp only at hblock'
    rw [hblock'] at hreach
    obtain ⟨started, opened, _, hopen, hpair, rfl⟩ := bind_eq_ok.mp hreach
    obtain ⟨rfl, heq⟩ := pure_eq_ok.mp hpair
    cases heq
    obtain ⟨hlength, rfl, rfl⟩ := openBlock_eq_ok hopen
    simp only [List.getElem?_concat_length, Option.getD_some, List.set_append_right,
      Nat.le_refl, Nat.sub_self, List.set_cons_zero]
    exact .opened hblock hlength

end Steps

end DshKernel.DeepSeek
