import DshKernel.DeepSeek.TranslateStream

/-!
# Translations that do not throw

Their chunks are a legal stream with one finish, and the blocks that are assembled from them are the
concatenated fragments of the payloads.
-/

namespace DshKernel.DeepSeek

open Js Lib Session Llm BlockAssembler Yields

section Content

def contentOf (group : List Fragment) : ContentBlock :=
  let text := String.join (group.map Fragment.text)
  match group.head?.map Fragment.kind with
  | some .toolCall =>
    .toolCall ((group.filterMap Fragment.id).head?.getD "")
      ((group.filterMap Fragment.name).head?.getD "") text
  | some .reasoning => .reasoning text
  | _ => .text text

variable {group : List Fragment}

theorem text_foldl_absorb (group : List Fragment) (block : OpenBlock) :
    (group.foldl (fun block fragment => fragment.absorb block) block).text =
      block.text ++ String.join (group.map Fragment.text) := by
  induction group generalizing block with
  | nil => simp
  | cons first rest ih =>
    rw [List.foldl_cons, ih, List.map_cons, String.join_cons, ← String.append_assoc]
    rfl

theorem text_blockOf (group : List Fragment) :
    (blockOf group).text = String.join (group.map Fragment.text) := by
  unfold blockOf
  rw [text_foldl_absorb, String.empty_append]

theorem callId_foldl_absorb (block : OpenBlock) (h : group.filterMap Fragment.id = []) :
    (group.foldl (fun block fragment => fragment.absorb block) block).callId = block.callId := by
  induction group generalizing block with
  | nil => rfl
  | cons first rest ih =>
    cases hid : first.id with
    | none =>
      rw [List.filterMap_cons_none hid] at h
      rw [List.foldl_cons, ih _ h, Fragment.absorb, hid]
      rfl
    | some id =>
      rw [List.filterMap_cons_some hid] at h
      cases h

theorem name_foldl_absorb (block : OpenBlock) (h : group.filterMap Fragment.name = []) :
    (group.foldl (fun block fragment => fragment.absorb block) block).name = block.name := by
  induction group generalizing block with
  | nil => rfl
  | cons first rest ih =>
    cases hname : first.name with
    | none =>
      rw [List.filterMap_cons_none hname] at h
      rw [List.foldl_cons, ih _ h, Fragment.absorb, hname]
      rfl
    | some name =>
      rw [List.filterMap_cons_some hname] at h
      cases h

theorem Stable.callId (h : Stable group) :
    (blockOf group).callId = (group.filterMap Fragment.id).head? := by
  cases hids : group.filterMap Fragment.id with
  | nil => exact callId_foldl_absorb _ hids
  | cons id ids =>
    have hmem : id ∈ group.filterMap Fragment.id := hids ▸ List.mem_cons_self
    obtain ⟨fragment, hfragment, hid⟩ := List.mem_filterMap.mp hmem
    exact (h fragment hfragment).1 id hid

theorem Stable.name (h : Stable group) :
    (blockOf group).name = (group.filterMap Fragment.name).head? := by
  cases hnames : group.filterMap Fragment.name with
  | nil => exact name_foldl_absorb _ hnames
  | cons name names =>
    have hmem : name ∈ group.filterMap Fragment.name := hnames ▸ List.mem_cons_self
    obtain ⟨fragment, hfragment, hname⟩ := List.mem_filterMap.mp hmem
    exact (h fragment hfragment).2 name hname

theorem Stable.content (h : Stable group) : closeBlock (blockOf group) = contentOf group := by
  have hkind : (blockOf group).kind = (group.head?.map Fragment.kind).getD .text :=
    kind_foldl_absorb _ _
  unfold closeBlock contentOf
  rw [hkind, text_blockOf, h.callId, h.name]
  cases group.head? with
  | none => rfl
  | some first =>
    rw [Option.map_some, Option.getD_some]
    cases first.kind <;> rfl

end Content

section Runs

structure Streams (state : TranslateState) (chunks : List StreamChunk) : Prop where
  validated : ∃ validator, Accepted chunks validator ∧ Open validator 0 (state.order.map OpenBlock.kind)
  assembled : (pushAll chunks).partials.EntriesFrom 0 (state.order.map partialOf)
  content : ∀ chunk ∈ chunks, isBlockEnd chunk = false ∧ isUsage chunk = false ∧ isFinish chunk = false
  short : state.order.length ≤ maxArrayLength
  named : ∀ block ∈ state.order, block.name ≠ some ""

structure Run (state : TranslateState) (read : List Fragment) (chunks : List StreamChunk) : Prop where
  reads : Reads state read
  streams : Streams state chunks

variable {state next : TranslateState} {read : List Fragment} {fragment : Fragment}
  {chunks new : List StreamChunk} {block : OpenBlock} {place : Nat} {builtins : Builtins}

theorem pushAll_append (chunks new : List StreamChunk) :
    pushAll (chunks ++ new) = new.foldl push (pushAll chunks) := by
  unfold pushAll
  rw [List.foldl_append]

theorem deltaOf_delta (place : Nat) (block : OpenBlock) (fragment : Fragment) :
    deltaOf (fragment.delta place block) = some (place, fragment.kind.name) := by
  cases fragment <;> rfl

theorem plain_delta (place : Nat) (block : OpenBlock) (fragment : Fragment) :
    isBlockEnd (fragment.delta place block) = false ∧ isUsage (fragment.delta place block) = false ∧
      isFinish (fragment.delta place block) = false := by
  cases fragment <;> exact ⟨rfl, rfl, rfl⟩

theorem name_absorb (hfragment : fragment.name ≠ some "") (hblock : block.name ≠ some "") :
    (fragment.absorb block).name ≠ some "" := by
  unfold Fragment.absorb
  cases hname : fragment.name with
  | none => exact hblock
  | some name => rwa [hname] at hfragment

theorem set_of_getElem? {α : Type} {items : List α} {item : α} (h : items[place]? = some item) :
    items.set place item = items := by
  obtain ⟨hlt, rfl⟩ := List.getElem?_eq_some_iff.mp h
  exact List.set_getElem_self hlt

namespace Streams

theorem step_known (h : Streams state chunks) (hname : fragment.name ≠ some "")
    (hblock : state.order[place]? = some block) (hkind : block.kind = fragment.kind) :
    Streams { state with order := state.order.set place (fragment.absorb block) }
      (chunks ++ [fragment.delta place (fragment.absorb block)]) := by
  have hmem := List.mem_of_getElem? hblock
  have hnamed := name_absorb hname (h.named block hmem)
  have hkinds : (state.order.map OpenBlock.kind)[place]? = some fragment.kind := by
    rw [List.getElem?_map, hblock, ← hkind]
    rfl
  refine ⟨?_, ?_, ?_, ?_, ?_⟩
  · obtain ⟨validator, haccepted, hopen⟩ := h.validated
    have hdelta := hopen.delta (by rw [List.length_map]; exact h.short) hkinds
      (deltaOf_delta place (fragment.absorb block) fragment)
    refine ⟨validator, haccepted.concat hdelta, ?_⟩
    have hsame : (state.order.set place (fragment.absorb block)).map OpenBlock.kind =
        state.order.map OpenBlock.kind := by
      rw [List.map_set]
      apply set_of_getElem?
      rw [hkinds, ← hkind]
      rfl
    exact hsame ▸ hopen
  · rw [pushAll_append, List.map_set]
    apply entriesFrom_delta h.assembled _ (fits_partialOf block) hkind hnamed
    rw [List.getElem?_map, hblock]
    rfl
  · intro chunk hchunk
    rcases List.mem_append.mp hchunk with hold | hnew
    · exact h.content chunk hold
    · rw [List.mem_singleton.mp hnew]
      exact plain_delta _ _ _
  · rw [List.length_set]
    exact h.short
  · intro member hmember
    rcases List.mem_or_eq_of_mem_set hmember with hold | rfl
    · exact h.named member hold
    · exact hnamed

theorem step_opened (h : Streams state chunks) (hname : fragment.name ≠ some "")
    (hlength : state.order.length < maxArrayLength) :
    Streams { remember state state.order.length fragment with
        order := state.order ++ [fragment.absorb { kind := fragment.kind }] }
      (chunks ++ [.blockStart state.order.length fragment.kind.name,
        fragment.delta state.order.length (fragment.absorb { kind := fragment.kind })]) := by
  have hnamed : (fragment.absorb { kind := fragment.kind }).name ≠ some "" :=
    name_absorb hname (fun heq => nomatch heq)
  have hlast : ∀ {α : Type} (f : OpenBlock → α) (value : α),
      (state.order.map f ++ [value])[state.order.length]? = some value := by
    intro α f value
    rw [List.getElem?_append_right (Nat.le_of_eq (List.length_map _)), List.length_map,
      Nat.sub_self]
    rfl
  refine ⟨?_, ?_, ?_, ?_, ?_⟩
  · obtain ⟨validator, haccepted, hopen⟩ := h.validated
    obtain ⟨started, hstart, hstarted⟩ := hopen.start (by rw [List.length_map]; exact hlength) fragment.kind
    rw [List.length_map] at hstart
    have hdelta := hstarted.delta (by rw [List.length_append, List.length_map]; exact hlength)
      (hlast OpenBlock.kind fragment.kind)
      (deltaOf_delta state.order.length (fragment.absorb { kind := fragment.kind }) fragment)
    have hboth := (haccepted.concat hstart).concat hdelta
    rw [List.append_assoc] at hboth
    refine ⟨started, hboth, ?_⟩
    rw [List.map_append]
    exact hstarted
  · have hstarted := entriesFrom_start h.assembled fragment.kind.name
    rw [List.length_map] at hstarted
    have hdelta := entriesFrom_delta hstarted (hlast partialOf _) (fits_start fragment.kind) rfl hnamed
    rw [List.set_append_right _ _ (Nat.le_of_eq (List.length_map _)), List.length_map,
      Nat.sub_self, List.set_cons_zero] at hdelta
    rw [pushAll_append, List.map_append]
    exact hdelta
  · intro chunk hchunk
    rcases List.mem_append.mp hchunk with hold | hnew
    · exact h.content chunk hold
    · rcases List.mem_cons.mp hnew with rfl | hnew
      · exact ⟨rfl, rfl, rfl⟩
      · rw [List.mem_singleton.mp hnew]
        exact plain_delta _ _ _
  · rw [List.length_append]
    exact hlength
  · intro member hmember
    rcases List.mem_append.mp hmember with hold | hnew
    · exact h.named member hold
    · rw [List.mem_singleton.mp hnew]
      exact hnamed

theorem empty : Streams {} [] where
  validated := ⟨{}, rfl, OrderedMap.entriesFrom_empty, rfl, rfl⟩
  assembled := OrderedMap.entriesFrom_empty
  content := fun _ h => nomatch h
  short := Nat.zero_le _
  named := fun _ h => nomatch h

end Streams

namespace Run

theorem step (h : Run state read chunks) (hname : fragment.name ≠ some "")
    (habsorbs : Absorbs state fragment new next) : Run next (read ++ [fragment]) (chunks ++ new) := by
  refine ⟨h.reads.step habsorbs, ?_⟩
  cases habsorbs with
  | known href hblock hsuits =>
    obtain ⟨-, -, -, -, hkind⟩ := h.reads.block_of_ref href hblock
    exact h.streams.step_known hname hblock hkind
  | opened href hlength => exact h.streams.step_opened hname hlength

theorem of_same (h : Run state read chunks) (horder : next.order = state.order)
    (hrefs : ∀ fragment, refOf next fragment = refOf state fragment) : Run next read chunks where
  reads := {
    order := horder.trans h.reads.order
    refs := fun fragment => (hrefs fragment).trans (h.reads.refs fragment)
    stable := h.reads.stable }
  streams := {
    validated := by
      rw [horder]
      exact h.streams.validated
    assembled := by
      rw [horder]
      exact h.streams.assembled
    content := h.streams.content
    short := by
      rw [horder]
      exact h.streams.short
    named := by
      rw [horder]
      exact h.streams.named }

theorem nonEmptyText_ne (value : Option Json) : nonEmptyText value ≠ some "" := by
  intro h
  have hne := (Option.filter_eq_some_iff.mp h).2
  simp at hne

theorem name_callFragment (builtins : Builtins) (call : Json) :
    (callFragment builtins call).name ≠ some "" := nonEmptyText_ne _

variable {value : Option Json} {items : List Json}

theorem whenText (toFragment : String → Fragment)
    {onText : TranslateState → String → Yields TranslateState} (h : Run state read chunks)
    (hname : ∀ text, (toFragment text).name = none)
    (habsorbs : ∀ {text state new next}, Remembered state → onText state text = ⟨new, .ok next⟩ →
      Absorbs state (toFragment text) new next)
    (hok : DeepSeek.whenText value onText state = ⟨new, .ok next⟩) :
    Run next (read ++ ((nonEmptyText value).map toFragment).toList) (chunks ++ new) := by
  unfold DeepSeek.whenText at hok
  cases hvalue : nonEmptyText value with
  | none =>
    rw [hvalue] at hok
    obtain ⟨rfl, rfl⟩ := pure_eq_ok.mp hok
    simpa using h
  | some text =>
    rw [hvalue] at hok
    refine h.step ?_ (habsorbs h.reads.remembered hok)
    rw [hname]
    exact fun heq => nomatch heq

theorem calls (h : Run state read chunks)
    (hok : forEach (onCall builtins) state items = ⟨new, .ok next⟩) :
    Run next (read ++ items.map (callFragment builtins)) (chunks ++ new) := by
  induction items generalizing state read chunks new with
  | nil =>
    obtain ⟨rfl, rfl⟩ := pure_eq_ok.mp hok
    simpa using h
  | cons call rest ih =>
    obtain ⟨before, middle, after, hcall, hrest, rfl⟩ := bind_eq_ok.mp hok
    have hstep := h.step (name_callFragment builtins call) (onCall_absorbs h.reads.remembered hcall)
    have hnext := ih hstep hrest
    rw [List.append_assoc, List.append_assoc] at hnext
    exact hnext

theorem elements_of_iterate (h : iterate value = .ok items) : elements value = items := by
  unfold elements
  rw [h]
  rfl

theorem choice {choice : Json} (h : Run state read chunks)
    (hok : onChoice builtins state choice = ⟨new, .ok next⟩) :
    Run next (read ++ choiceFragments builtins choice) (chunks ++ new) := by
  unfold onChoice at hok
  obtain ⟨_, delta, _, hmember, hdelta, rfl⟩ := bind_eq_ok.mp hok
  obtain ⟨rfl, hread⟩ := lift_eq_ok.mp hmember
  obtain rfl := member_eq_ok hread
  obtain ⟨reasoned, state₁, _, hreasoning, hrest₁, rfl⟩ := bind_eq_ok.mp hdelta
  obtain ⟨written, state₂, _, hcontent, hrest₂, rfl⟩ := bind_eq_ok.mp hrest₁
  obtain ⟨_, items, _, hiterate, hrest₃, rfl⟩ := bind_eq_ok.mp hrest₂
  obtain ⟨rfl, hitems⟩ := lift_eq_ok.mp hiterate
  obtain ⟨called, state₃, _, hcalls, hfinish, rfl⟩ := bind_eq_ok.mp hrest₃
  have hrun₁ := h.whenText .reasoning (fun _ => rfl) onReasoning_absorbs hreasoning
  have hrun₂ := hrun₁.whenText .content (fun _ => rfl) onContent_absorbs hcontent
  have hrun₃ := hrun₂.calls hcalls
  rw [← elements_of_iterate hitems] at hrun₃
  split at hfinish
  · obtain ⟨rfl, rfl⟩ := pure_eq_ok.mp hfinish
    have hkept : ∀ reason, Run { state₃ with pendingFinish := reason } _ _ := fun reason =>
      hrun₃.of_same rfl fun fragment => by cases fragment <;> rfl
    simpa [choiceFragments] using hkept _
  · obtain ⟨rfl, rfl⟩ := pure_eq_ok.mp hfinish
    simpa [choiceFragments] using hrun₃

theorem choices (h : Run state read chunks)
    (hok : forEach (onChoice builtins) state items = ⟨new, .ok next⟩) :
    Run next (read ++ items.flatMap (choiceFragments builtins)) (chunks ++ new) := by
  induction items generalizing state read chunks new with
  | nil =>
    obtain ⟨rfl, rfl⟩ := pure_eq_ok.mp hok
    simpa using h
  | cons item rest ih =>
    obtain ⟨before, middle, after, hchoice, hrest, rfl⟩ := bind_eq_ok.mp hok
    have hnext := ih (h.choice hchoice) hrest
    rw [List.append_assoc, List.append_assoc] at hnext
    exact hnext

theorem payload {payload : String} (h : Run state read chunks)
    (hok : onPayload builtins state payload = ⟨new, .ok next⟩) :
    Run next (read ++ payloadFragments builtins payload) (chunks ++ new) := by
  unfold onPayload at hok
  unfold payloadFragments
  cases hparse : builtins.parse payload with
  | none =>
    rw [hparse] at hok
    cases hok
  | some chunk =>
    rw [hparse] at hok
    obtain ⟨_, found, _, hmember, hfound, rfl⟩ := bind_eq_ok.mp hok
    obtain ⟨rfl, hread⟩ := lift_eq_ok.mp hmember
    obtain rfl := member_eq_ok hread
    obtain ⟨_, items, _, hiterate, hrest, rfl⟩ := bind_eq_ok.mp hfound
    obtain ⟨rfl, hitems⟩ := lift_eq_ok.mp hiterate
    obtain ⟨_, last, _, hchoices, husage, rfl⟩ := bind_eq_ok.mp hrest
    have hrun := h.choices hchoices
    rw [← elements_of_iterate hitems] at hrun
    have hkept : ∀ usage, Run { last with pendingUsage := usage } _ _ := fun usage =>
      hrun.of_same rfl fun fragment => by cases fragment <;> rfl
    split at husage
    · split at husage
      · obtain ⟨_, mapped, _, hmap, hlast, rfl⟩ := bind_eq_ok.mp husage
        obtain ⟨rfl, -⟩ := lift_eq_ok.mp hmap
        obtain ⟨rfl, rfl⟩ := pure_eq_ok.mp hlast
        simpa using hkept (some mapped)
      · obtain ⟨rfl, rfl⟩ := pure_eq_ok.mp husage
        simpa using hrun
    · obtain ⟨rfl, rfl⟩ := pure_eq_ok.mp husage
      simpa using hrun

theorem translateFrom {payloads : List String} {result : Unit} (h : Run state read chunks)
    (hok : DeepSeek.translateFrom builtins state payloads = ⟨new, .ok result⟩) :
    ∃ last before, Run last (read ++ fragments builtins payloads) before ∧
      chunks ++ new = before ++ lastChunks last := by
  induction payloads generalizing state read chunks new with
  | nil => cases hok
  | cons payload rest ih =>
    unfold DeepSeek.translateFrom at hok
    by_cases hdone : payload = DONE
    · rw [if_pos hdone] at hok
      injection hok with hnew
      refine ⟨state, chunks, ?_, by rw [hnew]⟩
      simpa [fragments, hdone] using h
    · rw [if_neg hdone] at hok
      obtain ⟨before, middle, after, hpayload, hrest, rfl⟩ := bind_eq_ok.mp hok
      obtain ⟨last, streamed, hrun, heq⟩ := ih (h.payload hpayload) hrest
      refine ⟨last, streamed, ?_, by rw [← heq, List.append_assoc]⟩
      simpa [fragments, hdone] using hrun

end Run

end Runs

section WellFormed

variable {state : TranslateState} {read : List Fragment} {before : List StreamChunk}

def keptBlocks (finish : FinishReason) (all : List ContentBlock) : List ContentBlock :=
  if finish.isTruncated then all.filter isKept else all

def Conflicting : Fragment → Fragment → Prop
  | .call key id name _, .call key' id' name' _ =>
    key.isSome = true ∧ key = key' ∧
      ((∃ first ∈ id, ∃ second ∈ id', first ≠ second) ∨ ∃ first ∈ name, ∃ second ∈ name', first ≠ second)
  | _, _ => False

theorem Run.contents (h : Run state read before) :
    state.order.map closeBlock = (blockGroups read).map contentOf := by
  rw [h.reads.order, List.map_map]
  apply List.map_congr_left
  intro group hgroup
  exact (h.reads.stable group hgroup).content

theorem foldl_push_last (assembler : BlockAssembler) (usage : Option TokenUsage) (reason : FinishReason) :
    ((usage.map StreamChunk.usage).toList ++ [StreamChunk.finish reason none]).foldl push assembler =
      { partials := assembler.partials, usage := usage.or assembler.usage,
        finishReason := some reason, envelope := none } := by
  cases usage <;> rfl

theorem Run.validated (h : Run state read before) : validateStream (before ++ lastChunks state) = .ok () := by
  obtain ⟨validator, haccepted, hopen⟩ := h.streams.validated
  have hshort : 0 + state.order.length ≤ maxArrayLength := by
    have hle := h.streams.short
    omega
  obtain ⟨ended, hended, hclosed⟩ := hopen.ends hshort haccepted
  have hentries : ended.openBlocks.entries = [] := hclosed.blocks
  have husage : ∃ counted, Accepted ((before ++ blockEnds 0 state.order) ++
      (state.pendingUsage.map StreamChunk.usage).toList) counted ∧
      counted.openBlocks.entries = [] ∧ counted.finished = false := by
    cases state.pendingUsage with
    | none =>
      refine ⟨ended, ?_, hentries, hclosed.finished⟩
      rw [Option.map_none, Option.toList_none, List.append_nil]
      exact hended
    | some usage =>
      refine ⟨{ ended with usageSeen := true }, hended.concat ?_, hentries, hclosed.finished⟩
      unfold StreamState.validate
      rw [hclosed.finished, hclosed.usage]
      rfl
  obtain ⟨counted, hcounted, hempty, hfinished⟩ := husage
  have hlast : counted.validate (.finish (finishReason state) none) = .ok { counted with finished := true } := by
    unfold StreamState.validate
    rw [hfinished]
    simp only [Bool.false_eq_true, if_false, hempty]
    exact if_neg fun hpos => Nat.lt_irrefl _ hpos.1
  have haccept := hcounted.concat hlast
  unfold Accepted at haccept
  unfold validateStream lastChunks
  rw [← List.append_assoc, ← List.append_assoc, haccept]
  rfl

theorem pushAll_lastChunks (before : List StreamChunk) (state : TranslateState) :
    pushAll (before ++ lastChunks state) =
      ((state.pendingUsage.map StreamChunk.usage).toList ++ [StreamChunk.finish (finishReason state) none]).foldl
        push ((blockEnds 0 state.order).foldl push
          (pushAll before)) := by
  unfold lastChunks
  rw [pushAll_append, List.append_assoc, List.foldl_append]

theorem finish_pushAll (before : List StreamChunk) (state : TranslateState) :
    (pushAll (before ++ lastChunks state)).finish = finishReason state := by
  rw [pushAll_lastChunks, foldl_push_last]
  rfl

theorem Run.blocks (h : Run state read before) :
    (pushAll (before ++ lastChunks state)).blocks =
      .ok (keptBlocks (finishReason state) ((blockGroups read).map contentOf)) := by
  have hends : ((blockEnds 0 state.order).foldl push
      (pushAll before)).partials.entries = _ :=
    @entriesFrom_ends _ [] state.order h.streams.assembled
  rw [blocks_eq, finish_pushAll, pushAll_lastChunks, foldl_push_last]
  dsimp only
  rw [hends, List.nil_append, assembleAll_of_entriesFrom assemble_closedPartial 0, h.contents]
  rfl

theorem filter_blockEnds (h : Run state read before) :
    (before ++ lastChunks state).filter (fun chunk => !isBlockEnd chunk) =
      before ++ ((state.pendingUsage.map StreamChunk.usage).toList ++ [StreamChunk.finish (finishReason state) none]) := by
  have hbefore : before.filter (fun chunk => !isBlockEnd chunk) = before := by
    apply List.filter_eq_self.mpr
    intro chunk hchunk
    rw [(h.streams.content chunk hchunk).1]
    rfl
  have hends : (blockEnds 0 state.order).filter (fun chunk => !isBlockEnd chunk) = [] := by
    apply List.filter_eq_nil_iff.mpr
    intro chunk hchunk
    obtain ⟨entry, -, rfl⟩ := List.mem_map.mp hchunk
    exact fun hfalse => nomatch hfalse
  unfold lastChunks
  rw [List.filter_append, hbefore, List.append_assoc, List.filter_append, hends, List.nil_append]
  cases state.pendingUsage <;> rfl

theorem Run.blocks_of_deltas (h : Run state read before) :
    (pushAll ((before ++ lastChunks state).filter fun chunk => !isBlockEnd chunk)).blocks =
      .ok (keptBlocks (finishReason state) ((blockGroups read).map contentOf)) := by
  have hentries : (pushAll before).partials.entries = _ := h.streams.assembled
  rw [filter_blockEnds h, pushAll_append, foldl_push_last, blocks_eq]
  dsimp only
  rw [hentries, assembleAll_of_entriesFrom assemble_partialOf 0, h.contents]
  rfl

theorem not_conflicting (h : Run state read before) {first second : Fragment} (hfirst : first ∈ read)
    (hsecond : second ∈ read) : ¬Conflicting first second := by
  intro hconflict
  cases first with
  | reasoning text => exact hconflict
  | content text => exact hconflict
  | call key id name arguments =>
    cases second with
    | reasoning text => exact hconflict
    | content text => exact hconflict
    | call key' id' name' arguments' =>
      obtain ⟨hsome, rfl, hdiffer⟩ := hconflict
      obtain ⟨k, rfl⟩ := Option.isSome_iff_exists.mp hsome
      obtain ⟨group, hgroup, hleft, hright⟩ :=
        @exists_group _ _ _ Fragment.slot _ (.call k) _ _ hfirst hsecond rfl rfl
      have hstable := h.reads.stable group hgroup
      rcases hdiffer with ⟨one, hone, other, hother, hne⟩ | ⟨one, hone, other, hother, hne⟩
      · have hboth := ((hstable _ hleft).1 one hone).symm.trans ((hstable _ hright).1 other hother)
        exact hne (Option.some.inj hboth)
      · have hboth := ((hstable _ hleft).2 one hone).symm.trans ((hstable _ hright).2 other hother)
        exact hne (Option.some.inj hboth)

/-- A translation that does not throw yields a legal stream with one finish at its end and at most
one usage, of which the assembler makes the blocks that the fragments build. -/
theorem translate_wellFormed (builtins : Builtins) (payloads : List String) :
    (∀ chunks, translate builtins payloads = ⟨chunks, .ok ()⟩ →
      validateStream chunks = .ok () ∧
      (∃ before reason, chunks = before ++ [.finish reason none] ∧ before.any isFinish = false) ∧
      (chunks.filter isUsage).length ≤ 1 ∧
      (pushAll chunks).blocks =
        .ok (keptBlocks (pushAll chunks).finish
          ((blockGroups (fragments builtins payloads)).map contentOf)) ∧
      (pushAll (chunks.filter fun chunk => !isBlockEnd chunk)).blocks =
        (pushAll chunks).blocks) ∧
    ∀ first ∈ fragments builtins payloads, ∀ second ∈ fragments builtins payloads,
      Conflicting first second → ∃ error, (translate builtins payloads).result = .error error := by
  have hempty : Run {} [] [] := ⟨Reads.empty, Streams.empty⟩
  refine ⟨fun chunks hok => ?_, fun first hfirst second hsecond hconflict => ?_⟩
  · obtain ⟨last, before, hrun, rfl⟩ := hempty.translateFrom hok
    rw [List.nil_append] at hrun
    have hends : ∀ chunk ∈ blockEnds 0 last.order, isUsage chunk = false ∧ isFinish chunk = false := by
      intro chunk hchunk
      obtain ⟨entry, -, rfl⟩ := List.mem_map.mp hchunk
      exact ⟨rfl, rfl⟩
    refine ⟨hrun.validated, ?_, ?_, ?_, ?_⟩
    · refine ⟨_, finishReason last, by unfold lastChunks; rw [← List.append_assoc], ?_⟩
      apply List.any_eq_false.mpr
      intro chunk hchunk
      apply Bool.eq_false_iff.mp
      rcases List.mem_append.mp hchunk with hbefore | hlast
      · exact (hrun.streams.content chunk hbefore).2.2
      · rcases List.mem_append.mp hlast with hend | husage
        · exact (hends chunk hend).2
        · obtain ⟨usage, -, rfl⟩ := Option.map_eq_some_iff.mp (Option.mem_toList.mp husage)
          rfl
    · have hnone : ∀ {list : List StreamChunk}, (∀ chunk ∈ list, isUsage chunk = false) →
          list.filter isUsage = [] := by
        intro list hlist
        apply List.filter_eq_nil_iff.mpr
        intro chunk hchunk
        rw [hlist chunk hchunk]
        exact Bool.false_ne_true
      unfold lastChunks
      rw [List.filter_append, hnone fun chunk hchunk => (hrun.streams.content chunk hchunk).2.1,
        List.filter_append, List.filter_append, hnone fun chunk hchunk => (hends chunk hchunk).1]
      cases last.pendingUsage with
      | none => exact Nat.zero_le _
      | some usage => exact Nat.le_refl _
    · rw [finish_pushAll]
      exact hrun.blocks
    · rw [hrun.blocks_of_deltas, hrun.blocks]
  · cases hresult : (translate builtins payloads).result with
    | error error => exact ⟨error, rfl⟩
    | ok result =>
      have hok : translate builtins payloads = ⟨(translate builtins payloads).chunks, .ok result⟩ := by
        rw [← hresult]
      obtain ⟨last, before, hrun, -⟩ := hempty.translateFrom hok
      rw [List.nil_append] at hrun
      exact absurd hconflict (not_conflicting hrun hfirst hsecond)

def callChoice (id name arguments : String) : Json :=
  .obj [("delta", .obj [("tool_calls", .arr [.obj [("index", .ofNat 0), ("id", .str id),
    ("function", .obj [("name", .str name), ("arguments", .str arguments)])]])])]

def sampleBuiltins : Builtins where
  parse payload :=
    if payload = "first" then some (.obj [("choices", .arr [callChoice "call-1" "read" "[1,"])])
    else if payload = "second" then some (.obj [("choices", .arr [callChoice "" "" "2]"])])
    else if payload = "other" then some (.obj [("choices", .arr [callChoice "call-2" "" "3]"])])
    else none
  quoted := id
  display _ := "0"
  appended _ := none
  toNumber _ := none
  toUpperCase := id
  slice payload _ _ := payload
  arithmetic := Arithmetic.nearest

theorem translate_wellFormed_sample :
    validateStream (translate sampleBuiltins ["first", "second", "[DONE]"]).chunks = .ok () ∧
    (pushAll ((translate sampleBuiltins ["first", "second", "[DONE]"]).chunks.filter
      fun chunk => !isBlockEnd chunk)).blocks = .ok [.toolCall "call-1" "read" "[1,2]"] ∧
    ∃ error, (translate sampleBuiltins ["first", "other", "[DONE]"]).result = .error error :=
  have h := (translate_wellFormed sampleBuiltins ["first", "second", "[DONE]"]).1 _ rfl
  ⟨h.1, h.2.2.2.2.trans rfl,
    (translate_wellFormed sampleBuiltins ["first", "other", "[DONE]"]).2
      (callFragment sampleBuiltins (.obj [("index", .ofNat 0), ("id", .str "call-1"),
        ("function", .obj [("name", .str "read"), ("arguments", .str "[1,")])])) (.head _)
      (callFragment sampleBuiltins (.obj [("index", .ofNat 0), ("id", .str "call-2"),
        ("function", .obj [("name", .str ""), ("arguments", .str "3]")])])) (.tail _ (.head _))
      ⟨rfl, rfl, .inl ⟨"call-1", rfl, "call-2", rfl, by decide⟩⟩⟩

end WellFormed

end DshKernel.DeepSeek
