import DshKernel.Compaction.Region
import DshKernel.DeepSeek.ImagePricing
import DshKernel.TokenMeter.RoutePricing

/-!
# The transaction of a compaction

A summary is committed when it is priced below the range that it replaces and the surface is still
the one that was priced. The commit may change the prices of the images around the range.
-/

namespace DshKernel.Compaction

open Js Session SurfaceManager Llm DeepSeek List
open TokenMeter (surfaceImages_append heuristicNode MeterSurfaceNode ImagePricing PricedSurface priceSurface priceNodes totalTokens
  surfaceImages imageFreeTotal pricesTokens imageTokens estimateMessage analyzeNode utf16Length)

structure Route where
  connection : DeepSeekConnectionOptions
  model : String

/-- The pricing that the meter finds for a route; without one, it keeps the fixed heuristic. -/
def routePricing (P : PricingRuntime) (route : Option Route) : Option ImagePricing :=
  route.map fun route => deepSeekImageRequestPricing P route.connection route.model

/-- A session beside what the meter has folded of it, and the route of its latest request header. -/
structure MeteredSession where
  session : PairedSession
  nodes : List MeterSurfaceNode
  route : Option Route
  agrees : session.surfaceNodes.1 = .ok (nodes.map (·.seq))

structure PreparedCompaction where
  selection : SurfaceSelection
  measurement : PricedSurface
  selectedNodes : List TokenMeter.TokenSurfaceNode

inductive StabilityCheck where
  | wholeSurface
  | selectedSpan

/-- `slice(startIdx, endIdx + 1)` -/
def slice {A : Type} (items : List A) (startIdx endIdx : Nat) : List A :=
  (items.take (endIdx + 1)).drop startIdx

def checkpointPreamble : String :=
  "This is an automatically generated checkpoint condensing an earlier span of the conversation to "
    ++ "free up context. Treat the captured context as established background and build on it "
    ++ "without restating it. Continue the task directly from the messages that follow, without "
    ++ "acknowledging this checkpoint."

/-- `frameSummary` of the text blocks of a summary -/
def frameSummary (summary : List String) : List ContentBlock :=
  .text (checkpointPreamble ++ "\n\n<compacted-summary>") ::
    (summary.map ContentBlock.text ++ [.text "</compacted-summary>"])

section
variable (M : TokenMeter.Runtime) (P : PricingRuntime)

def measure (metered : MeteredSession) : Except String PricedSurface :=
  priceSurface metered.nodes (routePricing P metered.route)

def prepareCompaction (metered : MeteredSession) (selection : SurfaceSelection) :
    Except String PreparedCompaction := do
  let measurement ← measure P metered
  let selectedNodes := slice measurement.nodes selection.startIdx selection.endIdx
  if selectedNodes.map (·.seq) ≠ selection.shadowedSeqs then
    throw "compaction: selected surface changed before summarization began"
  return ⟨selection, measurement, selectedNodes⟩

/-- The check of `summarizeCompaction`, on the framed summary. -/
def checkSummary (prepared : PreparedCompaction) (checkpoint : Session.Message) : Except String Unit :=
  let framedSummaryTokenCount := estimateMessage M.stringify checkpoint
  let shadowedRouteTokenCount := totalTokens prepared.selectedNodes
  if shadowedRouteTokenCount ≤ framedSummaryTokenCount then
    .error (s!"summary is not smaller than the shadowed content ({framedSummaryTokenCount} "
      ++ s!"estimated framed tokens >= {shadowedRouteTokenCount})")
  else .ok ()

def assertWholeSurfaceUnchanged (metered : MeteredSession) (prepared : PreparedCompaction) :
    Except String Unit := do
  let current ← measure P metered
  if current.nodes ≠ prepared.measurement.nodes then
    throw "compaction: session surface changed during summarization"

def assertSelectedSpanStable (metered : MeteredSession) (prepared : PreparedCompaction) :
    Except String Unit :=
  match (validateSurfaceRegion metered.session prepared.selection.start prepared.selection.end).1 with
  | .error _ => .error "compaction: the selected span is no longer a valid replacement target"
  | .ok current => do
    if current.shadowedSeqs ≠ prepared.selection.shadowedSeqs then
      throw "compaction: the selected span changed during summarization"
    let measurement ← measure P metered
    if slice measurement.nodes current.startIdx current.endIdx ≠ prepared.selectedNodes then
      throw "compaction: the selected span was rewritten during summarization"

def assertStable (check : StabilityCheck) (metered : MeteredSession) (prepared : PreparedCompaction) :
    Except String Unit :=
  match check with
  | .wholeSurface => assertWholeSurfaceUnchanged P metered prepared
  | .selectedSpan => assertSelectedSpanStable P metered prepared

/-- The meter's nodes after `commitCompactionBody` has appended the replacement. -/
def commitCompactionBody (metered : MeteredSession) (prepared : PreparedCompaction)
    (node : MeterSurfaceNode) : Except String (List MeterSurfaceNode) :=
  match metered.nodes.findIdx? fun candidate => candidate.seq == prepared.selection.start,
    metered.nodes.findIdx? fun candidate => candidate.seq == prepared.selection.end with
  | some startIdx, some endIdx =>
    if endIdx < startIdx then .error "token surface: replace has invalid current range"
    else
      .ok (TokenMeter.commitSurfaceTokens metered.nodes
        ⟨node.heuristicTokens, node.heuristicTokens - TokenMeter.removedTokens metered.nodes startIdx endIdx,
          node, .range startIdx endIdx⟩)
  | _, _ => .error "token surface: replace has invalid current range"

/-- `compactSurfaceRegion`: selected and priced on one state of the session, committed on a later
one. The summary and its message are what the summarizer made of it. -/
def compactSurfaceRegion (check : StabilityCheck) (startSeq endSeq : Nat) (before later : MeteredSession)
    (id : String) (source : MessageSource) (summary : List String) (checkpointSeq : Nat) :
    Except String (List MeterSurfaceNode) := do
  let selection ← (validateSurfaceRegion before.session startSeq endSeq).1
  let prepared ← prepareCompaction P before selection
  let checkpoint : Session.Message := .user ⟨id, frameSummary summary, source⟩
  checkSummary M prepared checkpoint
  assertStable P check later prepared
  commitCompactionBody later prepared (analyzeNode M checkpointSeq (some checkpoint))

def surfaceAfter (later : MeteredSession) (attempt : Except String (List MeterSurfaceNode)) :
    List MeterSurfaceNode :=
  match attempt with
  | .ok nodes => nodes
  | .error _ => later.nodes

end

/-! ## The images around the range -/

section
variable (P : PricingRuntime)

def crossing (policy : ImageRequestPolicy) (was is : Bool) (ref : Json) : Int :=
  let gain : Int := imageTokens (retainedPrice P policy ref) - imageTokens (offloadedPrice P ref)
  if was && !is then gain else if !was && is then -gain else 0

/-- The crossings of images whose places start at `was` before and at `is` after. -/
def crossings (policy : ImageRequestPolicy) (offloaded left : Nat) : Nat → Nat → List Json → Int
  | _, _, [] => 0
  | was, is, ref :: rest =>
    crossing P policy (decide (was < offloaded)) (decide (is < left)) ref +
      crossings policy offloaded left (was + 1) (is + 1) rest

/-- What the images in front of a range and behind it cost more without those of the range, because
the route offloads others. -/
def outsideCrossings (route : Option Route) (front range back : List Json) : Int :=
  match route with
  | none => 0
  | some route =>
    match route.connection.imageModel route.model with
    | none => 0
    | some entry =>
      let policy := resolveRequestImagePolicy entry
      let offloaded := pricedOffloadCount P route.connection policy (front ++ range ++ back)
      let left := pricedOffloadCount P route.connection policy (front ++ back)
      crossings P policy offloaded left 0 0 front +
        crossings P policy offloaded left (front.length + range.length) front.length back

end

/-! ## Prices by place -/

section
variable {price : Nat → Nat → Json → LlmImageRequestPrice}

def placedTokens (price : Nat → Json → LlmImageRequestPrice) : Nat → List Json → Nat
  | _, [] => 0
  | place, ref :: rest => imageTokens (price place ref) + placedTokens price (place + 1) rest

theorem placedTokens_append (price : Nat → Json → LlmImageRequestPrice) (place : Nat)
    (images more : List Json) : placedTokens price place (images ++ more) =
      placedTokens price place images + placedTokens price (place + images.length) more := by
  induction images generalizing place with
  | nil => simp [placedTokens]
  | cons ref rest ih =>
    have hplace : place + 1 + rest.length = place + (rest.length + 1) := by omega
    rw [cons_append, placedTokens, placedTokens, ih, length_cons, hplace, Nat.add_assoc]

theorem pricesTokens_mapIdx (price : Nat → Json → LlmImageRequestPrice) (place : Nat)
    (images : List Json) : pricesTokens (images.mapIdx fun index => price (index + place)) =
      placedTokens price place images := by
  induction images generalizing place with
  | nil => rfl
  | cons ref rest ih =>
    have hrest := ih (place + 1)
    rw [mapIdx_cons, placedTokens, ← hrest]
    simp only [pricesTokens, map_cons, sum_cons, Nat.zero_add, Nat.add_assoc,
      Nat.add_comm 1 place]

theorem pricesTokens_middle (price : Nat → Json → LlmImageRequestPrice) (front range back : List Json) :
    pricesTokens ((((front ++ range ++ back).mapIdx price).drop front.length).take range.length) =
      placedTokens price front.length range := by
  rw [append_assoc, mapIdx_append, drop_left' (length_mapIdx),
    mapIdx_append, take_left' (length_mapIdx)]
  exact pricesTokens_mapIdx price front.length range

end

/-! ## What a commit changes -/

section
variable {P : PricingRuntime}

theorem crossings_eq (policy : ImageRequestPolicy) (offloaded left was is : Nat) (images : List Json) :
    crossings P policy offloaded left was is images =
      (placedTokens (fun place ref =>
        if place < left then offloadedPrice P ref else retainedPrice P policy ref) is images : Int) -
      placedTokens (fun place ref =>
        if place < offloaded then offloadedPrice P ref else retainedPrice P policy ref) was images := by
  induction images generalizing was is with
  | nil => rfl
  | cons ref rest ih =>
    rw [crossings, ih, placedTokens, placedTokens, crossing]
    by_cases hwas : was < offloaded
    · by_cases his : is < left
      · simp only [hwas, his, decide_true, Bool.not_true, Bool.and_false, Bool.false_and,
          Bool.false_eq_true, if_true, if_false]
        push_cast
        omega
      · simp only [hwas, his, decide_true, decide_false, Bool.not_false, Bool.and_true, if_true,
          if_false]
        push_cast
        omega
    · by_cases his : is < left
      · simp only [hwas, his, decide_true, decide_false, Bool.not_true, Bool.not_false, Bool.and_true,
          Bool.false_and, Bool.false_eq_true, if_true, if_false]
        push_cast
        omega
      · simp only [hwas, his, decide_false, Bool.not_false, Bool.false_and, Bool.and_false,
          Bool.false_eq_true, if_false]
        push_cast
        omega

variable {front range back : List MeterSurfaceNode} {checkpoint : MeterSurfaceNode}

theorem slice_priceNodes {prices : List LlmImageRequestPrice}
    (hprices : prices.length = (surfaceImages (front ++ range ++ back)).length) :
    totalTokens (((priceNodes (front ++ range ++ back) prices).drop front.length).take range.length) =
      imageFreeTotal range +
        pricesTokens ((prices.drop (surfaceImages front).length).take (surfaceImages range).length) := by
  rw [surfaceImages_append, surfaceImages_append, length_append,
    length_append] at hprices
  rw [append_assoc, TokenMeter.priceNodes_append, drop_left' TokenMeter.length_priceNodes,
    TokenMeter.priceNodes_append, take_left' TokenMeter.length_priceNodes]
  apply TokenMeter.totalTokens_priceNodes
  rw [length_take, length_drop]
  omega

theorem totalTokens_commit {price later : Nat → Json → LlmImageRequestPrice}
    (hcheckpoint : checkpoint.images = []) :
    totalTokens (priceNodes (front ++ checkpoint :: back)
        ((surfaceImages (front ++ checkpoint :: back)).mapIdx later)) =
      totalTokens (priceNodes (front ++ range ++ back)
        ((surfaceImages (front ++ range ++ back)).mapIdx price)) +
      (checkpoint.heuristicTokens - totalTokens (((priceNodes (front ++ range ++ back)
        ((surfaceImages (front ++ range ++ back)).mapIdx price)).drop front.length).take range.length)) +
      (placedTokens later 0 (surfaceImages front) - placedTokens price 0 (surfaceImages front) : Int) +
      (placedTokens later (surfaceImages front).length (surfaceImages back) -
        placedTokens price ((surfaceImages front).length + (surfaceImages range).length)
          (surfaceImages back) : Int) := by
  have hwith : surfaceImages (front ++ range ++ back) =
      surfaceImages front ++ surfaceImages range ++ surfaceImages back := by
    rw [surfaceImages_append, surfaceImages_append]
  have hwithout : surfaceImages (front ++ checkpoint :: back) =
      surfaceImages front ++ surfaceImages back := by
    rw [surfaceImages_append, surfaceImages, surfaceImages, flatMap_cons, hcheckpoint,
      nil_append]
    rfl
  have hfree : imageFreeTotal (front ++ checkpoint :: back) =
      imageFreeTotal front + (checkpoint.heuristicTokens + imageFreeTotal back) := by
    have hnone : TokenMeter.imageFree checkpoint = checkpoint.heuristicTokens := by
      rw [TokenMeter.imageFree, hcheckpoint, length_nil, if_neg (Nat.lt_irrefl 0)]
    rw [TokenMeter.imageFreeTotal_append, ← hnone]
    rfl
  have hbefore := @TokenMeter.totalTokens_priceNodes (front ++ range ++ back) _
    (length_mapIdx (f := price))
  have hafter := @TokenMeter.totalTokens_priceNodes (front ++ checkpoint :: back) _
    (length_mapIdx (f := later))
  have hrange := @slice_priceNodes front range back _ (length_mapIdx (f := price))
  have hmiddle := pricesTokens_middle price (surfaceImages front) (surfaceImages range)
    (surfaceImages back)
  have hall := pricesTokens_mapIdx price 0 (surfaceImages front ++ surfaceImages range ++
    surfaceImages back)
  have hleft := pricesTokens_mapIdx later 0 (surfaceImages front ++ surfaceImages back)
  rw [placedTokens_append, placedTokens_append, length_append, Nat.zero_add, Nat.zero_add] at hall
  rw [placedTokens_append, Nat.zero_add] at hleft
  simp only [Nat.add_zero] at hall hleft
  rw [← hwith] at hmiddle hall
  rw [← hwithout] at hleft
  rw [hmiddle] at hrange
  rw [hall, TokenMeter.imageFreeTotal_append, TokenMeter.imageFreeTotal_append] at hbefore
  rw [hleft, hfree] at hafter
  rw [hrange, hbefore, hafter]
  push_cast
  omega

theorem heuristic_commit : totalTokens ((front ++ checkpoint :: back).map heuristicNode) =
    totalTokens ((front ++ range ++ back).map heuristicNode) +
      (checkpoint.heuristicTokens - totalTokens ((((front ++ range ++ back).map
        heuristicNode).drop front.length).take range.length)) := by
  have hslice : (((front ++ range ++ back).map heuristicNode).drop front.length).take
      range.length = range.map heuristicNode := by
    rw [append_assoc, map_append, drop_left' (length_map _), map_append,
      take_left' (length_map _)]
  have hone : totalTokens ((checkpoint :: back).map heuristicNode) =
      checkpoint.heuristicTokens + totalTokens (back.map heuristicNode) := by
    simp [totalTokens, heuristicNode]
  rw [hslice, map_append, map_append, map_append, TokenMeter.totalTokens_append,
    TokenMeter.totalTokens_append, TokenMeter.totalTokens_append, hone]
  omega

def saving (measured : PricedSurface) (front range : List MeterSurfaceNode)
    (checkpoint : MeterSurfaceNode) : Int :=
  totalTokens ((measured.nodes.drop front.length).take range.length) - checkpoint.heuristicTokens

variable {A B : Type} {endSeq startSeq : Nat} {check : StabilityCheck}
variable {nodes : List MeterSurfaceNode}

theorem map_eq_mapIdx {f : A → B} (items : List A) : items.map f = items.mapIdx fun _ => f := by
  induction items with
  | nil => rfl
  | cons item rest ih => rw [map_cons, mapIdx_cons, ih]

theorem length_deepSeekPrices (route : Route) (images : List Json) :
    (deepSeekImageRequestPricing P route.connection route.model images).length = images.length := by
  unfold deepSeekImageRequestPricing
  split
  · exact length_map _
  · exact length_mapIdx

theorem measured_commit (route : Option Route) (hcheckpoint : checkpoint.images = []) :
    ∃ measured shrunk, priceSurface (front ++ range ++ back) (routePricing P route) = .ok measured ∧
      priceSurface (front ++ checkpoint :: back) (routePricing P route) = .ok shrunk ∧
      shrunk.surfaceTokens = measured.surfaceTokens - saving measured front range checkpoint +
        outsideCrossings P route (surfaceImages front) (surfaceImages range) (surfaceImages back) := by
  cases route with
  | none =>
    refine ⟨_, _, rfl, rfl, ?_⟩
    have hcommit := @heuristic_commit front range back checkpoint
    simp only [saving, outsideCrossings]
    omega
  | some route =>
    have hlength := @length_deepSeekPrices P route
    refine ⟨_, _, TokenMeter.priceSurface_some hlength, TokenMeter.priceSurface_some hlength, ?_⟩
    simp only [saving, outsideCrossings]
    cases hentry : route.connection.imageModel route.model with
    | none =>
      have hprices : deepSeekImageRequestPricing P route.connection route.model =
          fun images => images.mapIdx fun _ => textOnlyPrice := by
        funext images
        rw [deepSeekImageRequestPricing, hentry]
        exact map_eq_mapIdx images
      have hcommit := @totalTokens_commit front range back checkpoint (fun _ => textOnlyPrice)
        (fun _ => textOnlyPrice) hcheckpoint
      have hconst : ∀ (images : List Json) (first second : Nat),
          placedTokens (fun _ => textOnlyPrice) first images =
            placedTokens (fun _ => textOnlyPrice) second images := by
        intro images
        induction images with
        | nil => exact fun _ _ => rfl
        | cons ref rest ih =>
          intro first second
          rw [placedTokens, placedTokens, ih (first + 1) (second + 1)]
      rw [hconst (surfaceImages back) ((surfaceImages front).length + (surfaceImages range).length)
        (surfaceImages front).length] at hcommit
      simp only [hprices]
      omega
    | some entry =>
      have hprices : ∀ images, deepSeekImageRequestPricing P route.connection route.model images =
          images.mapIdx fun place ref =>
            if place < pricedOffloadCount P route.connection (resolveRequestImagePolicy entry) images
            then offloadedPrice P ref else retainedPrice P (resolveRequestImagePolicy entry) ref := by
        intro images
        rw [deepSeekImageRequestPricing, hentry]
      have hwith : surfaceImages (front ++ range ++ back) =
          surfaceImages front ++ surfaceImages range ++ surfaceImages back := by
        rw [surfaceImages_append, surfaceImages_append]
      have hwithout : surfaceImages (front ++ checkpoint :: back) =
          surfaceImages front ++ surfaceImages back := by
        rw [surfaceImages_append, surfaceImages, surfaceImages, flatMap_cons,
          hcheckpoint, nil_append]
        rfl
      have hcommit := @totalTokens_commit front range back checkpoint
        (fun place ref =>
          if place < pricedOffloadCount P route.connection (resolveRequestImagePolicy entry)
            (surfaceImages (front ++ range ++ back))
          then offloadedPrice P ref else retainedPrice P (resolveRequestImagePolicy entry) ref)
        (fun place ref =>
          if place < pricedOffloadCount P route.connection (resolveRequestImagePolicy entry)
            (surfaceImages (front ++ checkpoint :: back))
          then offloadedPrice P ref else retainedPrice P (resolveRequestImagePolicy entry) ref)
        hcheckpoint
      simp only [hprices, crossings_eq, ← hwith, ← hwithout]
      omega

/-! ## The attempt -/

variable {M : TokenMeter.Runtime}

theorem validateSurfaceRegion_spec {p : PairedSession} {nodes : List Nat}
    {selection : SurfaceSelection} (hnodes : p.surfaceNodes.1 = .ok nodes)
    (h : (validateSurfaceRegion p startSeq endSeq).1 = .ok selection) :
    nodes.idxOf? startSeq = some selection.startIdx ∧ nodes.idxOf? endSeq = some selection.endIdx ∧
      selection.startIdx ≤ selection.endIdx ∧ selection.start = startSeq ∧ selection.end = endSeq ∧
      selection.shadowedSeqs = slice nodes selection.startIdx selection.endIdx := by
  unfold validateSurfaceRegion at h
  rcases hread : p.surfaceNodes with ⟨read, q⟩
  rw [hread] at hnodes h
  simp only at hnodes
  rw [hnodes] at h
  simp only at h
  split at h
  · cases h
  · cases h
  · rename_i startIdx endIdx hstart hend
    split at h
    · cases h
    · rename_i hle
      split at h
      · cases h
      · cases h
      · split at h
        · cases h
        · cases h
        · cases h
          exact ⟨hstart, hend, Nat.le_of_not_lt hle, rfl, rfl, rfl⟩

theorem of_bind_ok {x : Except String A} {f : A → Except String B} {result : B}
    (h : x >>= f = .ok result) : ∃ value, x = .ok value ∧ f value = .ok result := by
  cases x with
  | error message => cases h
  | ok value => exact ⟨value, rfl, h⟩

variable {before later : MeteredSession} {prepared : PreparedCompaction} {selection : SurfaceSelection}

theorem prepareCompaction_spec (h : prepareCompaction P before selection = .ok prepared) :
    measure P before = .ok prepared.measurement ∧ prepared.selection = selection ∧
      prepared.selectedNodes =
        slice prepared.measurement.nodes selection.startIdx selection.endIdx := by
  obtain ⟨measurement, hmeasure, h⟩ := of_bind_ok h
  simp only at h
  split at h
  · cases h
  · cases h
    exact ⟨hmeasure, rfl, rfl⟩

theorem checkSummary_spec {message : Session.Message} (h : checkSummary M prepared message = .ok ()) :
    (estimateMessage M.stringify message : Int) < totalTokens prepared.selectedNodes := by
  unfold checkSummary at h
  simp only at h
  split at h
  · cases h
  · omega

structure Stands (P : PricingRuntime) (metered : MeteredSession) (prepared : PreparedCompaction)
    (startIdx endIdx : Nat) : Prop where
  start : (metered.nodes.map (·.seq)).idxOf? prepared.selection.start = some startIdx
  last : (metered.nodes.map (·.seq)).idxOf? prepared.selection.end = some endIdx
  order : startIdx ≤ endIdx
  priced : ∀ measured, measure P metered = .ok measured →
    slice measured.nodes startIdx endIdx = prepared.selectedNodes

theorem stands_of_stable
    (hselection : (validateSurfaceRegion before.session startSeq endSeq).1 = .ok selection)
    (hprepared : prepareCompaction P before selection = .ok prepared)
    (h : assertStable P check later prepared = .ok ()) :
    ∃ startIdx endIdx, Stands P later prepared startIdx endIdx := by
  obtain ⟨hmeasure, heq, hselected⟩ := prepareCompaction_spec hprepared
  cases check with
  | wholeSurface =>
    obtain ⟨current, hcurrent, h⟩ := of_bind_ok h
    obtain ⟨hstart, hend, hle, hstartSeq, hendSeq, -⟩ :=
      validateSurfaceRegion_spec before.agrees hselection
    have hsame : current.nodes = prepared.measurement.nodes := by
      by_contra hne
      rw [if_pos hne] at h
      cases h
    have hseqs : later.nodes.map (·.seq) = before.nodes.map (·.seq) := by
      rw [← TokenMeter.map_seq_priceSurface hcurrent, hsame, TokenMeter.map_seq_priceSurface hmeasure]
    refine ⟨selection.startIdx, selection.endIdx, ?_, ?_, hle, ?_⟩
    · rw [heq, hseqs, hstartSeq]
      exact hstart
    · rw [heq, hseqs, hendSeq]
      exact hend
    · intro measured hmeasured
      rw [hcurrent] at hmeasured
      cases hmeasured
      rw [hsame, hselected]
  | selectedSpan =>
    simp only [assertStable, assertSelectedSpanStable] at h
    split at h
    · cases h
    · rename_i current hcurrent
      by_cases hspan : current.shadowedSeqs ≠ prepared.selection.shadowedSeqs
      · rw [if_pos hspan] at h
        cases h
      rw [if_neg hspan] at h
      obtain ⟨measurement, hmeasured, h⟩ := of_bind_ok h
      obtain ⟨hstart, hend, hle, -, -, -⟩ := validateSurfaceRegion_spec later.agrees hcurrent
      refine ⟨current.startIdx, current.endIdx, hstart, hend, hle, ?_⟩
      intro measured hagain
      rw [hmeasured] at hagain
      cases hagain
      by_contra hne
      rw [if_pos hne] at h
      cases h

theorem commitCompactionBody_spec {startIdx endIdx : Nat}
    (hstands : Stands P later prepared startIdx endIdx)
    (h : commitCompactionBody later prepared checkpoint = .ok nodes) :
    nodes = later.nodes.take startIdx ++ checkpoint :: later.nodes.drop (endIdx + 1) := by
  have hstart := hstands.start
  have hend := hstands.last
  rw [idxOf?, findIdx?_map] at hstart hend
  have hplaceStart : later.nodes.findIdx? (fun node => node.seq == prepared.selection.start) =
      some startIdx := hstart
  have hplaceEnd : later.nodes.findIdx? (fun node => node.seq == prepared.selection.end) =
      some endIdx := hend
  simp only [commitCompactionBody, hplaceStart, hplaceEnd, if_neg (Nat.not_lt.mpr hstands.order)] at h
  cases h
  rfl

theorem contentImages_texts (texts : List String) : contentImages (texts.map ContentBlock.text) = [] := by
  induction texts with
  | nil => rfl
  | cons text rest ih => rw [map_cons, contentImages, blockImages, ih, nil_append]

theorem images_checkpoint (seq : Nat) (id : String) (source : MessageSource) (summary : List String) :
    (analyzeNode M seq (some (.user ⟨id, frameSummary summary, source⟩))).images = [] := by
  have hframe : frameSummary summary = ((checkpointPreamble ++ "\n\n<compacted-summary>") ::
      (summary ++ ["</compacted-summary>"])).map ContentBlock.text := by
    rw [frameSummary, map_cons, map_append]
    rfl
  rw [analyzeNode]
  simp only [TokenMeter.messageContent]
  rw [DeepSeek.collectImages_eq, hframe, contentImages_texts]

theorem slice_eq (items : List A) (startIdx endIdx : Nat) :
    slice items startIdx endIdx = (items.drop startIdx).take (endIdx + 1 - startIdx) := by
  rw [slice, drop_take]

theorem commit_of_ok {id : String}
    {source : MessageSource} {summary : List String} {checkpointSeq : Nat}
    (h : compactSurfaceRegion M P check startSeq endSeq before later id source summary checkpointSeq =
      .ok nodes) :
    ∃ front range back, later.nodes = front ++ range ++ back ∧
      nodes = front ++ analyzeNode M checkpointSeq (some (.user ⟨id, frameSummary summary, source⟩)) ::
        back ∧
      ∀ measured, measure P later = .ok measured → 0 < saving measured front range
        (analyzeNode M checkpointSeq (some (.user ⟨id, frameSummary summary, source⟩))) := by
  obtain ⟨selection, hselection, h⟩ := of_bind_ok h
  obtain ⟨prepared, hprepared, h⟩ := of_bind_ok h
  obtain ⟨_, hsummary, h⟩ := of_bind_ok h
  obtain ⟨_, hstable, h⟩ := of_bind_ok h
  obtain ⟨startIdx, endIdx, hstands⟩ := stands_of_stable hselection hprepared hstable
  have hnodes := commitCompactionBody_spec hstands h
  have hle := hstands.order
  have hlength : startIdx < later.nodes.length := by
    have hstart := hstands.start
    rw [idxOf?, findIdx?_map, findIdx?_eq_some_iff_getElem] at hstart
    exact hstart.1
  have hlast : endIdx < later.nodes.length := by
    have hend := hstands.last
    rw [idxOf?, findIdx?_map, findIdx?_eq_some_iff_getElem] at hend
    exact hend.1
  refine ⟨later.nodes.take startIdx, slice later.nodes startIdx endIdx,
    later.nodes.drop (endIdx + 1), ?_, hnodes, ?_⟩
  · have hfront : (later.nodes.take (endIdx + 1)).take startIdx = later.nodes.take startIdx := by
      rw [take_take, Nat.min_eq_left (by omega)]
    rw [slice, ← hfront, take_append_drop, take_append_drop]
  · intro measured hmeasured
    have hpriced := hstands.priced measured hmeasured
    have hmargin := checkSummary_spec hsummary
    have hfrontLength : (later.nodes.take startIdx).length = startIdx := by
      rw [length_take]
      omega
    have hrangeLength : (slice later.nodes startIdx endIdx).length = endIdx + 1 - startIdx := by
      rw [slice, length_drop, length_take]
      omega
    rw [saving, hfrontLength, hrangeLength, ← slice_eq measured.nodes, hpriced]
    have htokens : (analyzeNode M checkpointSeq
        (some (.user ⟨id, frameSummary summary, source⟩))).heuristicTokens =
          estimateMessage M.stringify (.user ⟨id, frameSummary summary, source⟩) := rfl
    rw [htokens]
    omega

end

/-- A committed attempt has the checkpoint in the place of its range. The surface then costs less
just if the images around the range cost less more, because the route offloads others, than the
range cost more than the checkpoint. -/
theorem compaction_shrinks_iff (M : TokenMeter.Runtime) (P : PricingRuntime) (check : StabilityCheck)
    (startSeq endSeq : Nat) (before later : MeteredSession) (id : String) (source : MessageSource)
    (summary : List String) (checkpointSeq : Nat) :
    let attempt := compactSurfaceRegion M P check startSeq endSeq before later id source summary
      checkpointSeq
    ((∃ message, attempt = .error message) ∧ surfaceAfter later attempt = later.nodes) ∨
      ∃ front range back checkpoint measured shrunk, later.nodes = front ++ range ++ back ∧
        attempt = .ok (front ++ checkpoint :: back) ∧
        priceSurface later.nodes (routePricing P later.route) = .ok measured ∧
        priceSurface (surfaceAfter later attempt) (routePricing P later.route) = .ok shrunk ∧
        0 < saving measured front range checkpoint ∧
        (shrunk.surfaceTokens < measured.surfaceTokens ↔
          outsideCrossings P later.route (surfaceImages front) (surfaceImages range)
              (surfaceImages back) <
            saving measured front range checkpoint) := by
  intro attempt
  cases hattempt : attempt with
  | error message => exact Or.inl ⟨⟨message, rfl⟩, rfl⟩
  | ok nodes =>
    right
    obtain ⟨front, range, back, hlater, hnodes, hmargin⟩ := commit_of_ok hattempt
    obtain ⟨measured, shrunk, hmeasured, hshrunk, htotal⟩ := measured_commit later.route
      (images_checkpoint checkpointSeq id source summary)
    refine ⟨front, range, back, _, measured, shrunk, hlater, congrArg Except.ok hnodes, ?_, ?_,
      hmargin measured ?_, ?_⟩
    · rw [hlater]
      exact hmeasured
    · rw [surfaceAfter, hnodes]
      exact hshrunk
    · rw [measure, hlater]
      exact hmeasured
    · omega

def fourImageRoute : Route where
  connection := { narrowRoute with maxImagesPerRequest := 4, imageOffloadCountQuantum := 4 }
  model := "vision"

def galleryMessage (id : String) (images : Nat) : UserMessage :=
  ⟨id, replicate images (.image screenshot), .user⟩

def galleryPair : PairedSession :=
  ((⟨freshSession, none⟩ : PairedSession).append (.userMessage (galleryMessage "first" 3))
    { surfaceOp := some (.str "append") } epoch none).append (.userMessage (galleryMessage "second" 2))
    { surfaceOp := some (.str "append") } epoch none

def galleryRuntime : TokenMeter.Runtime where
  stringify _ := "\x7b\"type\":\"image\",\"attachment\":\x7b\"attachmentId\":"
    ++ "\"sha256:0123456789abcdef\",\"mediaType\":\"image/png\",\"bytes\":30,\"width\":640,"
    ++ "\"height\":480\x7d\x7d"
  add a _ := a

def galleryNode (seq : Nat) (id : String) (images : Nat) : MeterSurfaceNode :=
  analyzeNode galleryRuntime seq (some (.user (galleryMessage id images)))

def gallery : MeteredSession where
  session := galleryPair
  nodes := [galleryNode 0 "first" 3, galleryNode 1 "second" 2]
  route := some fourImageRoute
  agrees := rfl

theorem validate_gallery : (validateSurfaceRegion gallery.session 0 0).1 = .ok ⟨0, 0, 0, 0, [0]⟩ := by
  have hlater : PairedSession.Later ⟨freshSession, none⟩ galleryPair :=
    .append _ _ _ _ (.append _ _ _ _ (.refl _))
  have hkept := PairedSession.Later.kept (kept_create create_freshSession) hlater
  obtain ⟨state, replacements, hfold⟩ := hkept.folds
  have hsurface : foldSurface galleryPair.events = .ok ⟨[0, 1], []⟩ := rfl
  have hnodes : state.nodes = [0, 1] := by
    rw [hfold.foldSurface_eq] at hsurface
    injection hsurface with hresult
    injection hresult
  have hscan : scanTail galleryPair.events state.nodes 0 = .ok ([true, true], 0) := by
    rw [hnodes]
    rfl
  have hfirst : state.nodes[0]? = some 0 := by rw [hnodes]; rfl
  have hvalid := validateSurfaceRegion_head hkept hfold hscan hfirst hfirst (by rw [hnodes]; rfl)
  rw [hnodes] at hvalid
  exact hvalid

section
variable {s t : String} {m n : Nat}

theorem utf16Length_append (hs : utf16Length s = m) (ht : utf16Length t = n) :
    utf16Length (s ++ t) = m + n := by
  rw [← hs, ← ht]
  simp [utf16Length]

theorem utf16Length_ofList (chars : List Char) : utf16Length (String.ofList chars) =
    (chars.map fun c => if c.val < 0x10000 then 1 else 2).sum := by
  rw [utf16Length, String.toList_ofList]

theorem estimate_three {u : String} {k : Nat} (hs : utf16Length s = m) (ht : utf16Length t = n)
    (hu : utf16Length u = k) (stringify : Json → String) (id : String) (source : MessageSource) :
    estimateMessage stringify (.user ⟨id, [.text s, .text t, .text u], source⟩) =
      (m + 3) / 4 + 4 + ((n + 3) / 4 + 4 + ((k + 3) / 4 + 4 + 0)) + 4 := by
  rw [← hs, ← ht, ← hu]
  rfl

theorem imageTokens_of (h : utf16Length t = n) (visualTokens : Nat) :
    imageTokens ⟨visualTokens, t⟩ = visualTokens + ((n + 3) / 4 + 4) := by
  rw [← h]
  rfl

end

theorem imageTokens_offloaded : imageTokens (offloadedPrice plainPricing screenshot) = 44 := by
  have homitted : utf16Length "image omitted to fit request image limits; " = 43 :=
    (utf16Length_ofList _).trans rfl
  have hid : utf16Length "sha256:0123456789abcdef" = 23 := (utf16Length_ofList _).trans rfl
  have hdot : utf16Length "." = 1 := (utf16Length_ofList _).trans rfl
  have hopen : utf16Length "[" = 1 := (utf16Length_ofList _).trans rfl
  have hpath : utf16Length " No local normalized image path is available; " = 46 :=
    (utf16Length_ofList _).trans rfl
  have hask : utf16Length "ask the user to attach it again if needed.]" = 43 :=
    (utf16Length_ofList _).trans rfl
  have hidentity := utf16Length_append (utf16Length_append homitted hid) hdot
  have htext := utf16Length_append (utf16Length_append (utf16Length_append hopen hidentity) hpath) hask
  exact imageTokens_of htext 0

theorem imageTokens_retained (policy : ImageRequestPolicy) :
    imageTokens (retainedPrice plainPricing policy screenshot) = 249 := by
  have himage : utf16Length "Image " = 6 := (utf16Length_ofList _).trans rfl
  have hid : utf16Length "sha256:0123456789abcdef" = 23 := (utf16Length_ofList _).trans rfl
  have hpreview : utf16Length "; request preview " = 18 := (utf16Length_ofList _).trans rfl
  have hwidth : utf16Length (toString 640) = 3 := rfl
  have hby : utf16Length "x" = 1 := (utf16Length_ofList _).trans rfl
  have hheight : utf16Length (toString 480) = 3 := rfl
  have hpixels : utf16Length "px." = 3 := (utf16Length_ofList _).trans rfl
  have hresized : utf16Length
    " It may be resized or re-encoded; source dimensions, format, and byte size may differ." = 86 :=
      (utf16Length_ofList _).trans rfl
  have hlabel := utf16Length_append (utf16Length_append himage hid) hpreview
  have hsize := utf16Length_append (utf16Length_append (utf16Length_append
    (utf16Length_append hlabel hwidth) hby) hheight) hpixels
  have hprice : retainedPrice plainPricing policy screenshot =
    ⟨209, Llm.requestImageHandleText plainPricing.stringify screenshot 640 480 none⟩ := rfl
  rw [hprice]
  exact imageTokens_of (utf16Length_append hsize hresized) 209

theorem estimate_galleryCheckpoint (stringify : Json → String) (id : String) (source : MessageSource) :
    estimateMessage stringify (.user ⟨id, frameSummary ["Done."], source⟩) = 104 := by
  have hfirst : utf16Length
    "This is an automatically generated checkpoint condensing an earlier span of the conversation to "
      = 96 := (utf16Length_ofList _).trans rfl
  have hsecond : utf16Length
    "free up context. Treat the captured context as established background and build on it "
      = 86 := (utf16Length_ofList _).trans rfl
  have hthird : utf16Length
    "without restating it. Continue the task directly from the messages that follow, without "
      = 88 := (utf16Length_ofList _).trans rfl
  have hlast : utf16Length "acknowledging this checkpoint." = 30 := (utf16Length_ofList _).trans rfl
  have hopen : utf16Length "\n\n<compacted-summary>" = 21 := (utf16Length_ofList _).trans rfl
  have hsummary : utf16Length "Done." = 5 := (utf16Length_ofList _).trans rfl
  have hclose : utf16Length "</compacted-summary>" = 20 := (utf16Length_ofList _).trans rfl
  have hpreamble := utf16Length_append (utf16Length_append (utf16Length_append
    (utf16Length_append hfirst hsecond) hthird) hlast) hopen
  exact estimate_three hpreamble hsummary hclose stringify id source

theorem prices_gallery : deepSeekImageRequestPricing plainPricing fourImageRoute.connection
    fourImageRoute.model (replicate 5 screenshot) =
      replicate 4 (offloadedPrice plainPricing screenshot) ++
        [retainedPrice plainPricing (resolveRequestImagePolicy { id := "vision" }) screenshot] := rfl

theorem prices_galleryLeft : deepSeekImageRequestPricing plainPricing fourImageRoute.connection
    fourImageRoute.model (replicate 2 screenshot) =
      replicate 2 (retainedPrice plainPricing (resolveRequestImagePolicy { id := "vision" })
        screenshot) := rfl

theorem priceNode_gallery (seq : Nat) (id : String) (images : Nat) (prices : List LlmImageRequestPrice) (h : 0 < images) :
    (TokenMeter.priceNode (galleryNode seq id images) prices).tokens = 4 + pricesTokens prices := by
  have hcollect : ∀ n, TokenMeter.collectImages galleryRuntime.stringify
      (replicate n (.image screenshot)) = (replicate n screenshot,
        TokenMeter.estimateContent galleryRuntime.stringify (replicate n (.image screenshot))) := by
    intro n
    induction n with
    | zero => rfl
    | succ n ih =>
      rw [replicate_succ, TokenMeter.collectImages, ih, replicate_succ,
        TokenMeter.estimateContent]
      rfl
  have himages : (galleryNode seq id images).images.length = images := by
    have hall := congrArg (fun collected => collected.1.length) (hcollect images)
    rw [length_replicate] at hall
    exact hall
  have hfree : (galleryNode seq id images).imageFreeTokens = 4 := by
    have htotal := congrArg (fun collected => (collected.2 : Int)) (hcollect images)
    simp only [galleryNode, analyzeNode, galleryMessage, TokenMeter.messageContent, estimateMessage,
      TokenMeter.roleOverhead] at htotal ⊢
    omega
  rw [TokenMeter.priceNode]
  simp only [himages, h, if_true, hfree]

def galleryPriced : List TokenMeter.TokenSurfaceNode :=
  priceNodes gallery.nodes (replicate 4 (offloadedPrice plainPricing screenshot) ++
    [retainedPrice plainPricing (resolveRequestImagePolicy { id := "vision" }) screenshot])

theorem tokens_galleryPriced : galleryPriced.map (·.tokens) = [136, 297] := by
  have hfirst := priceNode_gallery 0 "first" 3 (replicate 3 (offloadedPrice plainPricing screenshot))
    (by omega)
  have hsecond := priceNode_gallery 1 "second" 2 [offloadedPrice plainPricing screenshot,
    retainedPrice plainPricing (resolveRequestImagePolicy { id := "vision" }) screenshot] (by omega)
  have hprices : pricesTokens (replicate 3 (offloadedPrice plainPricing screenshot)) = 132 := by
    rw [pricesTokens, map_replicate, imageTokens_offloaded]
    rfl
  have hmore : pricesTokens [offloadedPrice plainPricing screenshot,
      retainedPrice plainPricing (resolveRequestImagePolicy { id := "vision" }) screenshot] = 293 := by
    rw [pricesTokens, map_cons, map_cons, imageTokens_offloaded, imageTokens_retained]
    rfl
  rw [hprices] at hfirst
  rw [hmore] at hsecond
  exact congrArg₂ (fun first second => [first, second]) hfirst hsecond

theorem measure_gallery : measure plainPricing gallery = .ok ⟨galleryPriced, 433⟩ := by
  have hpriced := @TokenMeter.priceSurface_some gallery.nodes _
    (@length_deepSeekPrices plainPricing fourImageRoute)
  have himages : surfaceImages gallery.nodes = replicate 5 screenshot := rfl
  have htotal : totalTokens galleryPriced = 433 := by
    rw [totalTokens, tokens_galleryPriced]
    rfl
  rw [himages, prices_gallery] at hpriced
  rw [← htotal]
  exact hpriced

def galleryLeft : List MeterSurfaceNode :=
  [analyzeNode galleryRuntime 4 (some (.user ⟨"checkpoint", frameSummary ["Done."], .user⟩)),
    galleryNode 1 "second" 2]

theorem measure_galleryLeft :
    ∃ nodes, priceSurface galleryLeft (routePricing plainPricing gallery.route) = .ok ⟨nodes, 606⟩ := by
  have hpriced := @TokenMeter.priceSurface_some galleryLeft _
    (@length_deepSeekPrices plainPricing fourImageRoute)
  have himages : surfaceImages galleryLeft = replicate 2 screenshot := rfl
  have hsecond := priceNode_gallery 1 "second" 2 (replicate 2
    (retainedPrice plainPricing (resolveRequestImagePolicy { id := "vision" }) screenshot)) (by omega)
  have hprices : pricesTokens (replicate 2 (retainedPrice plainPricing
      (resolveRequestImagePolicy { id := "vision" }) screenshot)) = 498 := by
    rw [pricesTokens, map_replicate, imageTokens_retained]
    rfl
  rw [hprices] at hsecond
  have hfirst := estimate_galleryCheckpoint galleryRuntime.stringify "checkpoint" .user
  have htokens : (priceNodes galleryLeft (replicate 2 (retainedPrice plainPricing
      (resolveRequestImagePolicy { id := "vision" }) screenshot))).map (·.tokens) = [104, 502] :=
    congrArg₂ (fun first second => [first, second]) (congrArg Nat.cast hfirst) hsecond
  have htotal : totalTokens (priceNodes galleryLeft (replicate 2 (retainedPrice plainPricing
      (resolveRequestImagePolicy { id := "vision" }) screenshot))) = 606 := by
    rw [totalTokens, htokens]
    rfl
  rw [himages, prices_galleryLeft, htotal] at hpriced
  exact ⟨_, hpriced⟩

theorem bind_ok {A B : Type} {x : Except String A} {value : A} (h : x = .ok value)
    (f : A → Except String B) : (x >>= f) = f value := by
  rw [h]
  rfl

theorem compact_gallery : compactSurfaceRegion galleryRuntime plainPricing .wholeSurface 0 0 gallery
    gallery "checkpoint" .user ["Done."] 4 = .ok galleryLeft := by
  have hselected : totalTokens (slice galleryPriced 0 0) = 136 := by
    have hslice := congrArg (fun tokens => (slice tokens 0 0).sum) tokens_galleryPriced
    exact hslice
  have hprepared : prepareCompaction plainPricing gallery ⟨0, 0, 0, 0, [0]⟩ =
      .ok ⟨⟨0, 0, 0, 0, [0]⟩, ⟨galleryPriced, 433⟩, slice galleryPriced 0 0⟩ := by
    rw [prepareCompaction, measure_gallery]
    rfl
  have hsummary : checkSummary galleryRuntime
      ⟨⟨0, 0, 0, 0, [0]⟩, ⟨galleryPriced, 433⟩, slice galleryPriced 0 0⟩
      (.user ⟨"checkpoint", frameSummary ["Done."], .user⟩) = .ok () := by
    simp only [checkSummary, hselected, estimate_galleryCheckpoint]
    rfl
  have hstable : assertStable plainPricing .wholeSurface gallery
      ⟨⟨0, 0, 0, 0, [0]⟩, ⟨galleryPriced, 433⟩, slice galleryPriced 0 0⟩ = .ok () := by
    rw [assertStable, assertWholeSurfaceUnchanged, measure_gallery]
    rw [bind_ok rfl]
    exact if_neg (not_not_intro rfl)
  have hcommit : commitCompactionBody gallery
      ⟨⟨0, 0, 0, 0, [0]⟩, ⟨galleryPriced, 433⟩, slice galleryPriced 0 0⟩
      (analyzeNode galleryRuntime 4 (some (.user ⟨"checkpoint", frameSummary ["Done."], .user⟩))) =
        .ok galleryLeft := rfl
  rw [compactSurfaceRegion, bind_ok validate_gallery, bind_ok hprepared]
  simp only
  rw [bind_ok hsummary, bind_ok hstable, hcommit]

theorem meter_gallery : TokenMeter.meterSurface galleryRuntime galleryPair.events = .ok gallery.nodes := by
  rfl

/-- A compaction that commits, after which the request costs more: the images of the second prompt
come back when those of the first are gone. -/
theorem compaction_grows_gallery :
    TokenMeter.meterSurface galleryRuntime galleryPair.events = .ok gallery.nodes ∧
    ∃ nodes measured shrunk,
      compactSurfaceRegion galleryRuntime plainPricing .wholeSurface 0 0 gallery gallery "checkpoint"
        .user ["Done."] 4 = .ok nodes ∧
      measure plainPricing gallery = .ok measured ∧
      priceSurface nodes (routePricing plainPricing gallery.route) = .ok shrunk ∧
      measured.surfaceTokens = 433 ∧ shrunk.surfaceTokens = 606 := by
  obtain ⟨nodes, hleft⟩ := measure_galleryLeft
  exact ⟨meter_gallery, _, _, _, compact_gallery, measure_gallery, hleft, rfl, rfl⟩

end DshKernel.Compaction
