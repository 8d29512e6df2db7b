import DshKernel.Llm.ImageTexts
import DshKernel.TokenMeter.SurfaceTokens

/-!
# The price of the images of a request

The pricing of a route tells what each image of a history costs, and the adapter offloads images
from the same history in two stages: before the request versions are known, and when they are.
-/

namespace DshKernel.DeepSeek

open Js Session Llm

inductive ImagePixelBudget where
  | low
  | pixels (count : Nat)

structure DeepSeekCatalogModel where
  id : String
  inputModalities : Option (List String) := none
  imagePixelBudget : Option ImagePixelBudget := none
  imageMaxBytes : Option Nat := none

structure DeepSeekConnectionOptions where
  models : List DeepSeekCatalogModel
  maxRequestFilesBytes : Nat
  maxInlineRequestImageBytes : Nat
  maxImagesPerRequest : Nat
  imageOffloadByteQuantum : Nat
  inlineImageOffloadByteQuantum : Nat
  imageOffloadCountQuantum : Nat

structure ImageRequestPolicy where
  maxPixels : Nat
  maxBytes : Nat

/-- What pricing uses of others: the text of a JSON value, the arithmetic of image sizes over
doubles, and the resolution of access paths. -/
structure PricingRuntime where
  stringify : Json → String
  requestImageDimensions : Nat → Nat → Nat → Nat × Nat
  deepSeekImageTokens : Nat → Nat → Nat
  resolveAccess : Json → Option ImageAttachmentAccess

/-- `DEFAULT_REQUEST_IMAGE_PIXEL_BUDGET` -/
def defaultRequestImagePixelBudget : Nat := 640000

/-- `DEFAULT_LOW_DETAIL_IMAGE_PIXEL_BUDGET` -/
def defaultLowDetailImagePixelBudget : Nat := 512 * 512

/-- `DEFAULT_REQUEST_IMAGE_MAX_BYTES` -/
def defaultRequestImageMaxBytes : Nat := 1024 * 1024

def resolveRequestImagePolicy (model : DeepSeekCatalogModel) : ImageRequestPolicy where
  maxPixels := match model.imagePixelBudget with
    | some .low => defaultLowDetailImagePixelBudget
    | some (.pixels count) => count
    | none => defaultRequestImagePixelBudget
  maxBytes := model.imageMaxBytes.getD defaultRequestImageMaxBytes

namespace DeepSeekConnectionOptions

variable (connection : DeepSeekConnectionOptions) (model : String)

def catalogModel : Option DeepSeekCatalogModel := connection.models.find? fun entry => entry.id = model

def imageModel : Option DeepSeekCatalogModel :=
  (connection.catalogModel model).filter fun entry =>
    entry.inputModalities.any fun modalities => modalities.contains "image"

end DeepSeekConnectionOptions

section
variable (R : PricingRuntime) (connection : DeepSeekConnectionOptions)

def textOnlyPrice (ref : Json) : LlmImageRequestPrice := ⟨0, textOnlyImageText ref⟩

def placeholder (ref : Json) : String := offloadedImageText R.stringify ref (R.resolveAccess ref)

def offloadedPrice (ref : Json) : LlmImageRequestPrice := ⟨0, placeholder R ref⟩

def retainedPrice (policy : ImageRequestPolicy) (ref : Json) : LlmImageRequestPrice :=
  let dimensions := R.requestImageDimensions (attachmentSize ref "width") (attachmentSize ref "height")
    policy.maxPixels
  ⟨R.deepSeekImageTokens dimensions.1 dimensions.2,
    Llm.requestImageHandleText R.stringify ref dimensions.1 dimensions.2 (R.resolveAccess ref)⟩

def pricedLength (policy : ImageRequestPolicy) (ref : Json) : Nat :=
  min (attachmentBytes ref) policy.maxBytes

def pricedOffloadCount (policy : ImageRequestPolicy) (images : List Json) : Nat :=
  offloadedImagePrefixCount (images.map (pricedLength policy))
    { maxBytes := some connection.maxRequestFilesBytes
      maxImages := some connection.maxImagesPerRequest
      byteQuantum := some connection.imageOffloadByteQuantum
      countQuantum := some connection.imageOffloadCountQuantum
      placeholder := placeholder R }

/-- `deepSeekImageRequestPricing` -/
def deepSeekImageRequestPricing (model : String) (images : List Json) : List LlmImageRequestPrice :=
  match connection.imageModel model with
  | none => images.map textOnlyPrice
  | some entry =>
    let policy := resolveRequestImagePolicy entry
    let offloaded := pricedOffloadCount R connection policy images
    images.mapIdx fun index ref =>
      if index < offloaded then offloadedPrice R ref else retainedPrice R policy ref

/-! ## The adapter -/

variable {μ : Type}

/-- The first stage, of `request`. -/
def offloadBeforeVersions (model : String) (messages : List (RequestMessage μ)) :
    List (RequestMessage μ) :=
  match connection.catalogModel model with
  | none => messages
  | some entry =>
    let policy := resolveRequestImagePolicy entry
    offloadRequestImagesWithPolicy
      { representation := .raw
        maxBytes := some connection.maxRequestFilesBytes
        maxImages := some connection.maxImagesPerRequest
        byteQuantum := some connection.imageOffloadByteQuantum
        countQuantum := some connection.imageOffloadCountQuantum
        byteLength := some fun ref => min (attachmentBytes ref) policy.maxBytes
        placeholder := placeholder R } messages

/-- What `streamWithConnection` refuses before the request is built. -/
def acceptsImages (model : String) (messages : List (RequestMessage μ)) : Except String Unit :=
  if messages.any (fun message => Llm.contentHasImage message.content) ∧
      (connection.imageModel model).isNone then
    .error s!"DeepSeek model \"{model}\" does not accept image input."
  else .ok ()

inductive WireRepresentation where
  | file
  | base64

def secondStagePolicy (representation : WireRepresentation) (versionBytes : String → Nat) :
    RequestImageOffloadPolicy where
  representation := match representation with
    | .file => .raw
    | .base64 => .base64
  byteLength := some fun ref => versionBytes (attachmentText ref "attachmentId")
  maxBytes := match representation with
    | .file => some connection.maxRequestFilesBytes
    | .base64 => some connection.maxInlineRequestImageBytes
  maxImages := some connection.maxImagesPerRequest
  byteQuantum := match representation with
    | .file => some connection.imageOffloadByteQuantum
    | .base64 => some connection.inlineImageOffloadByteQuantum
  countQuantum := some connection.imageOffloadCountQuantum
  placeholder := placeholder R

/-- The second stage, of `serializeRequestWithImages`. Each image of the request has a version, which
`prepareRequestImages` keeps under its attachment. -/
def offloadVersions (representation : WireRepresentation) (versionBytes : String → Nat)
    (messages : List (RequestMessage μ)) : List (RequestMessage μ) :=
  offloadRequestImagesWithPolicy (secondStagePolicy R connection representation versionBytes) messages

end

/-! ## Pricing predicts the request -/

section
variable {R : PricingRuntime} {connection : DeepSeekConnectionOptions} {model : String}
variable {entry : DeepSeekCatalogModel} {μ : Type}

theorem catalogModel_of_imageModel (h : connection.imageModel model = some entry) :
    connection.catalogModel model = some entry :=
  (Option.filter_eq_some_iff.mp h).1

theorem offloadBeforeVersions_eq (h : connection.imageModel model = some entry)
    (messages : List (RequestMessage μ)) :
    offloadBeforeVersions R connection model messages =
      mapRequestImages (oldestReplaced (placeholder R)
        (pricedOffloadCount R connection (resolveRequestImagePolicy entry) (requestImages messages)))
        messages 0 := by
  rw [offloadBeforeVersions, catalogModel_of_imageModel h]
  simp only
  rw [offloadRequestImagesWithPolicy_eq, requestImageLengths_eq]
  rfl

theorem fits_images {policy : RequestImageOffloadPolicy} {lengths : List Nat}
    (h : policy.Fits lengths) : offloadedImagePrefixCount lengths policy = 0 := by
  have hcount : policy.excessCount lengths = 0 := by
    unfold RequestImageOffloadPolicy.excessCount
    cases hmax : policy.maxImages with
    | none => rfl
    | some maxImages => exact Nat.sub_eq_zero_of_le (h.images maxImages hmax)
  have hbytes : policy.excessBytes lengths = 0 := by
    unfold RequestImageOffloadPolicy.excessBytes
    cases hmax : policy.maxBytes with
    | none => rfl
    | some maxBytes => exact Nat.sub_eq_zero_of_le (h.bytes maxBytes hmax)
  rw [offloadedImagePrefixCount, if_pos ⟨hcount, hbytes⟩]

theorem sum_map_le {items : List Json} {f g : Json → Nat} (h : ∀ item ∈ items, f item ≤ g item) :
    (items.map f).sum ≤ (items.map g).sum := by
  induction items with
  | nil => exact Nat.le_refl _
  | cons item rest ih =>
    have hfirst := h item List.mem_cons_self
    have hrest := ih fun other hother => h other (List.mem_cons_of_mem _ hother)
    simp only [List.map_cons, List.sum_cons]
    omega

theorem offloadVersions_file {versionBytes : String → Nat} {messages : List (RequestMessage μ)}
    (h : connection.imageModel model = some entry)
    (hversions : ∀ ref ∈ requestImages (offloadBeforeVersions R connection model messages),
      versionBytes (attachmentText ref "attachmentId") ≤
        pricedLength (resolveRequestImagePolicy entry) ref) :
    offloadVersions R connection .file versionBytes
        (offloadBeforeVersions R connection model messages) =
      offloadBeforeVersions R connection model messages := by
  rw [offloadVersions, offloadRequestImagesWithPolicy_eq, requestImageLengths_eq, fits_images,
    mapRequestImages_zero]
  have hleft : requestImages (offloadBeforeVersions R connection model messages) =
      (requestImages messages).drop
        (pricedOffloadCount R connection (resolveRequestImagePolicy entry)
          (requestImages messages)) := by
    rw [offloadBeforeVersions_eq h, requestImages_mapRequestImages, Nat.sub_zero]
  have hsum := sum_map_le hversions
  rw [hleft] at hsum ⊢
  have hfirst := @fits_offloaded
    { maxBytes := some connection.maxRequestFilesBytes
      maxImages := some connection.maxImagesPerRequest
      byteQuantum := some connection.imageOffloadByteQuantum
      countQuantum := some connection.imageOffloadCountQuantum
      placeholder := placeholder R }
    ((requestImages messages).map (pricedLength (resolveRequestImagePolicy entry)))
  rcases hfirst with hall | hfits
  · rw [List.length_map] at hall
    have hcount : pricedOffloadCount R connection (resolveRequestImagePolicy entry)
        (requestImages messages) = (requestImages messages).length := hall
    rw [hcount, List.drop_length]
    exact ⟨fun _ _ => Nat.zero_le _, fun _ _ => Nat.zero_le _⟩
  · rw [← List.map_drop] at hfits
    constructor
    · intro maxImages hmax
      have himages := hfits.images maxImages hmax
      rw [List.length_map] at himages ⊢
      exact himages
    · intro maxBytes hmax
      exact Nat.le_trans hsum (hfits.bytes maxBytes hmax)

end

/-! ## The surface and the messages -/

section
variable (R : TokenMeter.Runtime)

mutual

theorem collectBlockImages_eq (stringify : Json → String) (block : ContentBlock) :
    (TokenMeter.blockImages stringify block).1 = Llm.blockImages block :=
  match block with
  | .image _ => rfl
  | .toolResult _ content _ => collectImages_eq stringify content
  | .text _ => rfl
  | .reasoning _ => rfl
  | .toolCall _ _ _ => rfl

theorem collectImages_eq (stringify : Json → String) (blocks : List ContentBlock) :
    (TokenMeter.collectImages stringify blocks).1 = Llm.contentImages blocks :=
  match blocks with
  | [] => rfl
  | block :: rest => by
    rw [TokenMeter.collectImages, Llm.contentImages, collectBlockImages_eq stringify block,
      collectImages_eq stringify rest]

end

def surfaceNodes (surface : List (Nat × Option Session.Message)) : List TokenMeter.MeterSurfaceNode :=
  surface.map fun derived => TokenMeter.analyzeNode R derived.1 derived.2

def surfaceMessages (surface : List (Nat × Option Session.Message)) :
    List (RequestMessage Session.Message) :=
  surface.filterMap fun derived =>
    derived.2.map fun message => ⟨message, TokenMeter.messageContent message⟩

theorem images_surfaceNodes (surface : List (Nat × Option Session.Message)) :
    (surfaceNodes R surface).flatMap (·.images) = requestImages (surfaceMessages surface) := by
  induction surface with
  | nil => rfl
  | cons derived rest ih =>
    rcases derived with ⟨seq, message⟩
    cases message with
    | none => exact ih
    | some message =>
      have hfirst := collectImages_eq R.stringify (TokenMeter.messageContent message)
      have hrest := ih
      simp only [surfaceNodes, surfaceMessages, requestImages, List.map_cons, List.flatMap_cons,
        List.filterMap_cons, Option.map_some, TokenMeter.analyzeNode] at hrest ⊢
      rw [hfirst, hrest]

end

/-- Pricing takes just those images as offloaded that the first stage replaces, and the second stage
replaces no other when no version is larger than what was priced. -/
theorem pricing_predicts_offload (M : TokenMeter.Runtime) (R : PricingRuntime)
    (connection : DeepSeekConnectionOptions) (model : String)
    (surface : List (Nat × Option Session.Message)) :
    let images := (surfaceNodes M surface).flatMap (·.images)
    let messages := surfaceMessages surface
    (∀ entry, connection.imageModel model = some entry → ∃ offloaded ≤ images.length,
      deepSeekImageRequestPricing R connection model images = (images.mapIdx fun index ref =>
        if index < offloaded then offloadedPrice R ref
        else retainedPrice R (resolveRequestImagePolicy entry) ref) ∧
      offloadBeforeVersions R connection model messages =
        mapRequestImages (oldestReplaced (placeholder R) offloaded) messages 0 ∧
      ∀ versionBytes, (∀ ref ∈ images.drop offloaded,
          versionBytes (attachmentText ref "attachmentId") ≤
            pricedLength (resolveRequestImagePolicy entry) ref) →
        offloadVersions R connection .file versionBytes
            (offloadBeforeVersions R connection model messages) =
          offloadBeforeVersions R connection model messages) ∧
    (connection.imageModel model = none →
      deepSeekImageRequestPricing R connection model images = images.map textOnlyPrice ∧
      (images ≠ [] → ∃ message, acceptsImages connection model messages = .error message)) := by
  intro images messages
  have himages : images = requestImages messages := images_surfaceNodes M surface
  constructor
  · intro entry hentry
    have hfirst := @offloadBeforeVersions_eq R connection model entry Session.Message hentry messages
    rw [himages]
    refine ⟨pricedOffloadCount R connection (resolveRequestImagePolicy entry)
      (requestImages messages), ?_, ?_, hfirst, ?_⟩
    · have hle := @offloadedImagePrefixCount_le
        { maxBytes := some connection.maxRequestFilesBytes
          maxImages := some connection.maxImagesPerRequest
          byteQuantum := some connection.imageOffloadByteQuantum
          countQuantum := some connection.imageOffloadCountQuantum
          placeholder := placeholder R }
        ((requestImages messages).map (pricedLength (resolveRequestImagePolicy entry)))
      rw [List.length_map] at hle
      exact hle
    · rw [deepSeekImageRequestPricing, hentry]
    · intro versionBytes hversions
      apply offloadVersions_file hentry
      rw [hfirst, requestImages_mapRequestImages, Nat.sub_zero]
      exact hversions
  · intro hnone
    constructor
    · rw [deepSeekImageRequestPricing, hnone]
    · intro hne
      rw [himages, Ne, requestImages_eq_nil, Bool.not_eq_false] at hne
      rw [acceptsImages, if_pos ⟨hne, by rw [hnone]; rfl⟩]
      exact ⟨_, rfl⟩

/-! ## The fallback -/

def narrowRoute : DeepSeekConnectionOptions where
  models := [{ id := "vision", inputModalities := some ["text", "image"] }]
  maxRequestFilesBytes := 1000
  maxInlineRequestImageBytes := 20
  maxImagesPerRequest := 10
  imageOffloadByteQuantum := 10
  inlineImageOffloadByteQuantum := 10
  imageOffloadCountQuantum := 5

def plainPricing : PricingRuntime where
  stringify := fun value => value.asString.getD ""
  requestImageDimensions := fun width height _ => (width, height)
  deepSeekImageTokens := fun _ _ => 209
  resolveAccess := fun _ => none

def screenshot : Json :=
  .obj [("attachmentId", .str "sha256:0123456789abcdef"), ("mediaType", .str "image/png"),
    ("bytes", .ofNat 30), ("width", .ofNat 640), ("height", .ofNat 480)]

def screenshotMessages : List (RequestMessage Unit) := [⟨(), [.image screenshot]⟩]

/-- The fallback inlines the image, whose version is no larger than what was priced, and replaces
it. -/
theorem fallback_replaces_more :
    (deepSeekImageRequestPricing plainPricing narrowRoute "vision" [screenshot]).map
        (·.visualTokens) = [209] ∧
    requestImages (offloadBeforeVersions plainPricing narrowRoute "vision" screenshotMessages) =
      [screenshot] ∧
    30 ≤ pricedLength (resolveRequestImagePolicy { id := "vision" }) screenshot ∧
    requestImages (offloadVersions plainPricing narrowRoute .base64 (fun _ => 30)
      (offloadBeforeVersions plainPricing narrowRoute "vision" screenshotMessages)) = [] := by
  refine ⟨?_, ?_, ?_, ?_⟩
  · decide
  · rfl
  · decide
  · rfl

end DshKernel.DeepSeek
