import DshKernel.Llm.ImageOffload

/-!
# What a model reads about an image

The texts beside a request image, in place of one that is left out to fit the limits, and in place
of one for a model that takes text only.
-/

namespace DshKernel.Llm

open Js Session

structure LlmImageRequestPrice where
  visualTokens : Nat
  text : String

structure ImageAttachmentAccess where
  readonlyPath : String

def attachmentText (ref : Json) (field : String) : String :=
  ((ref.get? field).bind Json.asString).getD ""

def attachmentSize (ref : Json) (field : String) : Nat :=
  (((ref.get? field).bind Json.asNumber).map fun size => size.toInt.toNat).getD 0

def textOnlyImageText (ref : Json) : String :=
  let digest := String.ofList (((attachmentText ref "attachmentId").toList.drop 7).take 8)
  s!"[image omitted because this model accepts text only; attachment sha256:{digest}]"

section
variable (stringify : Json → String)

def imageIdentity (ref : Json) : String :=
  let attachmentId := attachmentText ref "attachmentId"
  match (ref.get? "name").bind Json.asString with
  | none => attachmentId
  | some name => s!"{stringify (.str name)} ({attachmentId})"

def extension (mediaType : String) : String :=
  if mediaType = "image/png" then ".png"
  else if mediaType = "image/jpeg" then ".jpg"
  else if mediaType = "image/webp" then ".webp"
  else ".gif"

def normalizedAccessText (ref : Json) (access : ImageAttachmentAccess) : String :=
  let width := attachmentSize ref "width"
  let height := attachmentSize ref "height"
  let mediaType := attachmentText ref "mediaType"
  let path := stringify (.str access.readonlyPath)
  s!" Normalized copy (read-only; may be resized or re-encoded): {path} ({width}x{height}px, {mediaType})."
    ++ " Source dimensions, format, and byte size may differ."
    ++ s!" Copy to a writable path ending in {extension mediaType} before editing."

def requestImageHandleText (ref : Json) (width height : Nat) (access : Option ImageAttachmentAccess) :
    String :=
  let preview := s!"Image {imageIdentity stringify ref}; request preview {width}x{height}px."
  match access with
  | none =>
    preview ++ " It may be resized or re-encoded; source dimensions, format, and byte size may differ."
  | some access => preview ++ normalizedAccessText stringify ref access

def offloadedImageText (ref : Json) (access : Option ImageAttachmentAccess) : String :=
  let identity := s!"image omitted to fit request image limits; {imageIdentity stringify ref}."
  match access with
  | none =>
    s!"[{identity} No local normalized image path is available; "
      ++ "ask the user to attach it again if needed.]"
  | some access => s!"[{identity}{normalizedAccessText stringify ref access}]"

end

mutual

/-- `contentHasImage` on one block -/
def blockHasImage : ContentBlock → Bool
  | .image _ => true
  | .toolResult _ content _ => contentHasImage content
  | .text _ => false
  | .reasoning _ => false
  | .toolCall _ _ _ => false

def contentHasImage : List ContentBlock → Bool
  | [] => false
  | block :: rest => blockHasImage block || contentHasImage rest

end

mutual

theorem blockHasImage_iff (block : ContentBlock) :
    blockHasImage block = true ↔ blockImages block ≠ [] :=
  match block with
  | .image _ => by simp [blockHasImage, blockImages]
  | .toolResult _ content _ => contentHasImage_iff content
  | .text _ => by simp [blockHasImage, blockImages]
  | .reasoning _ => by simp [blockHasImage, blockImages]
  | .toolCall _ _ _ => by simp [blockHasImage, blockImages]

theorem contentHasImage_iff (blocks : List ContentBlock) :
    contentHasImage blocks = true ↔ contentImages blocks ≠ [] :=
  match blocks with
  | [] => by simp [contentHasImage, contentImages]
  | block :: rest => by
    rw [contentHasImage, contentImages, Bool.or_eq_true, blockHasImage_iff block,
      contentHasImage_iff rest]
    simp only [ne_eq, List.append_eq_nil_iff, not_and_or]

end

theorem requestImages_eq_nil {μ : Type} (messages : List (RequestMessage μ)) :
    requestImages messages = [] ↔ (messages.any fun message => contentHasImage message.content) = false := by
  rw [requestImages, List.flatMap_eq_nil_iff, List.any_eq_false]
  constructor
  · intro h message hmessage hhas
    exact (contentHasImage_iff _).mp hhas (h message hmessage)
  · intro h message hmessage
    by_contra hne
    exact h message hmessage ((contentHasImage_iff _).mpr hne)

end DshKernel.Llm
