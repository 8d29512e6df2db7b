import DshKernel.Session.Event
import Mathlib.Data.List.Basic

/-!
# Offloading the images of a request

A request may hold so many images, and so many bytes of them. What exceeds a budget is taken off
the oldest images in whole quanta, so that a longer history keeps the same prefix for a while.
-/

namespace DshKernel.Llm

open Js Session List Option

section Policy

inductive ImageRepresentation where
  | raw
  | base64
  deriving DecidableEq, Repr

/-- Byte counts and their sums are exact doubles, so naturals stand for them. -/
structure RequestImageOffloadPolicy where
  maxImages : Option Nat := none
  maxBytes : Option Nat := none
  countQuantum : Option Nat := none
  byteQuantum : Option Nat := none
  representation : ImageRepresentation := .raw
  byteLength : Option (Json → Nat) := none
  placeholder : Json → String

def base64Length (bytes : Nat) : Nat := (bytes + 2) / 3 * 4

/-- `attachment.bytes` -/
def attachmentBytes (attachment : Json) : Nat :=
  (((attachment.get? "bytes").bind Json.asNumber).map fun bytes => bytes.toInt.toNat).getD 0

/-- The excess in whole quanta; `none` is the `NaN` of a quantum of zero. -/
def roundUp (excess quantum : Nat) : Option Nat :=
  if excess = 0 then some 0
  else if quantum = 0 then none
  else some ((excess + quantum - 1) / quantum * quantum)

/-- `value >= target` -/
def reaches (target : Option Nat) (value : Nat) : Bool := target.any (· ≤ value)

/-- `value > target` -/
def exceeds (target : Option Nat) (value : Nat) : Bool := target.any (· < value)

def targetsMet (removeCount removeBytes : Option Nat) (byteQuantum count removed : Nat) : Bool :=
  reaches removeCount count &&
    (removeBytes == some 0 ||
      if byteQuantum = 1 then reaches removeBytes removed else exceeds removeBytes removed)

def prefixUntil (met : Nat → Nat → Bool) : Nat → Nat → List Nat → Nat
  | count, _, [] => count
  | count, removed, imageBytes :: rest =>
    if met count removed then count
    else prefixUntil met (count + 1) (removed + imageBytes) rest

namespace RequestImageOffloadPolicy

variable (policy : RequestImageOffloadPolicy) (lengths : List Nat)

def excessCount : Nat := (policy.maxImages.map (lengths.length - ·)).getD 0

def excessBytes : Nat := (policy.maxBytes.map (lengths.sum - ·)).getD 0

def met : Nat → Nat → Bool :=
  targetsMet (roundUp (policy.excessCount lengths) (policy.countQuantum.getD 1))
    (roundUp (policy.excessBytes lengths) (policy.byteQuantum.getD 1)) (policy.byteQuantum.getD 1)

def representedLength (attachment : Json) : Nat :=
  let bytes := (policy.byteLength.getD attachmentBytes) attachment
  match policy.representation with
  | .raw => bytes
  | .base64 => base64Length bytes

end RequestImageOffloadPolicy

def offloadedImagePrefixCount (lengths : List Nat) (policy : RequestImageOffloadPolicy) : Nat :=
  if policy.excessCount lengths = 0 ∧ policy.excessBytes lengths = 0 then 0
  else prefixUntil (policy.met lengths) 0 0 lengths

end Policy

section Blocks

variable (policy : RequestImageOffloadPolicy) (placeholder : Json → String)

mutual

def blockImageLengths : ContentBlock → List Nat
  | .image attachment => [policy.representedLength attachment]
  | .toolResult _ content _ => collectImageLengths content
  | .text _ => []
  | .reasoning _ => []
  | .toolCall _ _ _ => []

def collectImageLengths : List ContentBlock → List Nat
  | [] => []
  | block :: rest => blockImageLengths block ++ collectImageLengths rest

end

mutual

def replaceOldestInBlock : ContentBlock → Nat → ContentBlock × Nat
  | .image attachment, remaining =>
    if remaining > 0 then (.text (placeholder attachment), remaining - 1)
    else (.image attachment, remaining)
  | .toolResult toolCallId content isError, remaining =>
    let replaced := replaceOldestImages content remaining
    (.toolResult toolCallId replaced.1 isError, replaced.2)
  | .text text, remaining => (.text text, remaining)
  | .reasoning text, remaining => (.reasoning text, remaining)
  | .toolCall id name arguments, remaining => (.toolCall id name arguments, remaining)

def replaceOldestImages : List ContentBlock → Nat → List ContentBlock × Nat
  | [], remaining => ([], remaining)
  | block :: rest, remaining =>
    let replaced := replaceOldestInBlock block remaining
    let later := replaceOldestImages rest replaced.2
    (replaced.1 :: later.1, later.2)

end

/-- A message with its content; `fields` is what the projection copies. -/
structure RequestMessage (μ : Type) where
  fields : μ
  content : List ContentBlock

variable {μ : Type}

def replaceInMessages : List (RequestMessage μ) → Nat → List (RequestMessage μ)
  | [], _ => []
  | message :: rest, remaining =>
    let replaced := replaceOldestImages placeholder message.content remaining
    { message with content := replaced.1 } :: replaceInMessages rest replaced.2

def requestImageLengths (messages : List (RequestMessage μ)) : List Nat :=
  messages.flatMap fun message => collectImageLengths policy message.content

def offloadRequestImagesWithPolicy (messages : List (RequestMessage μ)) :
    List (RequestMessage μ) :=
  let count := offloadedImagePrefixCount (requestImageLengths policy messages) policy
  if count = 0 then messages else replaceInMessages policy.placeholder messages count

end Blocks

section Counting

variable {met other : Nat → Nat → Bool} {count removed : Nat} {lengths more : List Nat}

theorem prefixUntil_le : prefixUntil met count removed lengths ≤ count + lengths.length := by
  induction lengths generalizing count removed with
  | nil => exact Nat.le_refl _
  | cons imageBytes rest ih =>
    rw [prefixUntil, length_cons]
    split
    · omega
    · have hrest := @ih (count + 1) (removed + imageBytes)
      omega

theorem le_prefixUntil : count ≤ prefixUntil met count removed lengths := by
  induction lengths generalizing count removed with
  | nil => exact Nat.le_refl _
  | cons imageBytes rest ih =>
    rw [prefixUntil]
    split
    · exact Nat.le_refl _
    · exact Nat.le_of_succ_le ih

theorem met_prefixUntil
    (h : prefixUntil met count removed lengths < count + lengths.length) :
    met (prefixUntil met count removed lengths)
      (removed + (lengths.take (prefixUntil met count removed lengths - count)).sum) = true := by
  induction lengths generalizing count removed with
  | nil => exact absurd h (Nat.lt_irrefl _)
  | cons imageBytes rest ih =>
    rw [prefixUntil] at h ⊢
    split at h
    · rename_i hmet
      rw [if_pos hmet, Nat.sub_self, take_zero, sum_nil, Nat.add_zero]
      exact hmet
    · rename_i hmet
      rw [length_cons] at h
      have hle : count + 1 ≤ prefixUntil met (count + 1) (removed + imageBytes) rest :=
        le_prefixUntil
      have hrest := ih (by omega : prefixUntil met (count + 1) (removed + imageBytes) rest <
        count + 1 + rest.length)
      have hplace : prefixUntil met (count + 1) (removed + imageBytes) rest - count =
          prefixUntil met (count + 1) (removed + imageBytes) rest - (count + 1) + 1 := by omega
      rw [if_neg hmet, hplace, take_succ_cons, sum_cons, ← Nat.add_assoc]
      exact hrest

theorem prefixUntil_mono (h : ∀ count removed, other count removed = true → met count removed = true) :
    prefixUntil met count removed lengths ≤ prefixUntil other count removed (lengths ++ more) := by
  induction lengths generalizing count removed with
  | nil => exact le_prefixUntil
  | cons imageBytes rest ih =>
    rw [cons_append, prefixUntil, prefixUntil]
    by_cases hmet : met count removed = true
    · rw [if_pos hmet]
      split
      · exact Nat.le_refl _
      · exact Nat.le_of_succ_le le_prefixUntil
    · rw [if_neg hmet, if_neg fun hother => hmet (h _ _ hother)]
      exact ih

end Counting

section Budgets

variable {excess more quantum value : Nat} {policy : RequestImageOffloadPolicy}
variable {lengths added : List Nat}

theorem le_roundUp {target : Nat} (h : roundUp excess quantum = some target) : excess ≤ target := by
  unfold roundUp at h
  split at h
  · omega
  · split at h
    · cases h
    · rename_i hquantum
      rw [← some.inj h]
      have hmod := Nat.mod_add_div (excess + quantum - 1) quantum
      have hlt := Nat.mod_lt (excess + quantum - 1) (Nat.pos_of_ne_zero hquantum)
      rw [Nat.mul_comm] at hmod
      omega

theorem roundUp_mono (hle : excess ≤ more) {target : Nat} (h : roundUp more quantum = some target) :
    ∃ lower, roundUp excess quantum = some lower ∧ lower ≤ target := by
  unfold roundUp at h ⊢
  split at h
  · rw [if_pos (by omega)]
    exact ⟨0, rfl, Nat.zero_le _⟩
  · split at h
    · cases h
    · rename_i hquantum
      rw [← some.inj h]
      split
      · exact ⟨0, rfl, Nat.zero_le _⟩
      · exact ⟨_, rfl, Nat.mul_le_mul_right _ (Nat.div_le_div_right (by omega))⟩

theorem reaches_mono (hle : excess ≤ more) (h : reaches (roundUp more quantum) value = true) :
    reaches (roundUp excess quantum) value = true := by
  obtain ⟨target, htarget, hvalue⟩ := (any_eq_true _ _).mp h
  obtain ⟨lower, hlower, hbelow⟩ := roundUp_mono hle htarget
  have hvalue := of_decide_eq_true hvalue
  exact (any_eq_true _ _).mpr ⟨lower, hlower, decide_eq_true (by omega)⟩

theorem exceeds_mono (hle : excess ≤ more) (h : exceeds (roundUp more quantum) value = true) :
    exceeds (roundUp excess quantum) value = true := by
  obtain ⟨target, htarget, hvalue⟩ := (any_eq_true _ _).mp h
  obtain ⟨lower, hlower, hbelow⟩ := roundUp_mono hle htarget
  have hvalue := of_decide_eq_true hvalue
  exact (any_eq_true _ _).mpr ⟨lower, hlower, decide_eq_true (by omega)⟩

theorem le_of_reaches (h : reaches (roundUp excess quantum) value = true) : excess ≤ value := by
  obtain ⟨target, htarget, hvalue⟩ := (any_eq_true _ _).mp h
  exact Nat.le_trans (le_roundUp htarget) (of_decide_eq_true hvalue)

theorem le_of_exceeds (h : exceeds (roundUp excess quantum) value = true) : excess ≤ value := by
  obtain ⟨target, htarget, hvalue⟩ := (any_eq_true _ _).mp h
  exact Nat.le_of_lt (Nat.lt_of_le_of_lt (le_roundUp htarget) (of_decide_eq_true hvalue))

theorem targetsMet_mono {excessCount moreCount countQuantum count removed : Nat}
    (hcount : excessCount ≤ moreCount) (hbytes : excess ≤ more)
    (h : targetsMet (roundUp moreCount countQuantum) (roundUp more quantum) quantum count removed =
      true) :
    targetsMet (roundUp excessCount countQuantum) (roundUp excess quantum) quantum count removed =
      true := by
  obtain ⟨hreaches, hmet⟩ := Bool.and_eq_true_iff.mp h
  refine Bool.and_eq_true_iff.mpr ⟨reaches_mono hcount hreaches, Bool.or_eq_true_iff.mpr ?_⟩
  rcases Bool.or_eq_true_iff.mp hmet with hzero | hremoved
  · obtain ⟨lower, hlower, hbelow⟩ := roundUp_mono hbytes (eq_of_beq hzero)
    rw [Nat.le_zero.mp hbelow] at hlower
    exact Or.inl (beq_iff_eq.mpr hlower)
  · refine Or.inr ?_
    split at hremoved
    · rename_i hone
      rw [if_pos hone]
      exact reaches_mono hbytes hremoved
    · rename_i hone
      rw [if_neg hone]
      exact exceeds_mono hbytes hremoved

theorem le_of_targetsMet {excessCount countQuantum count removed : Nat}
    (h : targetsMet (roundUp excessCount countQuantum) (roundUp excess quantum) quantum count
      removed = true) : excessCount ≤ count ∧ excess ≤ removed := by
  obtain ⟨hreaches, hmet⟩ := Bool.and_eq_true_iff.mp h
  refine ⟨le_of_reaches hreaches, ?_⟩
  rcases Bool.or_eq_true_iff.mp hmet with hzero | hremoved
  · exact Nat.le_trans (le_roundUp (eq_of_beq hzero)) (Nat.zero_le _)
  · split at hremoved
    · exact le_of_reaches hremoved
    · exact le_of_exceeds hremoved

structure RequestImageOffloadPolicy.Fits (policy : RequestImageOffloadPolicy) (left : List Nat) :
    Prop where
  images : ∀ maxImages ∈ policy.maxImages, left.length ≤ maxImages
  bytes : ∀ maxBytes ∈ policy.maxBytes, left.sum ≤ maxBytes

theorem excessCount_mono : policy.excessCount lengths ≤ policy.excessCount (lengths ++ added) := by
  unfold RequestImageOffloadPolicy.excessCount
  cases policy.maxImages with
  | none => exact Nat.le_refl _
  | some maxImages =>
    simp only [map_some, getD_some, length_append]
    omega

theorem excessBytes_mono : policy.excessBytes lengths ≤ policy.excessBytes (lengths ++ added) := by
  unfold RequestImageOffloadPolicy.excessBytes
  cases policy.maxBytes with
  | none => exact Nat.le_refl _
  | some maxBytes =>
    simp only [map_some, getD_some, sum_append]
    omega

theorem fits_drop {count : Nat} (hcount : policy.excessCount lengths ≤ count)
    (hbytes : policy.excessBytes lengths ≤ (lengths.take count).sum) :
    policy.Fits (lengths.drop count) := by
  constructor
  · intro maxImages hmax
    rw [RequestImageOffloadPolicy.excessCount, mem_def.mp hmax] at hcount
    rw [length_drop]
    simp only [map_some, getD_some] at hcount
    omega
  · intro maxBytes hmax
    rw [RequestImageOffloadPolicy.excessBytes, mem_def.mp hmax] at hbytes
    have hsum := congrArg sum (take_append_drop count lengths)
    rw [sum_append] at hsum
    simp only [map_some, getD_some] at hbytes
    omega

theorem offloadedImagePrefixCount_le :
    offloadedImagePrefixCount lengths policy ≤ lengths.length := by
  unfold offloadedImagePrefixCount
  split
  · exact Nat.zero_le _
  · have hle : prefixUntil (policy.met lengths) 0 0 lengths ≤ 0 + lengths.length := prefixUntil_le
    omega

theorem fits_offloaded :
    offloadedImagePrefixCount lengths policy = lengths.length ∨
      policy.Fits (lengths.drop (offloadedImagePrefixCount lengths policy)) := by
  unfold offloadedImagePrefixCount
  split
  · rename_i hnone
    refine Or.inr (fits_drop ?_ ?_)
    · apply Nat.le_trans (Nat.le_of_eq hnone.1)
      exact Nat.zero_le _
    · apply Nat.le_trans (Nat.le_of_eq hnone.2)
      exact Nat.zero_le _
  · by_cases hend : prefixUntil (policy.met lengths) 0 0 lengths < lengths.length
    · have hmet : policy.met lengths _ _ = true :=
        met_prefixUntil (by omega : prefixUntil (policy.met lengths) 0 0 lengths <
          0 + lengths.length)
      obtain ⟨hcount, hbytes⟩ := le_of_targetsMet hmet
      rw [Nat.zero_add, Nat.sub_zero] at hbytes
      exact Or.inr (fits_drop hcount hbytes)
    · have hle : prefixUntil (policy.met lengths) 0 0 lengths ≤ 0 + lengths.length :=
        prefixUntil_le
      exact Or.inl (by omega)

theorem offloadedImagePrefixCount_mono :
    offloadedImagePrefixCount lengths policy ≤
      offloadedImagePrefixCount (lengths ++ added) policy := by
  have hcount : policy.excessCount lengths ≤ policy.excessCount (lengths ++ added) :=
    excessCount_mono
  have hbytes : policy.excessBytes lengths ≤ policy.excessBytes (lengths ++ added) :=
    excessBytes_mono
  unfold offloadedImagePrefixCount
  by_cases hnone : policy.excessCount lengths = 0 ∧ policy.excessBytes lengths = 0
  · rw [if_pos hnone]
    exact Nat.zero_le _
  · rw [if_neg hnone, if_neg (by omega)]
    exact prefixUntil_mono fun _ _ hmet => targetsMet_mono hcount hbytes hmet

end Budgets

section Places

mutual

def blockImages : ContentBlock → List Json
  | .image attachment => [attachment]
  | .toolResult _ content _ => contentImages content
  | .text _ => []
  | .reasoning _ => []
  | .toolCall _ _ _ => []

def contentImages : List ContentBlock → List Json
  | [] => []
  | block :: rest => blockImages block ++ contentImages rest

end

def requestImages {μ : Type} (messages : List (RequestMessage μ)) : List Json :=
  messages.flatMap fun message => contentImages message.content

variable (f : Nat → Json → ContentBlock)

mutual

/-- The block with its images, the first of them at `place`, put through `f`. -/
def mapBlockImages : ContentBlock → Nat → ContentBlock
  | .image attachment, place => f place attachment
  | .toolResult toolCallId content isError, place =>
    .toolResult toolCallId (mapImages content place) isError
  | .text text, _ => .text text
  | .reasoning text, _ => .reasoning text
  | .toolCall id name arguments, _ => .toolCall id name arguments

def mapImages : List ContentBlock → Nat → List ContentBlock
  | [], _ => []
  | block :: rest, place =>
    mapBlockImages block place :: mapImages rest (place + (blockImages block).length)

end

def mapRequestImages {μ : Type} : List (RequestMessage μ) → Nat → List (RequestMessage μ)
  | [], _ => []
  | message :: rest, place =>
    { message with content := mapImages f message.content place } ::
      mapRequestImages rest (place + (contentImages message.content).length)

def oldestReplaced (placeholder : Json → String) (count place : Nat) (attachment : Json) :
    ContentBlock :=
  if place < count then .text (placeholder attachment) else .image attachment

end Places

section Replacing

variable {policy : RequestImageOffloadPolicy} {placeholder : Json → String} {count : Nat}
variable {μ : Type}

mutual

theorem replaceOldestInBlock_eq (block : ContentBlock) (place : Nat) :
    replaceOldestInBlock placeholder block (count - place) =
      (mapBlockImages (oldestReplaced placeholder count) block place,
        count - (place + (blockImages block).length)) :=
  match block with
  | .image _ => by
    rw [replaceOldestInBlock, mapBlockImages, oldestReplaced, blockImages]
    by_cases hplace : place < count
    · rw [if_pos (by omega), if_pos hplace]
      rfl
    · rw [if_neg (by omega), if_neg hplace, length_singleton]
      congr 1
      omega
  | .toolResult _ content _ => by
    rw [replaceOldestInBlock, replaceOldestImages_eq content place]
    rfl
  | .text _ => rfl
  | .reasoning _ => rfl
  | .toolCall _ _ _ => rfl

theorem replaceOldestImages_eq (blocks : List ContentBlock) (place : Nat) :
    replaceOldestImages placeholder blocks (count - place) =
      (mapImages (oldestReplaced placeholder count) blocks place,
        count - (place + (contentImages blocks).length)) :=
  match blocks with
  | [] => rfl
  | block :: rest => by
    rw [replaceOldestImages, replaceOldestInBlock_eq block place]
    dsimp only
    rw [replaceOldestImages_eq rest (place + (blockImages block).length), mapImages,
      contentImages, length_append, Nat.add_assoc]

end

theorem replaceInMessages_eq (messages : List (RequestMessage μ)) (place : Nat) :
    replaceInMessages placeholder messages (count - place) =
      mapRequestImages (oldestReplaced placeholder count) messages place := by
  induction messages generalizing place with
  | nil => rfl
  | cons message rest ih =>
    rw [replaceInMessages, replaceOldestImages_eq, mapRequestImages]
    dsimp only
    rw [ih]

mutual

theorem mapBlockImages_zero (block : ContentBlock) (place : Nat) :
    mapBlockImages (oldestReplaced placeholder 0) block place = block :=
  match block with
  | .image _ => by
    rw [mapBlockImages, oldestReplaced, if_neg (Nat.not_lt_zero _)]
  | .toolResult _ content _ => by
    rw [mapBlockImages, mapImages_zero content place]
  | .text _ => rfl
  | .reasoning _ => rfl
  | .toolCall _ _ _ => rfl

theorem mapImages_zero (blocks : List ContentBlock) (place : Nat) :
    mapImages (oldestReplaced placeholder 0) blocks place = blocks :=
  match blocks with
  | [] => rfl
  | block :: rest => by
    rw [mapImages, mapBlockImages_zero block place, mapImages_zero rest]

end

theorem mapRequestImages_zero (messages : List (RequestMessage μ)) (place : Nat) :
    mapRequestImages (oldestReplaced placeholder 0) messages place = messages := by
  induction messages generalizing place with
  | nil => rfl
  | cons message rest ih => rw [mapRequestImages, mapImages_zero, ih]

mutual

theorem blockImages_mapBlockImages (block : ContentBlock) (place : Nat) :
    blockImages (mapBlockImages (oldestReplaced placeholder count) block place) =
      (blockImages block).drop (count - place) :=
  match block with
  | .image _ => by
    rw [mapBlockImages, oldestReplaced]
    by_cases hplace : place < count
    · rw [if_pos hplace, blockImages, drop_eq_nil_of_le]
      · rfl
      · exact Nat.le_sub_of_add_le (by rw [length_singleton]; omega)
    · rw [if_neg hplace, Nat.sub_eq_zero_of_le (Nat.le_of_not_lt hplace), drop_zero]
  | .toolResult _ content _ => contentImages_mapImages content place
  | .text _ => drop_nil.symm
  | .reasoning _ => drop_nil.symm
  | .toolCall _ _ _ => drop_nil.symm

theorem contentImages_mapImages (blocks : List ContentBlock) (place : Nat) :
    contentImages (mapImages (oldestReplaced placeholder count) blocks place) =
      (contentImages blocks).drop (count - place) :=
  match blocks with
  | [] => drop_nil.symm
  | block :: rest => by
    rw [mapImages, contentImages, blockImages_mapBlockImages block place,
      contentImages_mapImages rest, contentImages, drop_append]
    congr 2
    omega

end

theorem requestImages_mapRequestImages (messages : List (RequestMessage μ)) (place : Nat) :
    requestImages (mapRequestImages (oldestReplaced placeholder count) messages place) =
      (requestImages messages).drop (count - place) := by
  induction messages generalizing place with
  | nil => exact drop_nil.symm
  | cons message rest ih =>
    rw [requestImages, requestImages, mapRequestImages, flatMap_cons, flatMap_cons,
      contentImages_mapImages, drop_append]
    have hrest := ih (place + (contentImages message.content).length)
    rw [requestImages, requestImages] at hrest
    rw [hrest]
    congr 2
    omega

mutual

theorem blockImageLengths_eq (block : ContentBlock) :
    blockImageLengths policy block = (blockImages block).map policy.representedLength :=
  match block with
  | .image _ => rfl
  | .toolResult _ content _ => collectImageLengths_eq content
  | .text _ => rfl
  | .reasoning _ => rfl
  | .toolCall _ _ _ => rfl

theorem collectImageLengths_eq (blocks : List ContentBlock) :
    collectImageLengths policy blocks = (contentImages blocks).map policy.representedLength :=
  match blocks with
  | [] => rfl
  | block :: rest => by
    rw [collectImageLengths, contentImages, map_append, blockImageLengths_eq block,
      collectImageLengths_eq rest]

end

theorem requestImageLengths_eq (messages : List (RequestMessage μ)) :
    requestImageLengths policy messages = (requestImages messages).map policy.representedLength := by
  rw [requestImageLengths, requestImages, map_flatMap]
  exact congrArg (fun g => messages.flatMap g)
    (funext fun message => collectImageLengths_eq message.content)

theorem offloadRequestImagesWithPolicy_eq (messages : List (RequestMessage μ)) :
    offloadRequestImagesWithPolicy policy messages =
      mapRequestImages (oldestReplaced policy.placeholder
        (offloadedImagePrefixCount (requestImageLengths policy messages) policy)) messages 0 := by
  unfold offloadRequestImagesWithPolicy
  dsimp only
  split
  · rename_i hzero
    rw [hzero, mapRequestImages_zero]
  · exact replaceInMessages_eq messages 0

end Replacing

section Offloading

variable {μ : Type}

/-- Just so many of the oldest images give way to their placeholders that the request is within its
budgets or without images. -/
theorem offloads_oldest_images (policy : RequestImageOffloadPolicy) (lengths added : List Nat)
    (messages : List (RequestMessage μ)) :
    let offloaded := offloadedImagePrefixCount (requestImageLengths policy messages) policy
    offloadedImagePrefixCount lengths policy ≤ lengths.length ∧
      (offloadedImagePrefixCount lengths policy = lengths.length ∨
        policy.Fits (lengths.drop (offloadedImagePrefixCount lengths policy))) ∧
      offloadedImagePrefixCount lengths policy ≤
        offloadedImagePrefixCount (lengths ++ added) policy ∧
      offloadRequestImagesWithPolicy policy messages =
        mapRequestImages (oldestReplaced policy.placeholder offloaded) messages 0 ∧
      offloaded ≤ (requestImages messages).length ∧
      requestImages (offloadRequestImagesWithPolicy policy messages) =
        (requestImages messages).drop offloaded := by
  intro offloaded
  refine ⟨offloadedImagePrefixCount_le, fits_offloaded, offloadedImagePrefixCount_mono,
    offloadRequestImagesWithPolicy_eq messages, ?_, ?_⟩
  · have hle : offloaded ≤ (requestImageLengths policy messages).length :=
      offloadedImagePrefixCount_le
    rw [requestImageLengths_eq, length_map] at hle
    exact hle
  · rw [offloadRequestImagesWithPolicy_eq, requestImages_mapRequestImages]
    rfl

example : offloadedImagePrefixCount (replicate 5 3)
    { maxImages := some 4, maxBytes := some 12, byteQuantum := some 6, placeholder := fun _ => "" } =
      3 := by
  decide

end Offloading

end DshKernel.Llm
