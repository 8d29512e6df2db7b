import DshKernel.Session.ChunkRows
import Mathlib.Data.List.Perm.Subperm

/-!
# What the chunk-row codec reads

A whitelisted event is, up to the order of its properties, the event that the decoder
makes of its fields; and a row reads back as the row it was written from.
-/

namespace DshKernel.Session

open Js

section Objects

variable {eq : Number → Number → Bool}

theorem fieldsEqualBy_iff {xs ys : List (String × Json)} :
    Json.fieldsEqualBy eq xs ys = true ↔
      ∀ field ∈ xs, ∃ y, ys.lookup field.1 = some y ∧ Json.equalBy eq field.2 y = true := by
  induction xs with
  | nil => simp [Json.fieldsEqualBy]
  | cons field rest ih =>
    obtain ⟨key, x⟩ := field
    rw [List.forall_mem_cons, ← ih]
    cases hlookup : ys.lookup key with
    | none => simp [Json.fieldsEqualBy, hlookup]
    | some y => simp [Json.fieldsEqualBy, hlookup]

variable {value x : Json} {key : String}

theorem same_obj_of_hasExactKeys {fields : List (String × Json)}
    (hkeys : hasExactKeys value (fields.map Prod.fst) = true) (hne : fields ≠ [])
    (hsame : ∀ field ∈ fields, ∃ y, value.get? field.1 = some y ∧ Json.Same field.2 y) :
    Json.Same (.obj fields) value := by
  obtain ⟨hlength, -⟩ := (Bool.and_eq_true _ _).mp hkeys
  cases value with
  | obj others =>
    simp only [Json.Same, Json.equalBy, Bool.and_eq_true]
    refine ⟨?_, fieldsEqualBy_iff.mpr hsame⟩
    have heq : others.length = fields.length := by simpa [Json.keys] using hlength
    rw [heq, beq_self_eq_true]
  | _ =>
    obtain ⟨field, hfield⟩ := List.exists_mem_of_ne_nil fields hne
    obtain ⟨y, hy, -⟩ := hsame field hfield
    simp [Json.get?] at hy

theorem mem_keys_of_get? (h : value.get? key = some x) : key ∈ value.keys := by
  cases value with
  | obj fields => exact List.mem_map.mpr ⟨(key, x), Lib.mem_of_lookup_eq_some h, rfl⟩
  | _ => simp [Json.get?] at h

theorem mem_of_hasExactKeys {keys : List String}
    (hkeys : hasExactKeys value keys = true) (hnodup : keys.Nodup)
    (h : value.get? key = some x) : key ∈ keys := by
  simp only [hasExactKeys, Bool.and_eq_true, beq_iff_eq, List.all_eq_true] at hkeys
  obtain ⟨hlength, hall⟩ := hkeys
  have hsubset : keys ⊆ value.keys := by
    intro other hother
    obtain ⟨y, hy⟩ := Option.isSome_iff_exists.mp (hall other hother)
    exact mem_keys_of_get? hy
  have hperm := (List.subperm_of_subset hnodup hsubset).perm_of_length_le (Nat.le_of_eq hlength)
  exact hperm.mem_iff.mpr (mem_keys_of_get? h)

theorem hasExactKeys_perm {keys others : List String} (hperm : keys.Perm others) :
    hasExactKeys value keys = hasExactKeys value others := by
  simp only [hasExactKeys, hperm.length_eq, hperm.all_eq]

theorem same_num (n : Number) : Json.Same (.num n) (.num n) := by
  simp [Json.Same, Json.equalBy]

theorem same_str (s : String) : Json.Same (.str s) (.str s) := by
  simp [Json.Same, Json.equalBy]

theorem asString_eq_some {value : Option Json} {text : String}
    (h : value.bind Json.asString = some text) : value = some (.str text) := by
  cases value with
  | none => simp at h
  | some value =>
    cases value with
    | str other => simpa [Json.asString] using h
    | _ => simp [Json.asString] at h

theorem isEventSeq_eq_some {seq : Nat} (h : isEventSeq value = some seq) :
    value = .ofNat seq ∧ seq ≤ maxSafeInteger := by
  unfold isEventSeq at h
  split at h
  · rename_i z
    split at h
    · rename_i hz
      cases h
      have hz' : (z.toNat : Int) = z := Int.toNat_of_nonneg hz.1
      exact ⟨by rw [Json.ofNat, Number.ofNat, hz'], hz.2⟩
    · cases h
  · cases h

theorem asSafeInteger_eq_some {time : Integral} (h : asSafeInteger value = some time) :
    value = .num (.integral time) ∧ time.isSafe = true := by
  unfold asSafeInteger at h
  split at h
  · split at h
    · rename_i hsafe
      cases h
      exact ⟨rfl, hsafe⟩
    · cases h
  · cases h

end Objects

section Classify

variable {chunk event : Json} {shape : RunShape} {text : String}

def RunShape.Proper (shape : RunShape) : Prop :=
  shape.call.isSome = true ↔ shape.kind = .toolCallDelta

theorem same_chunkJson {kind : DeltaKind} {call : Option ToolCallIdentity} {turn step index : Number}
    (hindex : chunk.get? "index" = some (.num index))
    (h : classifyChunk chunk = some (kind, call, text)) :
    Json.Same (chunkJson ⟨kind, turn, step, index, call⟩ text) chunk ∧
      (RunShape.mk kind turn step index call).Proper := by
  unfold classifyChunk at h
  split at h
  · rename_i htype
    split at h
    · rename_i hkeys
      split at h
      · rename_i text' htext
        cases h
        refine ⟨same_obj_of_hasExactKeys hkeys (by simp) ?_, by simp [RunShape.Proper]⟩
        simp [DeltaKind.chunkType, htype, hindex, htext, same_num, same_str]
      · cases h
    · cases h
  · rename_i htype
    split at h
    · rename_i hkeys
      split at h
      · rename_i text' htext
        cases h
        refine ⟨same_obj_of_hasExactKeys hkeys (by simp) ?_, by simp [RunShape.Proper]⟩
        simp [DeltaKind.chunkType, htype, hindex, htext, same_num, same_str]
      · cases h
    · cases h
  · rename_i htype
    split at h
    · rename_i id arguments hid harguments
      split at h
      · rename_i hkeys
        cases h
        refine ⟨same_obj_of_hasExactKeys hkeys (by simp) ?_, by simp [RunShape.Proper]⟩
        simp [optional, DeltaKind.chunkType, htype, hindex, hid, harguments, same_num, same_str]
      · split at h
        · rename_i hkeys
          split at h
          · rename_i name hname
            cases h
            refine ⟨same_obj_of_hasExactKeys hkeys (by simp) ?_, by simp [RunShape.Proper]⟩
            simp [optional, DeltaKind.chunkType, htype, hindex, hid, hname, harguments, same_num,
              same_str]
          · cases h
        · cases h
    · cases h
  · cases h

/-- What `classify` has read: the event is the member event of its fields. -/
structure ReadAs (event : Json) (delta : DeltaEvent) : Prop where
  event_eq : delta.event = event
  same : Json.Same (memberEvent delta.shape delta.seq delta.time delta.text) event
  seq_le : delta.seq ≤ maxSafeInteger
  time : delta.time.isSafe = true
  proper : delta.shape.Proper

theorem readAs_of_classify {delta : DeltaEvent} (h : classify event = some delta) :
    ReadAs event delta := by
  unfold classify at h
  split at h
  · cases h
  · rename_i htype
    split at h
    · cases h
    · rename_i hkeys
      split at h
      · rename_i seq time data hseq htime hdata
        split at h
        · cases h
        · rename_i hdataKeys
          split at h
          · rename_i turn step chunk hturn hstep hchunk
            split at h
            · rename_i index kind call text hindex hclassified
              cases h
              obtain ⟨hsameChunk, hproper⟩ := @same_chunkJson chunk text kind call turn step index
                hindex hclassified
              obtain ⟨seqValue, hseqGet, hseqRead⟩ := Option.bind_eq_some_iff.mp hseq
              obtain ⟨timeValue, htimeGet, htimeRead⟩ := Option.bind_eq_some_iff.mp htime
              obtain ⟨rfl, hseqLe⟩ := isEventSeq_eq_some hseqRead
              obtain ⟨rfl, htimeSafe⟩ := asSafeInteger_eq_some htimeRead
              have htypeGet : event.get? "type" = some (.str "assistant/chunk") :=
                asString_eq_some (by simpa using htype)
              have hdataSame : Json.Same (memberData ⟨kind, turn, step, index, call⟩ text) data := by
                refine same_obj_of_hasExactKeys ?_ (by simp) ?_
                · simp only [Bool.or_eq_true, Bool.not_eq_true', not_or, Bool.not_eq_false] at hdataKeys
                  exact hdataKeys.2
                · simp [hturn, hstep, hchunk, same_num, hsameChunk]
              refine ⟨rfl, ?_, hseqLe, htimeSafe, hproper⟩
              refine same_obj_of_hasExactKeys (by simpa using hkeys) (by simp) ?_
              simp [htypeGet, hseqGet, htimeGet, hdata, same_num, same_str, hdataSame, Json.ofNat]
            · cases h
          · cases h
      · cases h

end Classify

end DshKernel.Session
