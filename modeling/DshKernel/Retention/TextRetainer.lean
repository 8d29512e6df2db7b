import DshKernel.Js.Utf8

/-!
# `TextRetainer`

A byte stream kept within a budget: a prefix that fills, a suffix that slides, and the count of
what neither holds.
-/

namespace DshKernel.Retention

open Js List

inductive TextRetentionStrategy where
  | head (maxBytes : Nat)
  | tail (maxBytes : Nat)
  | headTail (headBytes tailBytes : Nat)
  deriving DecidableEq, Repr

def TextRetentionStrategy.prefixCap : TextRetentionStrategy → Nat
  | head maxBytes => maxBytes
  | tail _ => 0
  | headTail headBytes _ => headBytes

def TextRetentionStrategy.suffixCap : TextRetentionStrategy → Nat
  | head _ => 0
  | tail maxBytes => maxBytes
  | headTail _ tailBytes => tailBytes

inductive Omitted where
  | none
  | exact (count : Nat)
  deriving DecidableEq, Repr

structure PushDecision where
  kept : Bool
  truncated : Bool
  deriving DecidableEq, Repr

structure RetainedText where
  text : List Char
  truncated : Bool
  omittedBytes : Omitted
  deriving DecidableEq, Repr

inductive Chunk where
  | bytes (chunk : List UInt8)
  | text (chunk : List Char)

/-- `typeof chunk === 'string' ? encoder.encode(chunk) : chunk` -/
def Chunk.encoded : Chunk → List UInt8
  | .bytes chunk => chunk
  | .text chunk => encodeText chunk

structure TextRetainer where
  prefixCap : Nat
  suffixCap : Nat
  prefixChunks : List (List UInt8) := []
  prefixHeld : Nat := 0
  suffixChunks : List (List UInt8) := []
  suffixHeld : Nat := 0
  total : Nat := 0

/-! ## Cuts at a code point -/

/-- The loop of `trimTrailingPartialUtf8`, on `i + 1`. -/
def scanBack (bytes : List UInt8) : Nat → Nat
  | 0 => 0
  | i + 1 =>
    if isContinuation (bytes.getD i 0) ∧ bytes.length - i ≤ 3 then scanBack bytes i else i + 1

def expectedLength (lead : UInt8) : Nat :=
  if lead < 0x80 then 1
  else if lead < 0xe0 then 2
  else if lead < 0xf0 then 3
  else if lead < 0xf8 then 4
  else 0

def trimTrailingPartialUtf8 (bytes : List UInt8) : List UInt8 :=
  match scanBack bytes bytes.length with
  | 0 => bytes
  | i + 1 =>
    let expected := expectedLength (bytes.getD i 0)
    if expected = 0 then bytes
    else if bytes.length - i < expected then bytes.take i
    else bytes

def trimLeadingContinuationUtf8 (bytes : List UInt8) : List UInt8 :=
  bytes.dropWhile isContinuation

/-! ## The retainer -/

namespace TextRetainer

def new (strategy : TextRetentionStrategy) : TextRetainer where
  prefixCap := strategy.prefixCap
  suffixCap := strategy.suffixCap

/-- Bytes neither side holds once `total` have been seen. -/
def omittedAt (retainer : TextRetainer) (total : Nat) : Nat :=
  let prefixLen := min total retainer.prefixCap
  let suffixLen := min (total - prefixLen) retainer.suffixCap
  total - prefixLen - suffixLen

/-- The loop that drops whole chunks that have slid out of the last `cap` bytes. -/
def dropSlid (cap : Nat) : List (List UInt8) → Nat → List (List UInt8) × Nat
  | [], held => ([], held)
  | head :: rest, held =>
    if held - head.length ≥ cap then dropSlid cap rest (held - head.length)
    else (head :: rest, held)

/-- Cut the head chunk down to the last `cap` bytes. -/
def trimExcess (cap : Nat) : List (List UInt8) × Nat → List (List UInt8) × Nat
  | ([], held) => ([], held)
  | (head :: rest, held) =>
    if held > cap then (head.drop (held - cap) :: rest, held - (held - cap))
    else (head :: rest, held)

def pushPrefix (retainer : TextRetainer) (bytes : List UInt8) : TextRetainer :=
  let take := min (retainer.prefixCap - retainer.prefixHeld) bytes.length
  if take > 0 then
    { retainer with
      prefixChunks := retainer.prefixChunks ++ [bytes.take take]
      prefixHeld := retainer.prefixHeld + take }
  else retainer

def pushSuffix (retainer : TextRetainer) (bytes : List UInt8) : TextRetainer :=
  if retainer.suffixCap > 0 then
    let slid := trimExcess retainer.suffixCap (dropSlid retainer.suffixCap
      (retainer.suffixChunks ++ [bytes]) (retainer.suffixHeld + bytes.length))
    { retainer with suffixChunks := slid.1, suffixHeld := slid.2 }
  else retainer

def push (retainer : TextRetainer) (chunk : Chunk) : TextRetainer × PushDecision :=
  let bytes := chunk.encoded
  let before := retainer.total
  let next := pushSuffix (pushPrefix { retainer with total := before + bytes.length } bytes) bytes
  let droppedThisChunk := decide (next.omittedAt next.total > next.omittedAt before)
  (next, { kept := !droppedThisChunk, truncated := decide (next.omittedAt next.total > 0) })

def finish (retainer : TextRetainer) : RetainedText :=
  let prefixLen := min retainer.total retainer.prefixCap
  let suffixLen := min (retainer.total - prefixLen) retainer.suffixCap
  let head := retainer.prefixChunks.flatten
  let last := retainer.suffixChunks.flatten.drop (retainer.suffixHeld - suffixLen)
  let budgetOmitted := retainer.omittedAt retainer.total
  let keptPrefix := if budgetOmitted > 0 then trimTrailingPartialUtf8 head else head
  let keptSuffix := if budgetOmitted > 0 then trimLeadingContinuationUtf8 last else last
  let text := if budgetOmitted > 0 then decodeText keptPrefix ++ decodeText keptSuffix
    else decodeText (head ++ last)
  let omitted := retainer.total - keptPrefix.length - keptSuffix.length
  { text
    truncated := decide (omitted > 0)
    omittedBytes := if omitted > 0 then .exact omitted else .none }

def pushAll (retainer : TextRetainer) (chunks : List Chunk) : TextRetainer :=
  chunks.foldl (fun retainer chunk => (retainer.push chunk).1) retainer

end TextRetainer

def streamBytes (chunks : List Chunk) : List UInt8 := chunks.flatMap Chunk.encoded

def retain (strategy : TextRetentionStrategy) (chunks : List Chunk) : RetainedText :=
  ((TextRetainer.new strategy).pushAll chunks).finish

/-! ## What the retainer holds -/

structure Holds (retainer : TextRetainer) (seen : List UInt8) : Prop where
  total : retainer.total = seen.length
  prefixHeld : retainer.prefixHeld = min seen.length retainer.prefixCap
  prefixChunks : retainer.prefixChunks.flatten = seen.take retainer.prefixCap
  suffixHeld : retainer.suffixHeld = min seen.length retainer.suffixCap
  suffixChunks : retainer.suffixChunks.flatten = seen.rtake retainer.suffixCap

theorem holds_new (strategy : TextRetentionStrategy) : Holds (TextRetainer.new strategy) [] := by
  constructor <;> simp [TextRetainer.new, rtake]

theorem rtake_append {front back : List UInt8} {cap : Nat} (h : front = [] ∨ cap ≤ back.length) :
    (front ++ back).rtake cap = back.rtake cap := by
  rcases h with rfl | h
  · rfl
  · have hlength : (front ++ back).length - cap = front.length + (back.length - cap) := by
      rw [length_append]
      omega
    rw [rtake, rtake, hlength, drop_append, drop_of_length_le (by omega),
      nil_append]
    congr 1
    omega

theorem length_rtake (bytes : List UInt8) (cap : Nat) :
    (bytes.rtake cap).length = min bytes.length cap := by
  rw [rtake, length_drop]
  omega

namespace TextRetainer

/-- Chunks that slid out are all before the last `cap` bytes. -/
theorem dropSlid_spec (cap : Nat) (chunks : List (List UInt8)) :
    ∃ slid, chunks.flatten = slid ++ (dropSlid cap chunks chunks.flatten.length).1.flatten ∧
      (dropSlid cap chunks chunks.flatten.length).2 =
        (dropSlid cap chunks chunks.flatten.length).1.flatten.length ∧
      (slid = [] ∨ cap ≤ (dropSlid cap chunks chunks.flatten.length).1.flatten.length) ∧
      ∀ head rest, (dropSlid cap chunks chunks.flatten.length).1 = head :: rest →
        rest.flatten.length < cap := by
  induction chunks with
  | nil => exact ⟨[], rfl, rfl, Or.inl rfl, fun _ _ h => nomatch h⟩
  | cons head rest ih =>
    have hrest : (head :: rest).flatten.length - head.length = rest.flatten.length := by
      simp
    by_cases hslid : rest.flatten.length ≥ cap
    · have hdrop : dropSlid cap (head :: rest) (head :: rest).flatten.length =
          dropSlid cap rest rest.flatten.length := by
        rw [dropSlid, hrest, if_pos hslid]
      obtain ⟨slid, hflatten, hheld, hbound, hhead⟩ := ih
      rw [hdrop]
      refine ⟨head ++ slid, ?_, hheld, Or.inr ?_, hhead⟩
      · rw [flatten_cons, append_assoc, ← hflatten]
      · rcases hbound with rfl | hbound
        · rw [nil_append] at hflatten
          rw [← hflatten]
          exact hslid
        · exact hbound
    · have hdrop : dropSlid cap (head :: rest) (head :: rest).flatten.length =
          (head :: rest, (head :: rest).flatten.length) := by
        rw [dropSlid, hrest, if_neg hslid]
      rw [hdrop]
      refine ⟨[], rfl, rfl, Or.inl rfl, ?_⟩
      intro _ _ h
      obtain ⟨rfl, rfl⟩ := cons.inj h
      omega

theorem pushPrefix_frame (retainer : TextRetainer) (bytes : List UInt8) :
    (retainer.pushPrefix bytes).prefixCap = retainer.prefixCap ∧
      (retainer.pushPrefix bytes).suffixCap = retainer.suffixCap ∧
      (retainer.pushPrefix bytes).suffixChunks = retainer.suffixChunks ∧
      (retainer.pushPrefix bytes).suffixHeld = retainer.suffixHeld ∧
      (retainer.pushPrefix bytes).total = retainer.total := by
  unfold pushPrefix
  dsimp only
  split <;> exact ⟨rfl, rfl, rfl, rfl, rfl⟩

theorem pushSuffix_frame (retainer : TextRetainer) (bytes : List UInt8) :
    (retainer.pushSuffix bytes).prefixCap = retainer.prefixCap ∧
      (retainer.pushSuffix bytes).suffixCap = retainer.suffixCap ∧
      (retainer.pushSuffix bytes).prefixChunks = retainer.prefixChunks ∧
      (retainer.pushSuffix bytes).prefixHeld = retainer.prefixHeld ∧
      (retainer.pushSuffix bytes).total = retainer.total := by
  unfold pushSuffix
  split <;> exact ⟨rfl, rfl, rfl, rfl, rfl⟩

/-- After the head chunk is cut, the chunks are the last `cap` bytes. -/
theorem trimExcess_spec {cap : Nat} {chunks : List (List UInt8)}
    (h : ∀ head rest, chunks = head :: rest → rest.flatten.length < cap) :
    (trimExcess cap (chunks, chunks.flatten.length)).1.flatten = chunks.flatten.rtake cap ∧
      (trimExcess cap (chunks, chunks.flatten.length)).2 = min chunks.flatten.length cap := by
  cases chunks with
  | nil => simp [trimExcess, rtake]
  | cons head rest =>
    have hrest := h head rest rfl
    have hlength : (head :: rest).flatten.length = head.length + rest.flatten.length := by
      rw [flatten_cons, length_append]
    by_cases hexcess : (head :: rest).flatten.length > cap
    · rw [trimExcess, if_pos hexcess]
      refine ⟨?_, by dsimp only; omega⟩
      have hwithin : (head :: rest).flatten.length - cap ≤ head.length := by omega
      rw [rtake, flatten_cons, flatten_cons,
        drop_append_of_le_length (by rw [← flatten_cons]; exact hwithin)]
    · rw [trimExcess, if_neg hexcess]
      refine ⟨?_, by dsimp only; omega⟩
      have hnone : (head :: rest).flatten.length - cap = 0 := by omega
      rw [rtake, hnone, drop_zero]

theorem pushPrefix_holds {retainer : TextRetainer} {seen : List UInt8} (bytes : List UInt8)
    (hheld : retainer.prefixHeld = min seen.length retainer.prefixCap)
    (hchunks : retainer.prefixChunks.flatten = seen.take retainer.prefixCap) :
    (retainer.pushPrefix bytes).prefixHeld = min (seen ++ bytes).length retainer.prefixCap ∧
      (retainer.pushPrefix bytes).prefixChunks.flatten =
        (seen ++ bytes).take retainer.prefixCap := by
  rw [length_append, take_append]
  by_cases htake : min (retainer.prefixCap - retainer.prefixHeld) bytes.length > 0
  · rw [pushPrefix]
    simp only [htake, ↓reduceIte]
    refine ⟨by omega, ?_⟩
    have hroom : retainer.prefixCap - retainer.prefixHeld = retainer.prefixCap - seen.length := by
      omega
    rw [flatten_append, hchunks, flatten_singleton, hroom, ← take_eq_take_min]
  · rw [pushPrefix]
    simp only [htake, ↓reduceIte]
    refine ⟨by omega, ?_⟩
    have hnone : bytes.take (retainer.prefixCap - seen.length) = [] := by
      rw [take_eq_nil_iff, ← length_eq_zero_iff]
      omega
    rw [hchunks, hnone, append_nil]

theorem pushSuffix_holds {retainer : TextRetainer} {seen : List UInt8} (bytes : List UInt8)
    (hheld : retainer.suffixHeld = min seen.length retainer.suffixCap)
    (hchunks : retainer.suffixChunks.flatten = seen.rtake retainer.suffixCap) :
    (retainer.pushSuffix bytes).suffixHeld = min (seen ++ bytes).length retainer.suffixCap ∧
      (retainer.pushSuffix bytes).suffixChunks.flatten =
        (seen ++ bytes).rtake retainer.suffixCap := by
  by_cases hcap : retainer.suffixCap > 0
  · have hlength : retainer.suffixHeld + bytes.length =
        (retainer.suffixChunks ++ [bytes]).flatten.length := by
      rw [flatten_append, length_append, hchunks, length_rtake, hheld,
        flatten_singleton]
    have hflatten : (retainer.suffixChunks ++ [bytes]).flatten =
        seen.rtake retainer.suffixCap ++ bytes := by
      rw [flatten_append, hchunks, flatten_singleton]
    obtain ⟨slid, hslid, hheldSlid, hbound, hhead⟩ :=
      dropSlid_spec retainer.suffixCap (retainer.suffixChunks ++ [bytes])
    obtain ⟨htrim, hheldTrim⟩ := trimExcess_spec hhead
    -- what slid out of the chunks, and what was no longer held, come before the last bytes
    have hlast : (dropSlid retainer.suffixCap (retainer.suffixChunks ++ [bytes])
        (retainer.suffixChunks ++ [bytes]).flatten.length).1.flatten.rtake retainer.suffixCap =
          (seen ++ bytes).rtake retainer.suffixCap := by
      rw [← rtake_append hbound, ← hslid, hflatten]
      have hseen : seen = seen.take (seen.length - retainer.suffixCap) ++
          seen.rtake retainer.suffixCap := (take_append_drop _ seen).symm
      conv => rhs; rw [hseen, append_assoc]
      symm
      apply rtake_append
      by_cases hall : seen.length ≤ retainer.suffixCap
      · exact Or.inl (by rw [Nat.sub_eq_zero_of_le hall, take_zero])
      · exact Or.inr (by rw [length_append, length_rtake]; omega)
    rw [pushSuffix, if_pos hcap]
    dsimp only
    rw [hlength]
    have hpair : dropSlid retainer.suffixCap (retainer.suffixChunks ++ [bytes])
        (retainer.suffixChunks ++ [bytes]).flatten.length =
          ((dropSlid retainer.suffixCap (retainer.suffixChunks ++ [bytes])
            (retainer.suffixChunks ++ [bytes]).flatten.length).1,
          (dropSlid retainer.suffixCap (retainer.suffixChunks ++ [bytes])
            (retainer.suffixChunks ++ [bytes]).flatten.length).1.flatten.length) :=
      Prod.ext rfl hheldSlid
    rw [hpair, htrim, hheldTrim, ← length_rtake, hlast, length_rtake]
    exact ⟨rfl, rfl⟩
  · have hzero : retainer.suffixCap = 0 := by omega
    rw [pushSuffix, if_neg hcap, hheld, hchunks, hzero]
    simp [rtake]

end TextRetainer

section Runs

variable {retainer : TextRetainer} {seen : List UInt8}

theorem push_caps (retainer : TextRetainer) (chunk : Chunk) :
    (retainer.push chunk).1.prefixCap = retainer.prefixCap ∧
      (retainer.push chunk).1.suffixCap = retainer.suffixCap := by
  obtain ⟨hfront, hsuffix, -⟩ := TextRetainer.pushPrefix_frame
    { retainer with total := retainer.total + chunk.encoded.length } chunk.encoded
  obtain ⟨hfront', hsuffix', -⟩ := TextRetainer.pushSuffix_frame
    (TextRetainer.pushPrefix { retainer with total := retainer.total + chunk.encoded.length }
      chunk.encoded) chunk.encoded
  exact ⟨hfront'.trans hfront, hsuffix'.trans hsuffix⟩

theorem Holds.push (h : Holds retainer seen) (chunk : Chunk) :
    Holds (retainer.push chunk).1 (seen ++ chunk.encoded) := by
  let counted : TextRetainer := { retainer with total := retainer.total + chunk.encoded.length }
  obtain ⟨hcap, hcapSuffix, hchunks, hheld, htotal⟩ :=
    TextRetainer.pushPrefix_frame counted chunk.encoded
  obtain ⟨hcap', hcapSuffix', hchunks', hheld', htotal'⟩ :=
    TextRetainer.pushSuffix_frame (counted.pushPrefix chunk.encoded) chunk.encoded
  obtain ⟨hprefixHeld, hprefixChunks⟩ := @TextRetainer.pushPrefix_holds counted seen
    chunk.encoded h.prefixHeld h.prefixChunks
  obtain ⟨hsuffixHeld, hsuffixChunks⟩ := @TextRetainer.pushSuffix_holds
    (counted.pushPrefix chunk.encoded) seen chunk.encoded
    (by rw [hheld, hcapSuffix]; exact h.suffixHeld)
    (by rw [hchunks, hcapSuffix]; exact h.suffixChunks)
  obtain ⟨hpushCap, hpushCapSuffix⟩ := push_caps retainer chunk
  refine ⟨?_, ?_, ?_, ?_, ?_⟩
  · rw [length_append, ← h.total]
    exact htotal'.trans htotal
  · rw [hpushCap]
    exact hheld'.trans hprefixHeld
  · rw [hpushCap]
    exact (congrArg flatten hchunks').trans hprefixChunks
  · rw [hpushCapSuffix]
    exact hsuffixHeld.trans (by rw [hcapSuffix])
  · rw [hpushCapSuffix]
    exact hsuffixChunks.trans (by rw [hcapSuffix])

theorem holds_pushAll (h : Holds retainer seen) (chunks : List Chunk) :
    Holds (retainer.pushAll chunks) (seen ++ streamBytes chunks) ∧
      (retainer.pushAll chunks).prefixCap = retainer.prefixCap ∧
      (retainer.pushAll chunks).suffixCap = retainer.suffixCap := by
  induction chunks generalizing retainer seen with
  | nil => exact ⟨by rw [streamBytes, flatMap_nil, append_nil]; exact h, rfl, rfl⟩
  | cons chunk chunks ih =>
    obtain ⟨hholds, hfront, hsuffix⟩ := ih (h.push chunk)
    obtain ⟨hfront', hsuffix'⟩ := push_caps retainer chunk
    refine ⟨?_, hfront.trans hfront', hsuffix.trans hsuffix'⟩
    rw [streamBytes, flatMap_cons, ← append_assoc]
    exact hholds

/-! ## What is returned -/

def retainBytes (prefixCap suffixCap : Nat) (seen : List UInt8) : RetainedText :=
  let gap := prefixCap + suffixCap < seen.length
  let keptPrefix := trimTrailingPartialUtf8 (seen.take prefixCap)
  let keptSuffix := trimLeadingContinuationUtf8 (seen.rtake suffixCap)
  let omitted := seen.length - keptPrefix.length - keptSuffix.length
  if gap then
    { text := decodeText keptPrefix ++ decodeText keptSuffix
      truncated := true
      omittedBytes := .exact omitted }
  else { text := decodeText seen, truncated := false, omittedBytes := .none }

theorem length_trimTrailing_le (bytes : List UInt8) :
    (trimTrailingPartialUtf8 bytes).length ≤ bytes.length := by
  unfold trimTrailingPartialUtf8
  split
  · exact Nat.le_refl _
  · dsimp only
    split_ifs
    · exact Nat.le_refl _
    · exact length_take_le' _ _
    · exact Nat.le_refl _

theorem Holds.finish (h : Holds retainer seen) :
    retainer.finish = retainBytes retainer.prefixCap retainer.suffixCap seen := by
  have hlast : retainer.suffixChunks.flatten.drop (retainer.suffixHeld -
      min (seen.length - min seen.length retainer.prefixCap) retainer.suffixCap) =
        seen.drop (seen.length -
          min (seen.length - min seen.length retainer.prefixCap) retainer.suffixCap) := by
    rw [h.suffixChunks, h.suffixHeld, rtake, drop_drop]
    congr 1
    omega
  rw [TextRetainer.finish, h.total, h.prefixChunks, hlast, TextRetainer.omittedAt]
  by_cases hgap : retainer.prefixCap + retainer.suffixCap < seen.length
  · have hsuffixLen : min (seen.length - min seen.length retainer.prefixCap) retainer.suffixCap =
        retainer.suffixCap := by omega
    have homitted : seen.length - min seen.length retainer.prefixCap - retainer.suffixCap > 0 := by
      omega
    have hfront := length_trimTrailing_le (seen.take retainer.prefixCap)
    have hsuffix : (trimLeadingContinuationUtf8 (seen.rtake retainer.suffixCap)).length ≤ _ :=
      (dropWhile_sublist isContinuation).length_le
    rw [length_take] at hfront
    rw [length_rtake] at hsuffix
    have hmissing : seen.length - (trimTrailingPartialUtf8 (seen.take retainer.prefixCap)).length -
        (trimLeadingContinuationUtf8 (seen.rtake retainer.suffixCap)).length > 0 := by omega
    rw [retainBytes]
    have hrtake : seen.drop (seen.length - retainer.suffixCap) = seen.rtake retainer.suffixCap :=
      rfl
    simp only [hsuffixLen, homitted, hgap, ↓reduceIte, hrtake, hmissing, decide_true]
  · have hadjacent : seen.length -
        min (seen.length - min seen.length retainer.prefixCap) retainer.suffixCap =
          min seen.length retainer.prefixCap := by omega
    have hnone : ¬ seen.length - min seen.length retainer.prefixCap -
        min (seen.length - min seen.length retainer.prefixCap) retainer.suffixCap > 0 := by omega
    have hwhole : seen.take retainer.prefixCap ++ seen.drop (min seen.length retainer.prefixCap) =
        seen := by
      rw [take_eq_take_min, Nat.min_comm retainer.prefixCap, take_append_drop]
    have hmissing : ¬ seen.length - (seen.take retainer.prefixCap).length -
        (seen.drop (min seen.length retainer.prefixCap)).length > 0 := by
      rw [length_take, length_drop]
      omega
    rw [retainBytes]
    simp only [hadjacent, hnone, hgap, ↓reduceIte, hwhole, hmissing, decide_false]

theorem retain_eq_retainBytes (strategy : TextRetentionStrategy) (chunks : List Chunk) :
    retain strategy chunks =
      retainBytes strategy.prefixCap strategy.suffixCap (streamBytes chunks) := by
  obtain ⟨hholds, hfront, hsuffix⟩ := holds_pushAll (holds_new strategy) chunks
  rw [retain, hholds.finish, hfront, hsuffix]
  rfl

end Runs

end DshKernel.Retention
