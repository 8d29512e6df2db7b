import DshKernel.Lib.Budget
import DshKernel.Retention.TextRetainer

/-!
# Cuts of a text at code points

On the bytes of a text the two trims give the longest prefix and the longest suffix within the
caps, so what is retained is text again.
-/

namespace DshKernel.Retention

open Js Lib List

theorem utf8EncodeChar_shape (char : Char) :
    ∃ lead rest, String.utf8EncodeChar char = lead :: rest ∧ isContinuation lead = false ∧
      expectedLength lead = rest.length + 1 ∧ rest.length ≤ 3 ∧
      ∀ byte ∈ rest, isContinuation byte = true := by
  have hlead : ∀ value < 256, (value < 0x80 ∨ 0xc0 ≤ value) →
      isContinuation (UInt8.ofNat value) = false := by
    intro value hvalue hrange
    rw [← Bool.not_eq_true, isContinuation_iff, toNat_ofNat_lt hvalue]
    omega
  have hlt : ∀ value < 256, ∀ bound < 256,
      (UInt8.ofNat value < UInt8.ofNat bound ↔ value < bound) := by
    intro value hvalue bound hbound
    rw [UInt8.lt_iff_toNat_lt, toNat_ofNat_lt hvalue, toNat_ofNat_lt hbound]
  rcases utf8EncodeChar_cases char with ⟨hone, hbytes⟩ | ⟨hlow, hhigh, hbytes⟩ |
    ⟨hlow, hhigh, hscalar, hbytes⟩ | ⟨hlow, hhigh, hbytes⟩
  · refine ⟨_, _, hbytes, hlead _ (by omega) (by omega), ?_, by simp, fun _ h => nomatch h⟩
    exact if_pos ((hlt _ (by omega) 0x80 (by omega)).mpr hone)
  · refine ⟨_, _, hbytes, hlead _ (by omega) (by omega), ?_, by simp, ?_⟩
    · rw [expectedLength, if_neg, if_pos]
      · rfl
      · exact (hlt _ (by omega) 0xe0 (by omega)).mpr (by omega)
      · exact fun h => absurd ((hlt _ (by omega) 0x80 (by omega)).mp h) (by omega)
    · intro byte hbyte
      rcases mem_singleton.mp hbyte with rfl
      exact isContinuation_ofNat (by omega)
  · refine ⟨_, _, hbytes, hlead _ (by omega) (by omega), ?_, by simp, ?_⟩
    · rw [expectedLength, if_neg, if_neg, if_pos]
      · rfl
      · exact (hlt _ (by omega) 0xf0 (by omega)).mpr (by omega)
      · exact fun h => absurd ((hlt _ (by omega) 0xe0 (by omega)).mp h) (by omega)
      · exact fun h => absurd ((hlt _ (by omega) 0x80 (by omega)).mp h) (by omega)
    · simp only [forall_mem_cons]
      exact ⟨isContinuation_ofNat (by omega), isContinuation_ofNat (by omega),
        fun _ h => nomatch h⟩
  · refine ⟨_, _, hbytes, hlead _ (by omega) (by omega), ?_, by simp, ?_⟩
    · rw [expectedLength, if_neg, if_neg, if_neg, if_pos]
      · rfl
      · exact (hlt _ (by omega) 0xf8 (by omega)).mpr (by omega)
      · exact fun h => absurd ((hlt _ (by omega) 0xf0 (by omega)).mp h) (by omega)
      · exact fun h => absurd ((hlt _ (by omega) 0xe0 (by omega)).mp h) (by omega)
      · exact fun h => absurd ((hlt _ (by omega) 0x80 (by omega)).mp h) (by omega)
    · simp only [forall_mem_cons]
      exact ⟨isContinuation_ofNat (by omega), isContinuation_ofNat (by omega),
        isContinuation_ofNat (by omega), fun _ h => nomatch h⟩

/-! ## The end of a prefix -/

section Trailing

variable {front conts : List UInt8} {lead : UInt8}

theorem scanBack_eq (hlead : isContinuation lead = false)
    (hconts : ∀ byte ∈ conts, isContinuation byte = true) (hshort : conts.length ≤ 3) :
    scanBack (front ++ lead :: conts) (front ++ lead :: conts).length = front.length + 1 := by
  have hscan : ∀ k ≤ conts.length,
      scanBack (front ++ lead :: conts) (front.length + 1 + k) = front.length + 1 := by
    intro k hk
    induction k with
    | zero =>
      have hat : (front ++ lead :: conts).getD front.length 0 = lead := by simp
      rw [Nat.add_zero, scanBack, hat, hlead]
      exact if_neg (fun h => nomatch h.1)
    | succ k ih =>
      have hat : isContinuation ((front ++ lead :: conts).getD (front.length + 1 + k) 0) = true := by
        apply hconts
        have hwithin : k < conts.length := by omega
        have hindex : front.length + 1 + k - front.length = k + 1 := by omega
        rw [getD_eq_getElem?_getD, getElem?_append_right (by omega), hindex,
          getElem?_cons_succ, getElem?_eq_getElem hwithin, Option.getD_some]
        exact getElem_mem hwithin
      have hnear : (front ++ lead :: conts).length - (front.length + 1 + k) ≤ 3 := by
        rw [length_append, length_cons]
        omega
      rw [← Nat.add_assoc, scanBack, if_pos ⟨hat, hnear⟩]
      exact ih (by omega)
  have hlength : (front ++ lead :: conts).length = front.length + 1 + conts.length := by
    rw [length_append, length_cons]
    omega
  rw [hlength]
  exact hscan _ (Nat.le_refl _)

theorem trimTrailing_eq (hlead : isContinuation lead = false)
    (hconts : ∀ byte ∈ conts, isContinuation byte = true) (hshort : conts.length ≤ 3)
    (hexpected : expectedLength lead ≠ 0) :
    trimTrailingPartialUtf8 (front ++ lead :: conts) =
      if conts.length + 1 < expectedLength lead then front else front ++ lead :: conts := by
  have hat : (front ++ lead :: conts).getD front.length 0 = lead := by simp
  have hlength : (front ++ lead :: conts).length - front.length = conts.length + 1 := by
    rw [length_append, length_cons]
    omega
  rw [trimTrailingPartialUtf8, scanBack_eq hlead hconts hshort]
  simp only [hat, hlength, hexpected, ↓reduceIte, take_left]

end Trailing

theorem trimTrailing_encodeText (text : List Char) :
    trimTrailingPartialUtf8 (encodeText text) = encodeText text := by
  rcases eq_nil_or_concat text with rfl | ⟨init, char, rfl⟩
  · rfl
  · obtain ⟨lead, conts, hbytes, hlead, hexpected, hshort, hconts⟩ := utf8EncodeChar_shape char
    rw [concat_eq_append, encodeText_append, encodeText_cons, encodeText_nil, append_nil,
      hbytes, trimTrailing_eq hlead hconts hshort (by omega), if_neg (by omega)]

theorem trimTrailing_partial (text : List Char) (char : Char) {k : Nat} (hpos : 0 < k)
    (hcut : k < char.utf8Size) :
    trimTrailingPartialUtf8 (encodeText text ++ (String.utf8EncodeChar char).take k) =
      encodeText text := by
  obtain ⟨lead, conts, hbytes, hlead, hexpected, hshort, hconts⟩ := utf8EncodeChar_shape char
  have hsize : char.utf8Size = conts.length + 1 := by
    rw [← String.length_utf8EncodeChar, hbytes, length_cons]
  obtain ⟨n, rfl⟩ : ∃ n, k = n + 1 := ⟨k - 1, by omega⟩
  have htake : (conts.take n).length = n := by
    rw [length_take]
    omega
  rw [hbytes, take_succ_cons,
    trimTrailing_eq hlead (fun byte hbyte => hconts byte (mem_of_mem_take hbyte)) (by omega)
      (by omega), if_pos (by omega)]

variable {rest text : List Char} {cap prefixCap suffixCap : Nat}

theorem trimTrailing_take {first : List Char} (hfits : byteLength first ≤ cap)
    (hstops : ∀ next more, rest = next :: more → cap < byteLength first + next.utf8Size) :
    trimTrailingPartialUtf8 ((encodeText (first ++ rest)).take cap) = encodeText first := by
  rw [← length_encodeText] at hfits
  rw [encodeText_append, take_append, take_of_length_le hfits]
  cases rest with
  | nil => rw [encodeText_nil, take_nil, append_nil, trimTrailing_encodeText]
  | cons next more =>
    have hnext := hstops next more rfl
    rw [← length_encodeText] at hnext
    rw [encodeText_cons, take_append_of_le_length
      (by rw [String.length_utf8EncodeChar]; omega)]
    by_cases hcut : cap = (encodeText first).length
    · rw [hcut, Nat.sub_self, take_zero, append_nil, trimTrailing_encodeText]
    · exact trimTrailing_partial first next (by omega) (by omega)

/-! ## The start of a suffix -/

theorem trimLeading_append_encodeText {conts : List UInt8}
    (hconts : ∀ byte ∈ conts, isContinuation byte = true) (text : List Char) :
    trimLeadingContinuationUtf8 (conts ++ encodeText text) = encodeText text := by
  rw [trimLeadingContinuationUtf8, dropWhile_append_of_pos hconts]
  cases text with
  | nil => rfl
  | cons char text =>
    obtain ⟨lead, rest, hbytes, hlead, -⟩ := utf8EncodeChar_shape char
    rw [encodeText_cons, hbytes, cons_append, dropWhile_cons_of_neg (by rw [hlead]; simp)]

theorem trimLeading_rtake {last : List Char} (hfits : byteLength last ≤ cap)
    (hstops : ∀ more next, rest = more ++ [next] → cap < next.utf8Size + byteLength last) :
    trimLeadingContinuationUtf8 ((encodeText (rest ++ last)).rtake cap) = encodeText last := by
  rw [← length_encodeText] at hfits
  rcases eq_nil_or_concat rest with rfl | ⟨more, next, rfl⟩
  · rw [nil_append, rtake, Nat.sub_eq_zero_of_le hfits, drop_zero]
    exact @trimLeading_append_encodeText [] (by simp) last
  · have hnext := hstops more next (concat_eq_append)
    obtain ⟨lead, conts, hbytes, -, -, -, hconts⟩ := utf8EncodeChar_shape next
    have hsize : next.utf8Size = conts.length + 1 := by
      rw [← String.length_utf8EncodeChar, hbytes, length_cons]
    rw [← length_encodeText] at hnext
    have hbytesAll : encodeText (more.concat next ++ last) =
        (encodeText more ++ [lead]) ++ (conts ++ encodeText last) := by
      simp [concat_eq_append, hbytes]
    have hwithin : cap ≤ (conts ++ encodeText last).length := by
      rw [length_append]
      omega
    rw [hbytesAll, rtake_append (Or.inr hwithin), rtake, length_append,
      drop_append_of_le_length (by omega)]
    exact trimLeading_append_encodeText
      (fun byte hbyte => hconts byte (mem_of_mem_drop hbyte)) last

/-! ## What is retained of a text -/

theorem dropByteOrderMark_sublist (text : List Char) : (dropByteOrderMark text).Sublist text := by
  cases text with
  | nil => exact List.Sublist.refl _
  | cons char text =>
    rw [dropByteOrderMark]
    split
    · exact sublist_cons_self char text
    · exact List.Sublist.refl _

theorem dropByteOrderMark_eq (h : text.head? ≠ some byteOrderMark) :
    dropByteOrderMark text = text := by
  cases text with
  | nil => rfl
  | cons char text =>
    refine if_neg ?_
    rintro rfl
    exact h rfl

theorem retainBytes_within
    (h : byteLength text ≤ prefixCap + suffixCap) :
    retainBytes prefixCap suffixCap (encodeText text) =
      { text := decodeText (encodeText text), truncated := false, omittedBytes := .none } := by
  have hgap : ¬ prefixCap + suffixCap < (encodeText text).length := by
    rw [length_encodeText]
    omega
  rw [retainBytes]
  simp only [hgap, ↓reduceIte]

theorem retainBytes_beyond
    (h : prefixCap + suffixCap < byteLength text) :
    ∃ first last, LongestPrefix Char.utf8Size prefixCap text first ∧
      LongestSuffix Char.utf8Size suffixCap text last ∧
      retainBytes prefixCap suffixCap (encodeText text) =
        { text := decodeText (encodeText first) ++ decodeText (encodeText last)
          truncated := true
          omittedBytes := .exact (byteLength text - byteLength first - byteLength last) } := by
  obtain ⟨first, rest, hfirst, hfitsFirst, hstopsFirst⟩ :=
    @exists_prefix_within _ Char.utf8Size prefixCap text
  obtain ⟨start, last, hlast, hfitsLast, hstopsLast⟩ :=
    @exists_suffix_within _ Char.utf8Size suffixCap text
  have hfront : trimTrailingPartialUtf8 ((encodeText text).take prefixCap) = encodeText first := by
    rw [hfirst]
    exact trimTrailing_take hfitsFirst hstopsFirst
  have hsuffix : trimLeadingContinuationUtf8 ((encodeText text).rtake suffixCap) =
      encodeText last := by
    rw [hlast]
    exact trimLeading_rtake hfitsLast hstopsLast
  refine ⟨first, last, ?_, ?_, ?_⟩
  · rw [hfirst]
    exact longestPrefix_of_stops hfitsFirst hstopsFirst
  · rw [hlast]
    exact longestSuffix_of_stops hfitsLast hstopsLast
  · rw [retainBytes]
    simp only [length_encodeText, h, ↓reduceIte, hfront, hsuffix]

theorem retainBytes_sublist (prefixCap suffixCap : Nat) (text : List Char) :
    (retainBytes prefixCap suffixCap (encodeText text)).text.Sublist text := by
  by_cases h : byteLength text ≤ prefixCap + suffixCap
  · rw [retainBytes_within h, decodeText_encodeText]
    exact dropByteOrderMark_sublist text
  · obtain ⟨first, last, hfirst, hlast, hretained⟩ := retainBytes_beyond (Nat.lt_of_not_le h)
    have hcost : cost Char.utf8Size first + cost Char.utf8Size last < cost Char.utf8Size text :=
      Nat.lt_of_le_of_lt (Nat.add_le_add hfirst.fits hlast.fits) (Nat.lt_of_not_le h)
    obtain ⟨gap, hgap⟩ := exists_gap hfirst.isPrefix hlast.isSuffix hcost
    rw [hretained, decodeText_encodeText, decodeText_encodeText]
    refine List.Sublist.trans ((dropByteOrderMark_sublist first).append
      (dropByteOrderMark_sublist last)) ?_
    rw [hgap, append_assoc]
    exact List.Sublist.append (List.Sublist.refl first) (sublist_append_right gap last)

/-- A text within both caps together is retained whole; past them, its longest prefix and suffix of
whole characters are retained, however it was cut into chunks. -/
theorem retain_exact (strategy : TextRetentionStrategy) :
    (∀ chunks chunks', streamBytes chunks = streamBytes chunks' →
      retain strategy chunks = retain strategy chunks') ∧
    ∀ chunks text, streamBytes chunks = encodeText text →
      (retain strategy chunks).text.Sublist text ∧
      (byteLength text ≤ strategy.prefixCap + strategy.suffixCap →
        retain strategy chunks =
          { text := decodeText (encodeText text), truncated := false, omittedBytes := .none }) ∧
      (strategy.prefixCap + strategy.suffixCap < byteLength text →
        ∃ first last, LongestPrefix Char.utf8Size strategy.prefixCap text first ∧
          LongestSuffix Char.utf8Size strategy.suffixCap text last ∧
          retain strategy chunks =
            { text := decodeText (encodeText first) ++ decodeText (encodeText last)
              truncated := true
              omittedBytes := .exact (byteLength text - byteLength first - byteLength last) } ∧
          (first.head? ≠ some byteOrderMark → last.head? ≠ some byteOrderMark →
            (retain strategy chunks).omittedBytes =
              .exact (byteLength text - byteLength (retain strategy chunks).text))) := by
  constructor
  · intro chunks chunks' h
    rw [retain_eq_retainBytes, retain_eq_retainBytes, h]
  · intro chunks text h
    rw [retain_eq_retainBytes, h]
    refine ⟨retainBytes_sublist _ _ text, retainBytes_within, ?_⟩
    intro hbeyond
    obtain ⟨first, last, hfirst, hlast, hretained⟩ := retainBytes_beyond hbeyond
    refine ⟨first, last, hfirst, hlast, hretained, ?_⟩
    intro hfirstMark hlastMark
    have hlength : byteLength (first ++ last) = byteLength first + byteLength last :=
      cost_append first last
    rw [hretained]
    dsimp only
    rw [decodeText_encodeText, decodeText_encodeText, dropByteOrderMark_eq hfirstMark,
      dropByteOrderMark_eq hlastMark, hlength, Nat.sub_sub]

/-- Both cuts of `aé€b` fall inside a character. -/
example : retain (.headTail 2 3) [.bytes [0x61, 0xc3], .bytes [0xa9, 0xe2, 0x82, 0xac, 0x62]] =
    { text := ['a', 'b'], truncated := true, omittedBytes := .exact 5 } := by
  decide

/-- One character within the two caps together and within neither alone is retained. -/
theorem retain_not_of_parts : ¬ ∀ (strategy : TextRetentionStrategy) (chunks : List Chunk)
    (text : List Char), streamBytes chunks = encodeText text →
      ∃ first last, LongestPrefix Char.utf8Size strategy.prefixCap text first ∧
        LongestSuffix Char.utf8Size strategy.suffixCap text last ∧
        (retain strategy chunks).text =
          decodeText (encodeText first) ++ decodeText (encodeText last) := by
  intro h
  obtain ⟨first, last, hfirst, hlast, htext⟩ :=
    h (.headTail 1 1) [.bytes [0xc3, 0xa9]] ['é'] (by decide)
  have hnone : ∀ part : List Char, part <:+: ['é'] → cost Char.utf8Size part ≤ 1 → part = [] := by
    intro part hpart hcost
    cases part with
    | nil => rfl
    | cons char part =>
      have hmem : char ∈ ['é'] := hpart.subset mem_cons_self
      rcases mem_singleton.mp hmem with rfl
      have hsize : Char.utf8Size 'é' = 2 := by decide
      rw [cost_cons, hsize] at hcost
      omega
  have hfirstNil := hnone first hfirst.isPrefix.isInfix hfirst.fits
  have hlastNil := hnone last hlast.isSuffix.isInfix hlast.fits
  rw [hfirstNil, hlastNil] at htext
  revert htext
  decide

end DshKernel.Retention
