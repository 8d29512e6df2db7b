import DshKernel.Lib.PrefixCode

/-!
# Path segments

`encodeSegment`: any string of UTF-16 code units but the empty one as one segment of a path.
-/

namespace DshKernel.Jsonl

open Lib List

/-- `/^[A-Za-z0-9._-]$/` of the character of a code unit -/
def isPlainUnit (code : UInt16) : Bool :=
  (0x41 ≤ code.toNat && code.toNat ≤ 0x5A) || (0x61 ≤ code.toNat && code.toNat ≤ 0x7A) ||
    (0x30 ≤ code.toNat && code.toNat ≤ 0x39) || code.toNat == 0x2E || code.toNat == 0x5F ||
    code.toNat == 0x2D

/-- `'~' + code.toString(16).toUpperCase().padStart(4, '0')` -/
def escapeUnit (code : UInt16) : List Char :=
  '~' :: ((Nat.toDigits 16 code.toNat).map Char.toUpper).leftpad 4 '0'

def encodeUnit (code : UInt16) : List Char :=
  if code.toNat ≠ 0x7E ∧ isPlainUnit code then [Char.ofNat code.toNat] else escapeUnit code

def encodeSegment (raw : List UInt16) : Except String (List Char) :=
  if raw.length = 0 then .error "cannot encode an empty path segment"
  else if raw = [0x2E] then .ok "~002E".toList
  else if raw = [0x2E, 0x2E] then .ok "~002E~002E".toList
  else .ok (raw.flatMap encodeUnit)

def isSegmentChar (char : Char) : Bool :=
  char.isAlphanum || char == '.' || char == '_' || char == '-' || char == '~'

/-! ## Escapes -/

def hexDigit (value : Nat) : Char := (Nat.digitChar value).toUpper

variable {value : Nat} {code : UInt16} {segment : List Char} {raw : List UInt16}

theorem hexDigit_inj {other : Nat} (hvalue : value < 16) (hother : other < 16) :
    hexDigit value = hexDigit other ↔ value = other := by
  have table : ∀ i j : Fin 16, hexDigit i = hexDigit j ↔ i.val = j.val := by decide
  exact table ⟨value, hvalue⟩ ⟨other, hother⟩

theorem isSegmentChar_hexDigit (h : value < 16) : isSegmentChar (hexDigit value) = true := by
  have table : ∀ i : Fin 16, isSegmentChar (hexDigit i) = true := by decide
  exact table ⟨value, h⟩

theorem toUpper_toDigits_of_lt (h : value < 16) :
    (Nat.toDigits 16 value).map Char.toUpper = [hexDigit value] := by
  rw [Nat.toDigits_of_lt_base h]
  rfl

theorem toUpper_toDigits_of_le (h : 16 ≤ value) :
    (Nat.toDigits 16 value).map Char.toUpper =
      (Nat.toDigits 16 (value / 16)).map Char.toUpper ++ [hexDigit (value % 16)] := by
  rw [Nat.toDigits_of_base_le (by decide) h, map_append]
  rfl

/-- Four digits, however many of them `toString` writes. -/
theorem escapeUnit_eq (code : UInt16) :
    escapeUnit code = ['~', hexDigit (code.toNat / 0x1000), hexDigit (code.toNat / 0x100 % 16),
      hexDigit (code.toNat / 0x10 % 16), hexDigit (code.toNat % 16)] := by
  have hcode : code.toNat < 0x10000 := code.toNat_lt
  have hzero : hexDigit 0 = '0' := by decide
  rw [escapeUnit]
  generalize code.toNat = value at hcode ⊢
  by_cases hone : value < 16
  · have h1 : value / 0x1000 = 0 := by omega
    have h2 : value / 0x100 % 16 = 0 := by omega
    have h3 : value / 0x10 % 16 = 0 := by omega
    have h4 : value % 16 = value := by omega
    rw [toUpper_toDigits_of_lt hone, h1, h2, h3, h4, hzero]
    rfl
  rw [toUpper_toDigits_of_le (by omega)]
  by_cases htwo : value / 16 < 16
  · have h1 : value / 0x1000 = 0 := by omega
    have h2 : value / 0x100 % 16 = 0 := by omega
    have h3 : value / 0x10 % 16 = value / 16 := by omega
    rw [toUpper_toDigits_of_lt htwo, h1, h2, h3, hzero]
    rfl
  rw [toUpper_toDigits_of_le (by omega)]
  by_cases hthree : value / 16 / 16 < 16
  · have h1 : value / 0x1000 = 0 := by omega
    have h2 : value / 0x100 % 16 = value / 16 / 16 := by omega
    rw [toUpper_toDigits_of_lt hthree, h1, h2, hzero]
    rfl
  have hfour : value / 16 / 16 / 16 < 16 := by omega
  have h1 : value / 0x1000 = value / 16 / 16 / 16 := by omega
  have h2 : value / 0x100 % 16 = value / 16 / 16 % 16 := by omega
  rw [toUpper_toDigits_of_le (by omega), toUpper_toDigits_of_lt hfour, h1, h2]
  rfl

/-! ## Units -/

theorem plain_char (hplain : isPlainUnit code = true) :
    isSegmentChar (Char.ofNat code.toNat) = true ∧ Char.ofNat code.toNat ≠ '~' ∧
      (Char.ofNat code.toNat).toNat = code.toNat := by
  have hsmall : code.toNat < 0x80 := by
    simp only [isPlainUnit, Bool.or_eq_true, Bool.and_eq_true, decide_eq_true_eq,
      beq_iff_eq] at hplain
    omega
  have table : ∀ value : Fin 0x80, isPlainUnit (UInt16.ofNat value) = true →
      isSegmentChar (Char.ofNat value) = true ∧ Char.ofNat value ≠ '~' ∧
        (Char.ofNat value).toNat = value := by
    decide
  have h := table ⟨code.toNat, hsmall⟩
  rw [UInt16.ofNat_toNat] at h
  exact h hplain

theorem encodeUnit_cases (code : UInt16) :
    (isPlainUnit code = true ∧ encodeUnit code = [Char.ofNat code.toNat]) ∨
      encodeUnit code = escapeUnit code := by
  rw [encodeUnit]
  by_cases h : code.toNat ≠ 0x7E ∧ isPlainUnit code = true
  · exact Or.inl ⟨h.2, if_pos h⟩
  · exact Or.inr (if_neg h)

theorem isSegmentChar_of_mem {char : Char} (h : char ∈ encodeUnit code) :
    isSegmentChar char = true := by
  rcases encodeUnit_cases code with ⟨hplain, hunit⟩ | hunit
  · rw [hunit] at h
    rw [mem_singleton.mp h]
    exact (plain_char hplain).1
  · have hcode : code.toNat < 0x10000 := code.toNat_lt
    rw [hunit, escapeUnit_eq] at h
    simp only [mem_cons, not_mem_nil, or_false] at h
    rcases h with rfl | rfl | rfl | rfl | rfl
    · decide
    · exact isSegmentChar_hexDigit (by omega)
    · exact isSegmentChar_hexDigit (by omega)
    · exact isSegmentChar_hexDigit (by omega)
    · exact isSegmentChar_hexDigit (by omega)

theorem prefixCode_encodeUnit : PrefixCode encodeUnit := by
  constructor
  · intro code
    rcases encodeUnit_cases code with ⟨-, hunit⟩ | hunit
    · rw [hunit]
      exact cons_ne_nil _ _
    · rw [hunit]
      exact cons_ne_nil _ _
  · intro code other rest rest' h
    rcases encodeUnit_cases code with ⟨hplain, hunit⟩ | hunit
    · rcases encodeUnit_cases other with ⟨hplain', hunit'⟩ | hunit'
      · rw [hunit, hunit'] at h
        have hchars := congrArg Char.toNat (cons.inj h).1
        rw [(plain_char hplain).2.2, (plain_char hplain').2.2] at hchars
        exact UInt16.toNat_inj.mp hchars
      · rw [hunit, hunit'] at h
        exact absurd (cons.inj h).1 (plain_char hplain).2.1
    · rcases encodeUnit_cases other with ⟨hplain', hunit'⟩ | hunit'
      · rw [hunit, hunit'] at h
        exact absurd (cons.inj h).1.symm (plain_char hplain').2.1
      · have hcode : code.toNat < 0x10000 := code.toNat_lt
        have hother : other.toNat < 0x10000 := other.toNat_lt
        rw [hunit, hunit', escapeUnit_eq, escapeUnit_eq] at h
        simp only [cons_append, nil_append, cons.injEq, true_and] at h
        obtain ⟨h1, h2, h3, h4, -⟩ := h
        rw [hexDigit_inj (by omega) (by omega)] at h1 h2 h3 h4
        exact UInt16.toNat_inj.mp (by omega)

/-! ## Segments -/

theorem encodeSegment_eq_ok
    (h : encodeSegment raw = .ok segment) :
    raw ≠ [] ∧ ((raw = [0x2E] ∧ segment = escapeUnit 0x2E) ∨
      (raw = [0x2E, 0x2E] ∧ segment = escapeUnit 0x2E ++ escapeUnit 0x2E) ∨
      (raw ≠ [0x2E] ∧ raw ≠ [0x2E, 0x2E] ∧ segment = raw.flatMap encodeUnit)) := by
  rw [encodeSegment] at h
  split at h
  · cases h
  · rename_i hempty
    refine ⟨fun hnil => hempty (by rw [hnil]; rfl), ?_⟩
    split at h
    · rename_i hdot
      cases h
      exact Or.inl ⟨hdot, by rw [escapeUnit_eq]; decide⟩
    · split at h
      · rename_i hdots
        cases h
        exact Or.inr (Or.inl ⟨hdots, by rw [escapeUnit_eq]; decide⟩)
      · rename_i hdot hdots
        cases h
        exact Or.inr (Or.inr ⟨hdot, hdots, rfl⟩)

theorem flatMap_encodeUnit_ne_dot (raw : List UInt16) (rest : List Char) :
    raw.flatMap encodeUnit ≠ escapeUnit 0x2E ++ rest := by
  intro h
  cases raw with
  | nil => cases h
  | cons code raw =>
    rw [flatMap_cons] at h
    rcases encodeUnit_cases code with ⟨hplain, hunit⟩ | hunit
    · rw [hunit] at h
      exact (plain_char hplain).2.1 (cons.inj h).1
    · have hcode : code.toNat < 0x10000 := code.toNat_lt
      have hdot : code = 0x2E := by
        rw [hunit, escapeUnit_eq, escapeUnit_eq] at h
        simp only [cons_append, nil_append, cons.injEq, true_and] at h
        obtain ⟨h1, h2, h3, h4, -⟩ := h
        have hvalue : (0x2E : UInt16).toNat = 0x2E := rfl
        rw [hvalue, hexDigit_inj (by omega) (by omega)] at h1 h2 h3 h4
        exact UInt16.toNat_inj.mp (by omega)
      subst hdot
      have hself : encodeUnit 0x2E ≠ escapeUnit 0x2E := by
        rw [escapeUnit_eq]
        decide
      exact hself hunit

theorem encodeSegment_injective {other : List UInt16}
    (h : encodeSegment raw = .ok segment) (h' : encodeSegment other = .ok segment) :
    raw = other := by
  have hlength : (escapeUnit 0x2E).length ≠ (escapeUnit 0x2E ++ escapeUnit 0x2E).length := by
    rw [escapeUnit_eq]
    decide
  have hone : escapeUnit 0x2E = escapeUnit 0x2E ++ [] := (append_nil _).symm
  obtain ⟨-, ⟨rfl, hsegment⟩ | ⟨rfl, hsegment⟩ | ⟨-, -, hsegment⟩⟩ := encodeSegment_eq_ok h
  · obtain ⟨-, ⟨rfl, -⟩ | ⟨rfl, hsegment'⟩ | ⟨-, -, hsegment'⟩⟩ := encodeSegment_eq_ok h'
    · rfl
    · exact absurd (congrArg length (hsegment.symm.trans hsegment')) hlength
    · exact absurd ((hsegment'.symm.trans hsegment).trans hone) (flatMap_encodeUnit_ne_dot _ _)
  · obtain ⟨-, ⟨rfl, hsegment'⟩ | ⟨rfl, -⟩ | ⟨-, -, hsegment'⟩⟩ := encodeSegment_eq_ok h'
    · exact absurd (congrArg length (hsegment'.symm.trans hsegment)) hlength
    · rfl
    · exact absurd (hsegment'.symm.trans hsegment) (flatMap_encodeUnit_ne_dot _ _)
  · obtain ⟨-, ⟨rfl, hsegment'⟩ | ⟨rfl, hsegment'⟩ | ⟨-, -, hsegment'⟩⟩ := encodeSegment_eq_ok h'
    · exact absurd ((hsegment.symm.trans hsegment').trans hone) (flatMap_encodeUnit_ne_dot _ _)
    · exact absurd (hsegment.symm.trans hsegment') (flatMap_encodeUnit_ne_dot _ _)
    · exact prefixCode_encodeUnit.flatMap_injective (hsegment.symm.trans hsegment')

theorem encodeSegment_safe
    (h : encodeSegment raw = .ok segment) :
    segment ≠ [] ∧ segment ≠ ['.'] ∧ segment ≠ ['.', '.'] ∧
      ∀ char ∈ segment, isSegmentChar char = true := by
  have hdotChars : ∀ char ∈ escapeUnit 0x2E, isSegmentChar char = true := by
    rw [escapeUnit_eq]
    exact all_eq_true.mp (by decide)
  have hhead : ∀ rest : List Char, escapeUnit 0x2E ++ rest ≠ [] ∧
      escapeUnit 0x2E ++ rest ≠ ['.'] ∧ escapeUnit 0x2E ++ rest ≠ ['.', '.'] := by
    intro rest
    rw [escapeUnit_eq]
    refine ⟨cons_ne_nil _ _, ?_, ?_⟩
    · exact fun heq => absurd (cons.inj heq).1 (by decide)
    · exact fun heq => absurd (cons.inj heq).1 (by decide)
  obtain ⟨hnonempty, ⟨-, rfl⟩ | ⟨-, rfl⟩ | ⟨hdot, hdots, rfl⟩⟩ := encodeSegment_eq_ok h
  · obtain ⟨hnil, hone, htwo⟩ := hhead []
    rw [append_nil] at hnil hone htwo
    exact ⟨hnil, hone, htwo, hdotChars⟩
  · obtain ⟨hnil, hone, htwo⟩ := hhead (escapeUnit 0x2E)
    refine ⟨hnil, hone, htwo, ?_⟩
    intro char hmem
    exact (mem_append.mp hmem).elim (hdotChars char) (hdotChars char)
  · refine ⟨?_, ?_, ?_, ?_⟩
    · intro hnil
      exact hnonempty (prefixCode_encodeUnit.flatMap_injective (hnil.trans flatMap_nil.symm))
    · intro hone
      have hself : ['.'] = [(0x2E : UInt16)].flatMap encodeUnit := by decide
      exact hdot (prefixCode_encodeUnit.flatMap_injective (hone.trans hself))
    · intro htwo
      have hself : ['.', '.'] = [(0x2E : UInt16), 0x2E].flatMap encodeUnit := by decide
      exact hdots (prefixCode_encodeUnit.flatMap_injective (htwo.trans hself))
    · intro char hmem
      obtain ⟨code, -, hchar⟩ := mem_flatMap.mp hmem
      exact isSegmentChar_of_mem hchar

/-- Every string of code units but the empty one, which is refused, has a safe segment of its
own. -/
theorem encodeSegment_safe_and_injective :
    encodeSegment [] = .error "cannot encode an empty path segment" ∧
    (∀ raw, raw ≠ [] → ∃ segment, encodeSegment raw = .ok segment ∧ segment ≠ [] ∧
      segment ≠ ['.'] ∧ segment ≠ ['.', '.'] ∧
      ∀ char ∈ segment, char ≠ '/' ∧ char ≠ '\\' ∧ char ≠ ':' ∧ char ≠ '\x00') ∧
    ∀ raw other segment, encodeSegment raw = .ok segment → encodeSegment other = .ok segment →
      raw = other := by
  refine ⟨rfl, ?_, fun _ _ _ => encodeSegment_injective⟩
  intro raw hraw
  have hok : ∃ segment, encodeSegment raw = .ok segment := by
    have hlength : ¬ raw.length = 0 := fun h => hraw (length_eq_zero_iff.mp h)
    rw [encodeSegment, if_neg hlength]
    split
    · exact ⟨_, rfl⟩
    · split
      · exact ⟨_, rfl⟩
      · exact ⟨_, rfl⟩
  obtain ⟨segment, hsegment⟩ := hok
  obtain ⟨hnil, hone, htwo, hchars⟩ := encodeSegment_safe hsegment
  refine ⟨segment, hsegment, hnil, hone, htwo, ?_⟩
  intro char hmem
  have hchar := hchars char hmem
  refine ⟨?_, ?_, ?_, ?_⟩
  · rintro rfl
    revert hchar
    decide
  · rintro rfl
    revert hchar
    decide
  · rintro rfl
    revert hchar
    decide
  · rintro rfl
    revert hchar
    decide

/-- The empty string has no segment. -/
theorem encodeSegment_empty_fails : ¬ ∀ raw, ∃ segment, encodeSegment raw = .ok segment := by
  intro h
  obtain ⟨segment, hsegment⟩ := h []
  cases hsegment

end DshKernel.Jsonl
