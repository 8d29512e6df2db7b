import DshKernel.Js.Text

/-!
# UTF-8 as `TextEncoder` and `TextDecoder` handle it

The decoder is the one of the Encoding Standard: one byte at a time, with the bytes still needed
and the bounds of the next one.
-/

namespace DshKernel.Js

open UInt8

set_option maxRecDepth 4096

/-- `new TextEncoder().encode(text)` -/
def encodeText (text : List Char) : List UInt8 := text.flatMap String.utf8EncodeChar

def replacementCharacter : Char := '\uFFFD'

def byteOrderMark : Char := '\uFEFF'

structure PartialCharacter where
  needed : Nat
  lowerBoundary : Nat
  upperBoundary : Nat
  codePoint : Nat
  deriving DecidableEq, Repr

def decodeLead (byte : Nat) : Option PartialCharacter × List Char :=
  if byte ≤ 0x7f then (none, [Char.ofNat byte])
  else if 0xc2 ≤ byte ∧ byte ≤ 0xdf then (some ⟨1, 0x80, 0xbf, byte % 0x20⟩, [])
  else if 0xe0 ≤ byte ∧ byte ≤ 0xef then
    (some ⟨2, if byte = 0xe0 then 0xa0 else 0x80, if byte = 0xed then 0x9f else 0xbf,
      byte % 0x10⟩, [])
  else if 0xf0 ≤ byte ∧ byte ≤ 0xf4 then
    (some ⟨3, if byte = 0xf0 then 0x90 else 0x80, if byte = 0xf4 then 0x8f else 0xbf,
      byte % 0x08⟩, [])
  else (none, [replacementCharacter])

def decodeByte : Option PartialCharacter → Nat → Option PartialCharacter × List Char
  | none, byte => decodeLead byte
  | some char, byte =>
    if char.lowerBoundary ≤ byte ∧ byte ≤ char.upperBoundary then
      let codePoint := char.codePoint * 0x40 + byte % 0x40
      if char.needed = 1 then (none, [Char.ofNat codePoint])
      else (some ⟨char.needed - 1, 0x80, 0xbf, codePoint⟩, [])
    else ((decodeLead byte).1, replacementCharacter :: (decodeLead byte).2)

def decodeBytes : Option PartialCharacter → List UInt8 → List Char
  | none, [] => []
  | some _, [] => [replacementCharacter]
  | char, byte :: rest =>
    (decodeByte char byte.toNat).2 ++ decodeBytes (decodeByte char byte.toNat).1 rest

def dropByteOrderMark : List Char → List Char
  | [] => []
  | char :: rest => if char = byteOrderMark then rest else char :: rest

/-- `new TextDecoder().decode(bytes)` -/
def decodeText (bytes : List UInt8) : List Char := dropByteOrderMark (decodeBytes none bytes)

/-- `(byte & 0xc0) === 0x80` -/
def isContinuation (byte : UInt8) : Bool := byte &&& 0xc0 == 0x80

@[simp] theorem encodeText_nil : encodeText [] = [] := rfl

@[simp] theorem encodeText_cons (char : Char) (text : List Char) :
    encodeText (char :: text) = String.utf8EncodeChar char ++ encodeText text := rfl

@[simp] theorem encodeText_append (left right : List Char) :
    encodeText (left ++ right) = encodeText left ++ encodeText right := by
  simp [encodeText]

theorem length_encodeText (text : List Char) : (encodeText text).length = byteLength text := by
  induction text with
  | nil => rfl
  | cons char text ih => simp [byteLength, ih]

/-! ## The bytes of one character -/

theorem isContinuation_iff (byte : UInt8) :
    isContinuation byte = true ↔ 0x80 ≤ byte.toNat ∧ byte.toNat < 0xc0 := by
  have table : ∀ value : Fin 256, isContinuation (ofNat value) = true ↔
      0x80 ≤ value.val ∧ value.val < 0xc0 := by decide
  have this := table ⟨byte.toNat, byte.toNat_lt⟩
  simpa using this

variable {codePoint lower upper value : Nat}

theorem toNat_ofNat_lt (h : value < 256) : (ofNat value).toNat = value := by
  simp [Nat.mod_eq_of_lt h]

theorem utf8EncodeChar_cases (char : Char) :
    (char.toNat < 0x80 ∧ String.utf8EncodeChar char = [ofNat char.toNat]) ∨
    (0x80 ≤ char.toNat ∧ char.toNat < 0x800 ∧ String.utf8EncodeChar char =
      [ofNat (0xc0 + char.toNat / 0x40), ofNat (0x80 + char.toNat % 0x40)]) ∨
    (0x800 ≤ char.toNat ∧ char.toNat < 0x10000 ∧ (char.toNat < 0xd800 ∨ 0xdfff < char.toNat) ∧
      String.utf8EncodeChar char =
        [ofNat (0xe0 + char.toNat / 0x1000), ofNat (0x80 + char.toNat / 0x40 % 0x40),
          ofNat (0x80 + char.toNat % 0x40)]) ∨
    (0x10000 ≤ char.toNat ∧ char.toNat < 0x110000 ∧ String.utf8EncodeChar char =
        [ofNat (0xf0 + char.toNat / 0x40000),
          ofNat (0x80 + char.toNat / 0x1000 % 0x40),
          ofNat (0x80 + char.toNat / 0x40 % 0x40),
          ofNat (0x80 + char.toNat % 0x40)]) := by
  have hvalid : char.toNat < 0xd800 ∨ 0xdfff < char.toNat ∧ char.toNat < 0x110000 := char.valid
  have htoNat : char.val.toNat = char.toNat := rfl
  fun_cases String.utf8EncodeChar char with
  | case1 value hone => exact Or.inl ⟨by omega, rfl⟩
  | case2 value hone htwo =>
    refine Or.inr (Or.inl ⟨by omega, by omega, ?_⟩)
    have hlead : value / 64 % 0x20 + 0xc0 = 0xc0 + char.toNat / 0x40 := by omega
    have hlast : value % 0x40 + 0x80 = 0x80 + char.toNat % 0x40 := by omega
    rw [hlead, hlast]
  | case3 value hone htwo hthree =>
    refine Or.inr (Or.inr (Or.inl ⟨by omega, by omega, by omega, ?_⟩))
    have hlead : value / 4096 % 0x10 + 0xe0 = 0xe0 + char.toNat / 0x1000 := by omega
    have hnext : value / 64 % 0x40 + 0x80 = 0x80 + char.toNat / 0x40 % 0x40 := by omega
    have hlast : value % 0x40 + 0x80 = 0x80 + char.toNat % 0x40 := by omega
    rw [hlead, hnext, hlast]
  | case4 value hone htwo hthree =>
    refine Or.inr (Or.inr (Or.inr ⟨by omega, by omega, ?_⟩))
    have hlead : value / 262144 % 0x08 + 0xf0 = 0xf0 + char.toNat / 0x40000 := by omega
    have hnext : value / 4096 % 0x40 + 0x80 = 0x80 + char.toNat / 0x1000 % 0x40 := by omega
    have hthird : value / 64 % 0x40 + 0x80 = 0x80 + char.toNat / 0x40 % 0x40 := by omega
    have hlast : value % 0x40 + 0x80 = 0x80 + char.toNat % 0x40 := by omega
    rw [hlead, hnext, hthird, hlast]

theorem isContinuation_ofNat (h : value < 0x40) :
    isContinuation (ofNat (0x80 + value)) = true := by
  rw [isContinuation_iff, toNat_ofNat_lt (by omega)]
  omega

/-! ## Decoding what was encoded -/

theorem decodeBytes_cons {char after : Option PartialCharacter} {byte : UInt8} {text : List Char}
    (h : decodeByte char byte.toNat = (after, text)) (rest : List UInt8) :
    decodeBytes char (byte :: rest) = text ++ decodeBytes after rest := by
  rw [decodeBytes, h]

theorem decodeByte_next {needed : Nat} (h : value < 0x40)
    (hlower : lower ≤ 0x80 + value) (hupper : 0x80 + value ≤ upper) :
    decodeByte (some ⟨needed + 2, lower, upper, codePoint⟩) (ofNat (0x80 + value)).toNat =
      (some ⟨needed + 1, 0x80, 0xbf, codePoint * 0x40 + value⟩, []) := by
  have hvalue : (0x80 + value) % 0x40 = value := by omega
  have hneeded : ¬ needed + 2 = 1 := by omega
  rw [toNat_ofNat_lt (by omega), decodeByte, if_pos ⟨hlower, hupper⟩, hvalue]
  exact if_neg hneeded

theorem decodeByte_last {char : Char} (h : value < 0x40)
    (hlower : lower ≤ 0x80 + value) (hupper : 0x80 + value ≤ upper)
    (hchar : codePoint * 0x40 + value = char.toNat) :
    decodeByte (some ⟨1, lower, upper, codePoint⟩) (ofNat (0x80 + value)).toNat =
      (none, [char]) := by
  have hvalue : (0x80 + value) % 0x40 = value := by omega
  rw [toNat_ofNat_lt (by omega), decodeByte, if_pos ⟨hlower, hupper⟩, hvalue, if_pos rfl, hchar,
    Char.ofNat_toNat]

theorem decodeBytes_utf8EncodeChar (char : Char) (rest : List UInt8) :
    decodeBytes none (String.utf8EncodeChar char ++ rest) = char :: decodeBytes none rest := by
  rcases utf8EncodeChar_cases char with ⟨hone, hbytes⟩ | ⟨hlow, hhigh, hbytes⟩ |
    ⟨hlow, hhigh, hscalar, hbytes⟩ | ⟨hlow, hhigh, hbytes⟩
  · have hlead : decodeByte none (ofNat char.toNat).toNat = (none, [char]) := by
      rw [toNat_ofNat_lt (by omega), decodeByte, decodeLead, if_pos (by omega), Char.ofNat_toNat]
    rw [hbytes]
    exact decodeBytes_cons hlead rest
  · have hlead : decodeByte none (ofNat (0xc0 + char.toNat / 0x40)).toNat =
        (some ⟨1, 0x80, 0xbf, char.toNat / 0x40⟩, []) := by
      have hbits : (0xc0 + char.toNat / 0x40) % 0x20 = char.toNat / 0x40 := by omega
      rw [toNat_ofNat_lt (by omega), decodeByte, decodeLead, if_neg (by omega),
        if_pos (by omega), hbits]
    rw [hbytes]
    refine (decodeBytes_cons hlead _).trans ?_
    refine decodeBytes_cons (decodeByte_last ?_ ?_ ?_ ?_) rest <;> omega
  · have hlead : decodeByte none (ofNat (0xe0 + char.toNat / 0x1000)).toNat =
        (some ⟨2, if 0xe0 + char.toNat / 0x1000 = 0xe0 then 0xa0 else 0x80,
          if 0xe0 + char.toNat / 0x1000 = 0xed then 0x9f else 0xbf, char.toNat / 0x1000⟩, []) := by
      have hbits : (0xe0 + char.toNat / 0x1000) % 0x10 = char.toNat / 0x1000 := by omega
      rw [toNat_ofNat_lt (by omega), decodeByte, decodeLead, if_neg (by omega),
        if_neg (by omega), if_pos (by omega), hbits]
    rw [hbytes]
    refine (decodeBytes_cons hlead _).trans ?_
    -- the bounds of the second byte leave out what is too short and the surrogates
    refine (decodeBytes_cons (decodeByte_next ?_ ?_ ?_) _).trans ?_
    · omega
    · split <;> omega
    · split <;> omega
    refine decodeBytes_cons (decodeByte_last ?_ ?_ ?_ ?_) rest <;> omega
  · have hlead : decodeByte none (ofNat (0xf0 + char.toNat / 0x40000)).toNat =
        (some ⟨3, if 0xf0 + char.toNat / 0x40000 = 0xf0 then 0x90 else 0x80,
          if 0xf0 + char.toNat / 0x40000 = 0xf4 then 0x8f else 0xbf,
          char.toNat / 0x40000⟩, []) := by
      have hbits : (0xf0 + char.toNat / 0x40000) % 0x08 = char.toNat / 0x40000 := by omega
      rw [toNat_ofNat_lt (by omega), decodeByte, decodeLead, if_neg (by omega),
        if_neg (by omega), if_neg (by omega), if_pos (by omega), hbits]
    rw [hbytes]
    refine (decodeBytes_cons hlead _).trans ?_
    -- the bounds of the second byte leave out what is too short and what is past the last plane
    refine (decodeBytes_cons (decodeByte_next ?_ ?_ ?_) _).trans ?_
    · omega
    · split <;> omega
    · split <;> omega
    refine (decodeBytes_cons (decodeByte_next ?_ ?_ ?_) _).trans ?_
    · omega
    · omega
    · omega
    refine decodeBytes_cons (decodeByte_last ?_ ?_ ?_ ?_) rest <;> omega

theorem decodeBytes_encodeText_append (text : List Char) (rest : List UInt8) :
    decodeBytes none (encodeText text ++ rest) = text ++ decodeBytes none rest := by
  induction text with
  | nil => rfl
  | cons char text ih =>
    rw [encodeText_cons, List.append_assoc, decodeBytes_utf8EncodeChar, ih, List.cons_append]

theorem decodeBytes_encodeText (text : List Char) : decodeBytes none (encodeText text) = text := by
  have h := decodeBytes_encodeText_append text []
  rwa [List.append_nil, decodeBytes, List.append_nil] at h

theorem decodeText_encodeText (text : List Char) :
    decodeText (encodeText text) = dropByteOrderMark text := by
  rw [decodeText, decodeBytes_encodeText]

end DshKernel.Js
