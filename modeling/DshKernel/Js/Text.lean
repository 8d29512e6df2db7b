import Mathlib.Algebra.Ring.Nat
import Mathlib.Data.List.DropRight

/-!
# Text as JavaScript handles it

White space as regular expressions and `trim` see it, and the length in bytes.
-/

namespace DshKernel.Js

def inRange (low high : Nat) (char : Char) : Bool := low ≤ char.toNat && char.toNat ≤ high

/-- `\s` -/
def isWhitespace (char : Char) : Bool :=
  inRange 0x09 0x0D char || char.toNat == 0x20 || char.toNat == 0xA0 || char.toNat == 0x1680 ||
    inRange 0x2000 0x200A char || inRange 0x2028 0x2029 char || char.toNat == 0x202F ||
    char.toNat == 0x205F || char.toNat == 0x3000 || char.toNat == 0xFEFF

/-- `replace(/\s+/gu, ' ')`, after whitespace or not. -/
def collapseWhitespace : Bool → List Char → List Char
  | _, [] => []
  | after, char :: rest =>
    if isWhitespace char then
      if after then collapseWhitespace true rest else ' ' :: collapseWhitespace true rest
    else char :: collapseWhitespace false rest

def trimEnd (text : List Char) : List Char := text.rdropWhile isWhitespace

def trim (text : List Char) : List Char := trimEnd (text.dropWhile isWhitespace)

theorem trim_trim (text : List Char) : trim (trim text) = trim text := by
  have hdrop : (trim text).dropWhile isWhitespace = trim text := by
    apply List.dropWhile_eq_self_iff.mpr
    intro hpos
    have hfront : trim text <+: text.dropWhile isWhitespace := List.rdropWhile_prefix isWhitespace _
    have hlength := hfront.length_le
    have hhead := List.dropWhile_get_zero_not isWhitespace text (by omega)
    rw [hfront.getElem hpos]
    exact hhead
  rw [trim, hdrop, trim, trimEnd, trimEnd, List.rdropWhile_idempotent]

def byteLength (text : List Char) : Nat := (text.map Char.utf8Size).sum

end DshKernel.Js
