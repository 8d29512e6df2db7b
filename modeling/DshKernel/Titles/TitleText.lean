import DshKernel.Js.Text

/-!
# The text of titles

A title is cleaned of control sequences, put on one line and cut to a budget of bytes.
-/

namespace DshKernel.Titles

open Js

section Matches

/-- `replace(PATTERN, '')`, for the length of the match at a position, or zero. -/
def removeMatches (matchLength : List Char → Nat) : Nat → List Char → List Char
  | _, [] => []
  | skip + 1, _ :: rest => removeMatches matchLength skip rest
  | 0, char :: rest =>
    match matchLength (char :: rest) with
    | 0 => char :: removeMatches matchLength 0 rest
    | length + 1 => removeMatches matchLength length rest

def oscBody : List Char → Nat
  | [] => 0
  | '\u0007' :: _ => 1
  | '\u001B' :: '\\' :: _ => 2
  | _ :: rest => oscBody rest + 1

/-- `OSC_SEQUENCE` -/
def oscSequence : List Char → Nat
  | '\u001B' :: ']' :: rest => oscBody rest + 2
  | '\u009D' :: rest => oscBody rest + 1
  | _ => 0

def csiBody (text : List Char) : Option Nat :=
  let parameters := text.takeWhile (inRange 0x30 0x3F)
  let intermediates := (text.drop parameters.length).takeWhile (inRange 0x20 0x2F)
  let length := parameters.length + intermediates.length
  match text.drop length with
  | final :: _ => if inRange 0x40 0x7E final then some (length + 1) else none
  | [] => none

/-- `CSI_SEQUENCE` -/
def csiSequence : List Char → Nat
  | '\u001B' :: '[' :: rest => ((csiBody rest).map (· + 2)).getD 0
  | '\u009B' :: rest => ((csiBody rest).map (· + 1)).getD 0
  | _ => 0

/-- `ESC_SEQUENCE` -/
def escSequence : List Char → Nat
  | '\u001B' :: final :: _ => if inRange 0x40 0x5F final then 2 else 0
  | _ => 0

/-- `CONTROL_CHARACTER` -/
def isControlCharacter (char : Char) : Bool :=
  inRange 0x00 0x08 char || inRange 0x0B 0x0C char || inRange 0x0E 0x1F char || inRange 0x7F 0x9F char

/-- `DIRECTIONAL_CONTROL` -/
def isDirectionalControl (char : Char) : Bool :=
  char.toNat == 0x200B || inRange 0x200E 0x200F char || inRange 0x202A 0x202E char ||
    inRange 0x2060 0x2064 char || inRange 0x2066 0x206F char || char.toNat == 0xFEFF

end Matches

section Titles

def cleanTitleText (input : String) : List Char :=
  let text := removeMatches oscSequence 0 input.toList
  let text := removeMatches csiSequence 0 text
  let text := removeMatches escSequence 0 text
  let text := text.filter fun char => !isControlCharacter char
  let text := text.filter fun char => !isDirectionalControl char
  trim (collapseWhitespace false text)

def truncateTitleUtf8 (maxBytes : Nat) : List Char → List Char
  | [] => []
  | char :: rest =>
    if char.utf8Size ≤ maxBytes then char :: truncateTitleUtf8 (maxBytes - char.utf8Size) rest else []

def normalizeSessionTitle (input : String) (maxBytes : Nat) : String :=
  String.ofList (trimEnd (truncateTitleUtf8 maxBytes (cleanTitleText input)))

/-- `split(' ').filter(Boolean)`, with the characters of the word that is being read. -/
def splitWords : List Char → List Char → List (List Char)
  | word, [] => if word = [] then [] else [word]
  | word, char :: rest =>
    if char = ' ' then (if word = [] then [] else [word]) ++ splitWords [] rest
    else splitWords (word ++ [char]) rest

def fallbackSessionTitle (input : String) (maxWords maxBytes : Nat) : String :=
  let words := (splitWords [] (cleanTitleText input)).take maxWords
  String.ofList (trimEnd (truncateTitleUtf8 maxBytes ([' '].intercalate words)))

end Titles

example : normalizeSessionTitle "\u001B[31m a \u200B b\n" 3 = "a b" := by decide

end DshKernel.Titles
