import DshKernel.SessionQuery.SearchEngine

/-!
# Snippets

The text of a document with its matches marked is folded to single spaces, and a window of it
around the first match is shown.
-/

namespace DshKernel.SessionQuery

open Js Lib List

section Folding

variable {text : MarkedText} {markedText : List Char} {character : Char}

def isMarker (character : Char) : Bool :=
  character == ftsHighlightStart || character == ftsHighlightEnd

def plainText (markedText : List Char) : List Char :=
  collapseWhitespace false (trim (markedText.filter fun character => !isMarker character))

def MarkedText.afterSpace (text : MarkedText) : Bool :=
  text.characters == [] || text.characters.getLast? == some ' '

def dropLastSpace (characters : List Char) : List Char :=
  if characters.getLast? = some ' ' then characters.dropLast else characters

theorem not_isSpace_of_not_isWhitespace (h : isWhitespace character = false) : character ≠ ' ' := by
  rintro rfl
  simp [isWhitespace] at h

theorem read_of_isMarker (h : isMarker character) :
    (text.read character).characters = text.characters := by
  simp only [isMarker, Bool.or_eq_true, beq_iff_eq] at h
  unfold MarkedText.read
  by_cases hstart : character = ftsHighlightStart
  · simp [hstart]
  · have hend := h.resolve_left hstart
    rw [if_neg hstart, if_pos hend]

theorem read_of_not_isWhitespace (hmarker : isMarker character = false)
    (hspace : isWhitespace character = false) :
    text.read character = { text with characters := text.characters ++ [character] } := by
  simp only [isMarker, Bool.or_eq_false_iff, beq_eq_false_iff_ne] at hmarker
  simp [MarkedText.read, hmarker.1, hmarker.2, hspace]

theorem read_of_isWhitespace (hmarker : isMarker character = false)
    (hspace : isWhitespace character) :
    (text.read character).characters = text.characters ++ (if text.afterSpace then [] else [' ']) := by
  simp only [isMarker, Bool.or_eq_false_iff, beq_eq_false_iff_ne] at hmarker
  unfold MarkedText.read
  rw [if_neg hmarker.1, if_neg hmarker.2, if_pos hspace]
  by_cases hafter : text.afterSpace
  · have hdrop : ¬(text.characters ≠ [] ∧ text.characters.getLast? ≠ some ' ') := by
      simp only [MarkedText.afterSpace, Bool.or_eq_true, beq_iff_eq] at hafter
      rintro ⟨hne, hlast⟩
      exact hafter.elim hne hlast
    rw [if_neg hdrop, if_pos hafter, append_nil]
  · have hkeep : text.characters ≠ [] ∧ text.characters.getLast? ≠ some ' ' := by
      simpa [MarkedText.afterSpace] using hafter
    rw [if_pos hkeep, if_neg hafter]

theorem foldl_read_characters (markedText : List Char) (text : MarkedText) :
    (markedText.foldl MarkedText.read text).characters =
      text.characters ++ collapseWhitespace text.afterSpace
        (markedText.filter fun character => !isMarker character) := by
  induction markedText generalizing text with
  | nil => simp [collapseWhitespace]
  | cons character rest ih =>
    rw [foldl_cons, ih]
    by_cases hmarker : isMarker character
    · have hkept := @read_of_isMarker text _ hmarker
      rw [filter_cons_of_neg (by simp [hmarker]), hkept, MarkedText.afterSpace, hkept]
      rfl
    · have hmarker' : isMarker character = false := by simpa using hmarker
      rw [filter_cons_of_pos (by simp [hmarker])]
      by_cases hspace : isWhitespace character
      · have hread := @read_of_isWhitespace text _ hmarker' hspace
        by_cases hafter : text.afterSpace
        · rw [if_pos hafter, append_nil] at hread
          have hsame : (text.read character).afterSpace = true := by
            rw [MarkedText.afterSpace, hread]
            exact hafter
          rw [hread, hsame, hafter, collapseWhitespace, if_pos hspace, if_pos rfl]
        · rw [if_neg hafter] at hread
          have hnow : (text.read character).afterSpace = true := by
            simp [MarkedText.afterSpace, hread]
          rw [hread, hnow, collapseWhitespace, if_pos hspace, if_neg hafter, append_assoc,
            singleton_append]
      · have hspace' : isWhitespace character = false := by simpa using hspace
        have hread := @read_of_not_isWhitespace text _ hmarker' hspace'
        have hnow : (text.read character).afterSpace = false := by
          simp [MarkedText.afterSpace, hread, not_isSpace_of_not_isWhitespace hspace']
        rw [hnow, hread, collapseWhitespace, if_neg hspace, append_assoc,
          singleton_append]

theorem trimEnd_cons (character : Char) (rest : List Char) :
    trimEnd (character :: rest) =
      if trimEnd rest = [] then (if isWhitespace character then [] else [character])
      else character :: trimEnd rest := by
  unfold trimEnd rdropWhile
  rw [reverse_cons, dropWhile_append]
  by_cases hempty : rest.reverse.dropWhile isWhitespace = []
  · simp only [hempty, isEmpty_nil, if_true, reverse_nil]
    by_cases hspace : isWhitespace character <;> simp [hspace]
  · simp [hempty]

theorem collapseWhitespace_eq_nil (rest : List Char) :
    collapseWhitespace true rest = [] ↔ trimEnd rest = [] := by
  induction rest with
  | nil => simp [collapseWhitespace, trimEnd]
  | cons character rest ih =>
    rw [collapseWhitespace, trimEnd_cons]
    by_cases hspace : isWhitespace character
    · by_cases hrest : trimEnd rest = []
      · simp [hspace, hrest, ih]
      · simp [hspace, hrest, ih]
    · by_cases hrest : trimEnd rest = [] <;> simp [hspace, hrest]

theorem dropLastSpace_cons {rest : List Char} (hne : rest ≠ []) :
    dropLastSpace (character :: rest) = character :: dropLastSpace rest := by
  have hlast : (character :: rest).getLast? = rest.getLast? := by
    rw [getLast?_cons, getLast?_eq_some_getLast hne, Option.getD_some]
  rw [dropLastSpace, dropLastSpace, hlast, dropLast_cons_of_ne_nil hne]
  split <;> rfl

theorem dropLastSpace_collapseWhitespace (after : Bool) (rest : List Char) :
    dropLastSpace (collapseWhitespace after rest) = collapseWhitespace after (trimEnd rest) := by
  induction rest generalizing after with
  | nil => simp [collapseWhitespace, trimEnd, dropLastSpace]
  | cons character rest ih =>
    rw [collapseWhitespace, trimEnd_cons]
    by_cases hspace : isWhitespace character
    · by_cases hrest : trimEnd rest = []
      · have hcollapsed := (collapseWhitespace_eq_nil rest).mpr hrest
        cases after <;> simp [hspace, hrest, hcollapsed, dropLastSpace, collapseWhitespace]
      · have hcollapsed := mt (collapseWhitespace_eq_nil rest).mp hrest
        rw [if_pos hspace, if_neg hrest, collapseWhitespace, if_pos hspace]
        cases after with
        | true => exact ih true
        | false =>
          rw [if_neg Bool.false_ne_true, if_neg Bool.false_ne_true, dropLastSpace_cons hcollapsed,
            ih]
    · rw [if_neg hspace]
      have hspace' : isWhitespace character = false := by simpa using hspace
      have hne := not_isSpace_of_not_isWhitespace hspace'
      by_cases hrest : collapseWhitespace false rest = []
      · have hnil : rest = [] := by
          cases rest with
          | nil => rfl
          | cons next rest =>
            rw [collapseWhitespace] at hrest
            by_cases hnext : isWhitespace next <;> simp [hnext] at hrest
        subst hnil
        simp [collapseWhitespace, dropLastSpace, trimEnd, hspace', hne]
      · rw [dropLastSpace_cons hrest, ih]
        by_cases hend : trimEnd rest = []
        · simp [hend, hspace, collapseWhitespace]
        · rw [if_neg hend, collapseWhitespace, if_neg hspace]

theorem collapseWhitespace_dropWhile (rest : List Char) :
    collapseWhitespace true rest = collapseWhitespace false (rest.dropWhile isWhitespace) := by
  induction rest with
  | nil => simp [collapseWhitespace]
  | cons character rest ih =>
    by_cases hspace : isWhitespace character
    · rw [collapseWhitespace, if_pos hspace, if_pos rfl, ih, dropWhile_cons_of_pos hspace]
    · rw [dropWhile_cons_of_neg hspace, collapseWhitespace, collapseWhitespace,
        if_neg hspace, if_neg hspace]

theorem normalizeMarkedText_eq (markedText : List Char) :
    normalizeMarkedText markedText =
      ⟨dropLastSpace (markedText.foldl MarkedText.read {}).characters,
        (markedText.foldl MarkedText.read {}).matchStart⟩ := by
  simp only [normalizeMarkedText, dropLastSpace]
  split <;> rfl

theorem normalizeMarkedText_characters (markedText : List Char) :
    (normalizeMarkedText markedText).characters = plainText markedText := by
  rw [normalizeMarkedText_eq]
  have hread := foldl_read_characters markedText {}
  have hempty : (({} : MarkedText).characters) = [] := rfl
  have hafter : ({} : MarkedText).afterSpace = true := rfl
  rw [hempty, hafter, nil_append] at hread
  simp only [hread]
  rw [collapseWhitespace_dropWhile, dropLastSpace_collapseWhitespace]
  rfl

theorem prefix_foldl_read (markedText : List Char) (text : MarkedText) :
    text.characters <+: (markedText.foldl MarkedText.read text).characters := by
  rw [foldl_read_characters]
  exact prefix_append _ _

theorem foldl_read_matchStart_some {position : Nat} (h : text.matchStart = some position) :
    (markedText.foldl MarkedText.read text).matchStart = some position := by
  induction markedText generalizing text with
  | nil => exact h
  | cons character rest ih =>
    apply ih
    unfold MarkedText.read
    split
    · simp [h]
    · split
      · exact h
      · split
        · split <;> exact h
        · exact h

theorem foldl_read_matchStart_none (hstart : ftsHighlightStart ∉ markedText)
    (h : text.matchStart = none) : (markedText.foldl MarkedText.read text).matchStart = none := by
  induction markedText generalizing text with
  | nil => exact h
  | cons character rest ih =>
    rw [mem_cons, not_or] at hstart
    apply ih hstart.2
    unfold MarkedText.read
    rw [if_neg (Ne.symm hstart.1)]
    split
    · exact h
    · split
      · split <;> exact h
      · exact h

structure FirstMatch (markedText shown : List Char) (character : Char) (rest : List Char) :
    Prop where
  characters : (normalizeMarkedText markedText).characters = shown ++ character :: rest
  matchStart : (normalizeMarkedText markedText).matchStart = some shown.length

theorem firstMatch {before after : List Char} (hstart : ftsHighlightStart ∉ before)
    (hmarker : isMarker character = false) (hspace : isWhitespace character = false) :
    ∃ rest, FirstMatch (before ++ ftsHighlightStart :: character :: after)
      (before.foldl MarkedText.read {}).characters character rest := by
  have hnone : (before.foldl MarkedText.read {}).matchStart = none :=
    foldl_read_matchStart_none hstart rfl
  generalize hshown : before.foldl MarkedText.read {} = shown at hnone
  have hopen : shown.read ftsHighlightStart =
      { shown with matchStart := some shown.characters.length } := by
    rw [MarkedText.read, if_pos rfl, hnone]
    rfl
  have hread := @read_of_not_isWhitespace (shown.read ftsHighlightStart) _ hmarker hspace
  rw [hopen] at hread
  obtain ⟨rest, hrest⟩ := prefix_foldl_read after
    ((shown.read ftsHighlightStart).read character)
  have hmatch : (after.foldl MarkedText.read
      ((shown.read ftsHighlightStart).read character)).matchStart =
      some shown.characters.length := by
    apply foldl_read_matchStart_some
    rw [hopen, hread]
  have hcharacters : (after.foldl MarkedText.read
      ((shown.read ftsHighlightStart).read character)).characters =
      shown.characters ++ character :: rest := by
    rw [← hrest, hopen, hread]
    simp
  have hall : normalizeMarkedText (before ++ ftsHighlightStart :: character :: after) =
      ⟨dropLastSpace (shown.characters ++ character :: rest), some shown.characters.length⟩ := by
    rw [normalizeMarkedText_eq, foldl_append, hshown, foldl_cons, foldl_cons,
      hcharacters, hmatch]
  have hne := not_isSpace_of_not_isWhitespace hspace
  by_cases hlast : (shown.characters ++ character :: rest).getLast? = some ' '
  · have hrest' : rest ≠ [] := by
      rintro rfl
      simp [hne] at hlast
    have hdropped : dropLastSpace (shown.characters ++ character :: rest) =
        shown.characters ++ character :: rest.dropLast := by
      rw [dropLastSpace, if_pos hlast, dropLast_append_of_ne_nil (cons_ne_nil _ _),
        dropLast_cons_of_ne_nil hrest']
    exact ⟨rest.dropLast, by rw [hall, hdropped], by rw [hall]⟩
  · exact ⟨rest, by rw [hall, dropLastSpace, if_neg hlast], by rw [hall]⟩

end Folding

section Windows

variable {characters : List Char} {start stop : Nat}

/-- `…` where text is left out. -/
def ellipsis (leftOut : Bool) : List Char := if leftOut then ['…'] else []

/-- The characters from `start` up to `stop`, between ellipses where asked for. -/
def excerpt (characters : List Char) (start stop : Nat) (lead trail : Bool) : List Char :=
  ellipsis lead ++ (characters.drop start).take (stop - start) ++ ellipsis trail

theorem length_ellipsis (leftOut : Bool) : (ellipsis leftOut).length = leftOut.toNat := by
  cases leftOut <;> rfl

theorem length_excerpt (hle : start ≤ stop) (hstop : stop ≤ characters.length) (lead trail : Bool) :
    (excerpt characters start stop lead trail).length =
      lead.toNat + (stop - start) + trail.toNat := by
  simp only [excerpt, length_append, length_ellipsis, length_take, length_drop]
  omega

/-- The window that a snippet of at most `maxChars` characters shows: where it starts and stops. -/
structure Shows (characters snippet : List Char) (maxChars start stop : Nat) : Prop where
  start_le : start ≤ stop
  stop_le : stop ≤ characters.length
  eq_excerpt : snippet = excerpt characters start stop (0 < start)
    (stop < characters.length && (2 < maxChars || start == 0))
  fits : snippet.length ≤ maxChars

theorem makeSnippet_shows (markedText : List Char) {maxChars : Nat} (hmax : 2 ≤ maxChars) :
    ∃ start stop, Shows (plainText markedText) (makeSnippet markedText maxChars) maxChars start stop ∧
      (plainText markedText ≠ [] →
        start ≤ min ((normalizeMarkedText markedText).matchStart.getD 0)
          ((plainText markedText).length - 1) ∧
        min ((normalizeMarkedText markedText).matchStart.getD 0)
          ((plainText markedText).length - 1) < stop) := by
  rw [makeSnippet, normalizeMarkedText_characters]
  generalize plainText markedText = characters
  generalize (normalizeMarkedText markedText).matchStart.getD 0 = matchStart
  by_cases hshort : characters.length ≤ maxChars
  · refine ⟨0, characters.length, ⟨Nat.zero_le _, Nat.le_refl _, ?_, ?_⟩, ?_⟩
    · simp [hshort, excerpt, ellipsis]
    · simp [hshort]
    · intro hne
      have hpos := length_pos_iff.mpr hne
      omega
  · simp only [hshort, if_false]
    rw [if_neg (by omega)]
    generalize hmatched : min matchStart (characters.length - 1) = matched
    by_cases hlead : matched - maxChars / 3 > 0
    · simp only [hlead, if_true, length_singleton]
      generalize hbranch : (if maxChars - 1 - 1 < 1 then _ else _ : Nat × List Char × Nat) = branch
      obtain ⟨first, trail, contentLength⟩ := branch
      have hfirst : 0 < first ∧ first ≤ matched ∧ matched < first + contentLength ∧
          contentLength = maxChars - 1 - (decide (2 < maxChars)).toNat ∧
          trail = ellipsis (2 < maxChars) := by
        by_cases htwo : maxChars - 1 - 1 < 1
        · rw [if_pos htwo] at hbranch
          simp only [Prod.mk.injEq] at hbranch
          obtain ⟨rfl, rfl, rfl⟩ := hbranch
          have hmax' : ¬2 < maxChars := by omega
          simp only [hmax', decide_false, Bool.toNat_false, ellipsis]
          refine ⟨by omega, by omega, by omega, by omega, by simp⟩
        · have hmax' : 2 < maxChars := by omega
          simp only [hmax', decide_true, Bool.toNat_true, ellipsis]
          rw [if_neg htwo] at hbranch
          by_cases hfar : matched ≥ matched - maxChars / 3 + (maxChars - 1 - 1)
          · rw [if_pos hfar] at hbranch
            simp only [Prod.mk.injEq] at hbranch
            obtain ⟨rfl, rfl, rfl⟩ := hbranch
            refine ⟨by omega, by omega, by omega, by omega, rfl⟩
          · rw [if_neg hfar] at hbranch
            simp only [Prod.mk.injEq] at hbranch
            obtain ⟨rfl, rfl, rfl⟩ := hbranch
            refine ⟨by omega, by omega, by omega, by omega, rfl⟩
      have hone := Bool.toNat_le (decide (2 < maxChars))
      clear hbranch
      obtain ⟨hpos, hle, hlt, hcontent, rfl⟩ := hfirst
      by_cases hend : min characters.length (first + contentLength) = characters.length
      · simp only [hend, if_true]
        have hwindow : characters.length - (maxChars - 1) + (maxChars - 1) = characters.length := by
          omega
        refine ⟨characters.length - (maxChars - 1), characters.length,
          ⟨by omega, Nat.le_refl _, ?_, ?_⟩, ?_⟩
        · have hstart : 0 < characters.length - (maxChars - 1) := by omega
          rw [hwindow, Nat.min_self]
          simp [excerpt, ellipsis, hstart]
        · simp
          omega
        · intro
          omega
      · simp only [hend, if_false]
        have hstop : min characters.length (first + contentLength) = first + contentLength := by
          omega
        refine ⟨first, first + contentLength, ⟨by omega, by omega, ?_, ?_⟩, ?_⟩
        · have hleft : first + contentLength < characters.length := by omega
          have hfirst : first ≠ 0 := by omega
          rw [hstop]
          simp [excerpt, ellipsis, hpos, hleft, hfirst]
        · simp only [hstop, length_append, length_singleton, length_ellipsis,
            length_take, length_drop]
          omega
        · intro
          omega
    · simp only [hlead, if_false, length_nil]
      have hone : ¬maxChars - 0 - 1 < 1 := by omega
      have hstart : matched - maxChars / 3 = 0 := by omega
      have hnear : ¬matched ≥ 0 + (maxChars - 0 - 1) := by omega
      have hstop : min characters.length (0 + (maxChars - 0 - 1)) = maxChars - 1 := by omega
      have hend : maxChars - 1 ≠ characters.length := by omega
      simp only [hone, hstart, hnear, if_false, hstop, hend]
      refine ⟨0, maxChars - 1, ⟨Nat.zero_le _, by omega, ?_, ?_⟩, ?_⟩
      · have hleft : maxChars - 1 < characters.length := by omega
        simp [excerpt, ellipsis, hleft]
      · simp
        omega
      · intro
        omega

/-- The snippet is a window of the folded text, with an ellipsis on each side that leaves text out
where there is room, and the first match is in it. -/
theorem makeSnippet_window (markedText : List Char) {maxChars : Nat} (hmax : 2 ≤ maxChars) :
    ∃ start stop, Shows (plainText markedText) (makeSnippet markedText maxChars) maxChars start stop ∧
      ∀ before character after,
        markedText = before ++ ftsHighlightStart :: character :: after →
        ftsHighlightStart ∉ before → isMarker character = false → isWhitespace character = false →
        ∃ shown rest, plainText markedText = shown ++ character :: rest ∧
          shown = collapseWhitespace true (before.filter fun character => !isMarker character) ∧
          start ≤ shown.length ∧ shown.length < stop := by
  obtain ⟨start, stop, hshows, hmatched⟩ := makeSnippet_shows markedText hmax
  refine ⟨start, stop, hshows, ?_⟩
  intro before character after hmarked hbefore hmarker hspace
  obtain ⟨rest, hfirst⟩ := @firstMatch character before after hbefore hmarker hspace
  rw [← hmarked] at hfirst
  have hplain := hfirst.characters
  rw [normalizeMarkedText_characters] at hplain
  refine ⟨_, rest, hplain, foldl_read_characters before {}, ?_⟩
  have hbounds := hmatched (by simp [hplain])
  rw [hfirst.matchStart, Option.getD_some] at hbounds
  have hlength := congrArg length hplain
  rw [length_append, length_cons] at hlength
  omega

def highlighted (before matched after : String) : List Char :=
  before.toList ++ ftsHighlightStart :: matched.toList ++ ftsHighlightEnd :: after.toList

theorem makeSnippet_window_middle :
    ∃ start stop, Shows (plainText (highlighted "ab" "c" "defghij"))
        (makeSnippet (highlighted "ab" "c" "defghij") 5) 5 start stop ∧
      start ≤ 2 ∧ 2 < stop := by
  obtain ⟨start, stop, hshows, hmatch⟩ :=
    @makeSnippet_window (highlighted "ab" "c" "defghij") 5 (by decide)
  obtain ⟨shown, rest, -, hshown, hstart, hstop⟩ :=
    hmatch ['a', 'b'] 'c' (ftsHighlightEnd :: "defghij".toList) (by decide) (by decide) (by decide)
      (by decide)
  have hlength : shown.length = 2 := by
    rw [hshown]
    decide
  exact ⟨start, stop, hshows, by omega, by omega⟩

/-- With two characters the text left out after the match has no ellipsis, and a match that is
marked before any text hides where the next one begins. -/
theorem makeSnippet_without_ellipsis :
    (¬∃ start stop, start ≤ stop ∧ stop ≤ (plainText (highlighted "ab" "c" "defghij")).length ∧
      makeSnippet (highlighted "ab" "c" "defghij") 2 =
        excerpt (plainText (highlighted "ab" "c" "defghij")) start stop (0 < start)
          (stop < (plainText (highlighted "ab" "c" "defghij")).length)) ∧
    'k' ∉ makeSnippet (highlighted "" "" "abcdefghij" ++ highlighted "" "k" "") 5 := by
  have hplain : plainText (highlighted "ab" "c" "defghij") = "abcdefghij".toList := by decide
  have hsnippet : makeSnippet (highlighted "ab" "c" "defghij") 2 = ['…', 'c'] := by decide
  constructor
  · rintro ⟨start, stop, hle, hstop, heq⟩
    rw [hsnippet, hplain] at heq
    rw [hplain] at hstop
    have hlength := congrArg length heq
    rw [length_excerpt hle hstop] at hlength
    have hten : "abcdefghij".toList.length = 10 := rfl
    rw [hten] at hstop hlength heq
    by_cases htrail : stop < 10
    · have hlast := congrArg getLast? heq
      simp [excerpt, ellipsis, htrail] at hlast
    · have hstop' : stop = 10 := by omega
      subst hstop'
      by_cases hstart : 0 < start
      · have hnine : start = 9 := by
          simp [hstart] at hlength
          omega
        subst hnine
        revert heq
        decide
      · simp [hstart] at hlength
        omega
  · decide

end Windows

end DshKernel.SessionQuery
