import DshKernel.Gateway.JournalStream

/-!
# The window of a journal stream

What is published makes a window of adjacent entries between the two cursors, whatever order the
reads, frames and generations come in. Only the page of a `prepend` to an empty window is not
checked.
-/

namespace DshKernel.Gateway

open Lib Journal JournalOptions

section Journal

variable {Page Entry Cursor : Type}

/-- No generation is newer than `latest`. -/
structure Newest (taken : List (JournalItem Page Entry Cursor)) (generation latest : Nat) :
    Prop where
  current : generation ≤ latest
  taken : ∀ item ∈ taken, item.generation ≤ latest

structure Position (Page Entry Cursor : Type) where
  lastCursor : Option Cursor
  generation : Nat
  taken : List (JournalItem Page Entry Cursor)
  opened : Bool

def Journal.position (j : Journal Page Entry Cursor) : Position Page Entry Cursor :=
  ⟨j.lastCursor, j.generation, j.taken, j.opened⟩

structure Superseded (p : Position Page Entry Cursor) (item : JournalItem Page Entry Cursor) :
    Prop where
  opened : p.lastCursor.isSome = true
  taken : item ∈ p.taken
  newest : Newest p.taken p.generation item.generation
  alone : ∀ other ∈ p.taken, other.generation = item.generation → other = item

section Tail

variable {o : JournalOptions Page Entry Cursor}

theorem tailCursor_concat (entries : List Entry) (entry : Entry) :
    o.tailCursor (entries ++ [entry]) = o.last entry := by
  unfold tailCursor
  rw [List.getLast?_concat]

theorem tailCursor_of_getLast? {entries : List Entry} {tail : Entry}
    (htail : entries.getLast? = some tail) : o.tailCursor entries = o.last tail := by
  unfold tailCursor
  rw [htail]

theorem window_publish (j : Journal Page Entry Cursor) (change : JournalChange Page Entry) :
    (j.publish change).window = applyChange j.window change := by
  unfold window publish
  rw [List.foldl_append]
  rfl

theorem superseded_take {j : Journal Page Entry Cursor} {item : JournalItem Page Entry Cursor}
    (hopened : j.lastCursor.isSome = true) (hnewest : Newest j.taken j.generation j.generation)
    (hnewer : Newest j.taken j.generation item.generation)
    (hne : item.generation ≠ j.generation) : Superseded (j.take item).position item := by
  refine ⟨hopened, List.mem_append_right _ (List.mem_singleton_self item), ⟨hnewer.current, ?_⟩, ?_⟩
  · intro other hother
    rcases List.mem_append.mp hother with hother | hother
    · exact hnewer.taken other hother
    · rw [List.mem_singleton.mp hother]
  · intro other hother hsame
    rcases List.mem_append.mp hother with hother | hother
    · have hold := hnewest.taken other hother
      have hlt := Nat.lt_of_le_of_ne hnewer.current (Ne.symm hne)
      omega
    · exact List.mem_singleton.mp hother

theorem ended_endPrepend {j : Journal Page Entry Cursor} {id : Nat} {through : Option Cursor}
    {failure : Option Thrown} (hreading : j.prepends[id]? = some (.reading through)) :
    (j.endPrepend id failure).prepends[id]? = some (.ended failure) := by
  obtain ⟨hlength, _⟩ := List.getElem?_eq_some_iff.mp hreading
  exact List.getElem?_set_self hlength

end Tail

variable [LinearOrder Cursor]

/-- `compare` is that of a linear order, and `follows` its successor relation. -/
structure LawfulCursors (o : JournalOptions Page Entry Cursor) : Prop where
  compare_neg : ∀ a b, o.compare a b < 0 ↔ a < b
  compare_zero : ∀ a b, o.compare a b = 0 ↔ a = b
  follows_iff : ∀ a b, o.follows a b = true ↔ a ⋖ b

def NotBehind (j j' : Journal Page Entry Cursor) : Prop :=
  ∀ last, j.lastCursor = some last → ∃ last', j'.lastCursor = some last' ∧ last ≤ last'

def Covered (o : JournalOptions Page Entry Cursor) (lastCursor : Option Cursor) (entry : Entry) :
    Prop :=
  ∃ last, lastCursor = some last ∧ o.last entry ≤ last

/-- The published window is made of adjacent entries between the two cursors; while the consumer
waits for more, it reaches every entry of its generation; and a failure of the consumer was
reported. -/
structure JournalSound (o : JournalOptions Page Entry Cursor) (j : Journal Page Entry Cursor) :
    Prop where
  tiled : Tiling o.first o.last j.window
  first : j.firstCursor = j.window.head?.map o.first
  last : ∀ last, j.lastCursor = some last → last = o.tailCursor j.window
  once : ∀ first last cursor, j.firstCursor = some first → j.lastCursor = some last →
    first ≤ cursor → cursor ≤ last → j.window.countP (covers o.first o.last cursor) = 1
  live : j.consumer = .consuming → ∀ entry, ⟨j.generation, .entry entry⟩ ∈ j.taken →
    Covered o j.lastCursor entry
  surfaced : ∀ failure, j.consumer = .ended (some failure) → j.opened = true →
    failure ∈ j.reported ∨ j.disposed = true
  prepended : ∀ id through page, j.prepends[id]? = some (.reading through) →
    (j.prependRead o id (.ok page)).prepends[id]? = some (.ended none) →
    ∀ entry ∈ o.entries page, ∃ first,
      (j.prependRead o id (.ok page)).firstCursor = some first ∧ first ≤ o.first entry

variable {o : JournalOptions Page Entry Cursor}

namespace LawfulCursors

theorem compare_nonpos (h : LawfulCursors o) (a b : Cursor) : o.compare a b ≤ 0 ↔ a ≤ b := by
  rw [le_iff_lt_or_eq, h.compare_neg, h.compare_zero, le_iff_lt_or_eq]

theorem compare_pos (h : LawfulCursors o) (a b : Cursor) : o.compare a b > 0 ↔ b < a := by
  rw [gt_iff_lt, ← not_le, h.compare_nonpos, not_le]

end LawfulCursors

section Checks

variable {entry : Entry} {page : Page}

theorem entryRange_ok (h : LawfulCursors o) {range : Cursor × Cursor}
    (hok : o.entryRange entry = .ok range) :
    range = (o.first entry, o.last entry) ∧ o.first entry ≤ o.last entry := by
  unfold entryRange at hok
  simp only at hok
  split at hok
  · cases hok
  · rename_i hproper
    cases hok
    rw [h.compare_pos, not_lt] at hproper
    exact ⟨rfl, hproper⟩

theorem tiling_of_assertAdjacent (h : LawfulCursors o) {rest : List Entry}
    (hproper : o.first entry ≤ o.last entry)
    (hok : o.assertAdjacent (o.first entry, o.last entry) rest = .ok ()) :
    Tiling o.first o.last (entry :: rest) := by
  induction rest generalizing entry with
  | nil => exact Tiling.singleton hproper
  | cons next rest ih =>
    simp only [assertAdjacent] at hok
    split at hok
    · cases hok
    · rename_i range hrange
      obtain ⟨rfl, hnext⟩ := entryRange_ok h hrange
      split at hok
      · rename_i hfollows
        refine (Tiling.singleton hproper).append (ih hnext hok) ?_
        intro a ha b hb
        cases ha
        cases hb
        exact (h.follows_iff _ _).mp hfollows
      · cases hok

theorem tiling_of_assertPage (h : LawfulCursors o) {entries : List Entry}
    (hok : o.assertPage entries = .ok ()) : Tiling o.first o.last entries := by
  unfold assertPage at hok
  split at hok
  · exact Tiling.nil
  · split at hok
    · cases hok
    · rename_i range hrange
      obtain ⟨rfl, hproper⟩ := entryRange_ok h hrange
      exact tiling_of_assertAdjacent h hproper hok

theorem tailCursor_of_assertPageThrough (h : LawfulCursors o) {through : Cursor}
    (hok : o.assertPageThrough page through = .ok ()) :
    o.tailCursor (o.entries page) = through := by
  unfold assertPageThrough at hok
  split at hok
  · cases hok
  · rename_i hzero
    exact (h.compare_zero _ _).mp (not_not.mp hzero)

theorem le_maxCursor (h : LawfulCursors o) (cursor : Cursor) (entries : List Entry) :
    cursor ≤ o.maxCursor cursor entries ∧
      ∀ entry ∈ entries, o.last entry ≤ o.maxCursor cursor entries := by
  induction entries generalizing cursor with
  | nil => exact ⟨le_refl cursor, fun _ hmem => absurd hmem List.not_mem_nil⟩
  | cons entry rest ih =>
    let next := if o.compare (o.last entry) cursor > 0 then o.last entry else cursor
    have hnext : cursor ≤ next ∧ o.last entry ≤ next := by
      by_cases hcompare : o.compare (o.last entry) cursor > 0
      · simp only [next, if_pos hcompare]
        exact ⟨((h.compare_pos _ _).mp hcompare).le, le_refl _⟩
      · simp only [next, if_neg hcompare]
        rw [h.compare_pos, not_lt] at hcompare
        exact ⟨le_refl _, hcompare⟩
    obtain ⟨hle, hall⟩ := ih next
    refine ⟨hnext.1.trans hle, ?_⟩
    intro other hmem
    rcases List.mem_cons.mp hmem with rfl | hmem
    · exact hnext.2.trans hle
    · exact hall other hmem

theorem tiling_of_mergeSorted (h : LawfulCursors o) {sorted entries merged : List Entry}
    (htiling : Tiling o.first o.last entries)
    (hok : o.mergeSorted entries (o.tailCursor entries) sorted = .ok (some merged)) :
    Tiling o.first o.last merged := by
  induction sorted generalizing entries with
  | nil =>
    cases hok
    exact htiling
  | cons entry rest ih =>
    simp only [mergeSorted] at hok
    split at hok
    · exact ih htiling hok
    · rename_i hlast
      split at hok
      · cases hok
      · split at hok
        · cases hok
        · rename_i hfollows
          rw [h.compare_nonpos, not_le] at hlast
          rw [Bool.not_eq_true', Bool.not_eq_false, h.follows_iff] at hfollows
          refine @ih (entries ++ [entry]) ?_ ?_
          · refine htiling.append (Tiling.singleton (hfollows.ge_of_gt hlast)) ?_
            intro a ha b hb
            cases hb
            rwa [tailCursor_of_getLast? ha] at hfollows
          · rwa [tailCursor_concat]

theorem tiling_of_mergeReplacement (h : LawfulCursors o) {queued merged : List Entry}
    (hok : o.mergeReplacement page queued = .ok (some merged)) : Tiling o.first o.last merged := by
  unfold mergeReplacement at hok
  simp only at hok
  split at hok
  · cases hok
  · rename_i hpage
    split at hok
    · cases hok
    · exact tiling_of_mergeSorted h (tiling_of_assertPage h hpage) hok

end Checks

structure WindowOk (o : JournalOptions Page Entry Cursor) (firstCursor lastCursor : Option Cursor)
    (window : List Entry) : Prop where
  tiled : Tiling o.first o.last window
  first : firstCursor = window.head?.map o.first
  last : lastCursor = some (o.tailCursor window) ∨ (lastCursor = none ∧ window = [])

section Window

variable {firstCursor lastCursor : Option Cursor} {window entries : List Entry}

theorem WindowOk.replaced (h : Tiling o.first o.last entries) :
    WindowOk o (entries.head?.map o.first) (some (o.tailCursor entries)) entries :=
  ⟨h, rfl, Or.inl rfl⟩

theorem WindowOk.appended (h : WindowOk o firstCursor lastCursor window) {entry : Entry}
    {last : Cursor} (hlast : lastCursor = some last) (hnext : last ⋖ o.first entry)
    (hbeyond : last < o.last entry) :
    WindowOk o (firstCursor.or (some (o.first entry))) (some (o.last entry))
      (window ++ [entry]) := by
  refine ⟨?_, ?_, ?_⟩
  · refine h.tiled.append (Tiling.singleton (hnext.ge_of_gt hbeyond)) ?_
    intro a ha b hb
    cases hb
    rcases h.last with htail | ⟨hnone, _⟩
    · rw [tailCursor_of_getLast? ha, hlast] at htail
      cases htail
      exact hnext
    · rw [hlast] at hnone
      cases hnone
  · rw [h.first]
    cases window with
    | nil => rfl
    | cons head rest => rfl
  · rw [tailCursor_concat]
    exact Or.inl rfl

theorem WindowOk.prepended (h : WindowOk o firstCursor lastCursor window)
    (htiled : Tiling o.first o.last entries)
    (hadjacent : ∀ tail before, entries.getLast? = some tail → firstCursor = some before →
      o.last tail ⋖ before)
    (hempty : firstCursor = none → ∀ tail, entries.getLast? = some tail →
      lastCursor = some (o.last tail)) :
    WindowOk o ((entries.head?.map o.first).or firstCursor) lastCursor (entries ++ window) := by
  refine ⟨?_, ?_, ?_⟩
  · refine htiled.append h.tiled ?_
    intro tail htail head hhead
    refine hadjacent tail (o.first head) htail ?_
    rw [h.first, Option.mem_def.mp hhead]
    rfl
  · cases entries with
    | nil => rw [h.first]; rfl
    | cons entry rest => rfl
  · cases window with
    | nil =>
      rw [List.append_nil]
      cases htail : entries.getLast? with
      | none =>
        rw [List.getLast?_eq_none_iff] at htail
        rw [htail]
        exact h.last
      | some tail =>
        rw [hempty h.first tail htail, tailCursor_of_getLast? htail]
        exact Or.inl rfl
    | cons head rest =>
      have htail : o.tailCursor (entries ++ head :: rest) = o.tailCursor (head :: rest) := by
        unfold tailCursor
        rw [List.getLast?_append_of_ne_nil entries (List.cons_ne_nil head rest)]
      rw [htail]
      rcases h.last with hlast | ⟨_, hnil⟩
      · exact Or.inl hlast
      · cases hnil

end Window

/-- An opening was taken; of its generation no entry is missing that does not wait in `queued`. -/
structure Following (o : JournalOptions Page Entry Cursor) (p : Position Page Entry Cursor)
    (queued : List Entry) : Prop where
  opened : p.lastCursor.isSome = true
  newest : Newest p.taken p.generation p.generation
  live : ∀ entry, ⟨p.generation, .entry entry⟩ ∈ p.taken →
    Covered o p.lastCursor entry ∨ entry ∈ queued

structure RepairOk (o : JournalOptions Page Entry Cursor) (p : Position Page Entry Cursor)
    (repair : Repair Page Entry Cursor) : Prop where
  following : Following o p repair.queued
  generation : repair.generation = p.generation
  beyond : ∀ last, p.lastCursor = some last → last < repair.requiredCursor

def PhaseOk (o : JournalOptions Page Entry Cursor) (p : Position Page Entry Cursor) :
    Consumer Page Entry Cursor → Prop
  | .idle | .opening => p.lastCursor = none ∧ p.taken = [] ∧ p.opened = false
  | .consuming => Following o p []
  | .repairing repair | .merging repair _ => RepairOk o p repair
  | .replacing generation => p.lastCursor.isSome = true ∧ generation = p.generation ∧
      Newest p.taken p.generation p.generation
  | .superseded item => Superseded p item
  | .ended _ => True

structure JournalBase (o : JournalOptions Page Entry Cursor) (j : Journal Page Entry Cursor) :
    Prop where
  window : WindowOk o j.firstCursor j.lastCursor j.window
  stream : Newest j.taken j.generation j.streamGeneration
  pending : ∀ item, j.pendingNext = some (some (.item item)) →
    item.generation ≤ j.streamGeneration ∧ Newest j.taken j.generation item.generation

structure JournalOk (o : JournalOptions Page Entry Cursor) (j : Journal Page Entry Cursor) :
    Prop where
  base : JournalBase o j
  phase : PhaseOk o j.position j.consumer
  idle : j.started = false → j.consumer = .idle
  surfaced : ∀ failure, j.consumer = .ended (some failure) → j.opened = true →
    failure ∈ j.reported ∨ j.disposed = true

structure StepOk (o : JournalOptions Page Entry Cursor) (before j : Journal Page Entry Cursor) :
    Prop where
  ok : JournalOk o j
  ahead : NotBehind before j

structure Going (o : JournalOptions Page Entry Cursor) (before j : Journal Page Entry Cursor) :
    Prop where
  base : JournalBase o j
  started : j.started = true
  ahead : NotBehind before j

section Within

variable {before j : Journal Page Entry Cursor} {item : JournalItem Page Entry Cursor}
  {queued : List Entry}

theorem NotBehind.refl (j : Journal Page Entry Cursor) : NotBehind j j :=
  fun last hlast => ⟨last, hlast, le_refl last⟩

variable {j' : Journal Page Entry Cursor} {cursor last' : Cursor}

theorem NotBehind.trans (h : NotBehind before j) (h' : NotBehind j j') : NotBehind before j' := by
  intro last hlast
  obtain ⟨middle, hmiddle, hle⟩ := h last hlast
  obtain ⟨last', hlast', hle'⟩ := h' middle hmiddle
  exact ⟨last', hlast', hle.trans hle'⟩

variable {entry : Entry} {page : Page}

theorem Covered.mono {lastCursor : Option Cursor}
    (h : Covered o lastCursor entry) (hle : ∀ last, lastCursor = some last → last ≤ last') :
    Covered o (some last') entry := by
  obtain ⟨last, hlast, hentry⟩ := h
  exact ⟨last', rfl, hentry.trans (hle last hlast)⟩

theorem Following.advance {p : Position Page Entry Cursor} (h : Following o p queued)
    (hle : ∀ last, p.lastCursor = some last → last ≤ last')
    (hqueued : ∀ entry ∈ queued, o.last entry ≤ last') :
    Following o { p with lastCursor := some last' } [] := by
  refine ⟨rfl, h.newest, ?_⟩
  intro entry hmem
  left
  rcases h.live entry hmem with hcovered | hqueue
  · exact hcovered.mono hle
  · exact ⟨last', rfl, hqueued entry hqueue⟩

theorem JournalBase.nextResult (h : JournalBase o j) : JournalBase o j.nextResult := by
  unfold Journal.nextResult
  split
  · exact ⟨h.window, h.stream, nofun⟩
  · exact h

theorem StepOk.nextResult (h : StepOk o before j) : StepOk o before j.nextResult := by
  have hbase := h.ok.base.nextResult
  unfold Journal.nextResult at hbase ⊢
  split
  · rename_i hnone
    rw [hnone] at hbase
    exact ⟨⟨hbase, h.ok.phase, h.ok.idle, h.ok.surfaced⟩, h.ahead⟩
  · exact h

theorem openingOf_ok (hlawful : LawfulCursors o) {resumed : Bool}
    (h : j.openingOf o item resumed = .ok (cursor, page))
    (hresumed : resumed = true ∨ j.lastCursor = none) :
    item.value = .opened cursor page ∧ ∀ last, j.lastCursor = some last → last ≤ cursor := by
  unfold openingOf at h
  split at h
  · cases h
  rename_i cursor' page' hvalue
  split at h
  · rename_i last hlast
    split at h
    · cases h
    · rename_i hbehind
      cases h
      refine ⟨hvalue, ?_⟩
      intro last' hlast'
      rw [hlast] at hlast'
      cases hlast'
      rcases hresumed with rfl | hnone
      · rw [hlawful.compare_neg] at hbehind
        exact not_lt.mp fun hlt => hbehind ⟨rfl, hlt⟩
      · rw [hlast] at hnone
        cases hnone
  · rename_i hnone
    cases h
    refine ⟨hvalue, ?_⟩
    intro last hlast
    rw [hnone] at hlast
    cases hlast

theorem replaceFromOpening_ok (hlawful : LawfulCursors o)
    {replaced : Journal Page Entry Cursor} (h : j.replaceFromOpening o page cursor = .ok replaced) :
    replaced = j.replaceWindow o page (o.entries page) cursor ∧
      Tiling o.first o.last (o.entries page) ∧ o.tailCursor (o.entries page) = cursor := by
  unfold replaceFromOpening at h
  split at h
  · cases h
  · cases h
  · rename_i hthrough hpage
    cases h
    exact ⟨rfl, tiling_of_assertPage hlawful hpage,
      tailCursor_of_assertPageThrough hlawful hthrough⟩

namespace Going

theorem turn (h : Going o before j) {consumer : Consumer Page Entry Cursor}
    (hphase : PhaseOk o j.position consumer)
    (hrunning : ∀ failure, consumer ≠ .ended (some failure)) :
    StepOk o before { j with consumer := consumer } := by
  refine ⟨⟨⟨h.base.window, h.base.stream, h.base.pending⟩, hphase, ?_, ?_⟩, h.ahead⟩
  · intro hstopped
    have hcontra : j.started = false := hstopped
    rw [h.started] at hcontra
    cases hcontra
  · intro failure hended
    exact absurd hended (hrunning failure)

theorem consume (h : Going o before j) (hfollowing : Following o j.position []) :
    StepOk o before j.consume := by
  have hturn : StepOk o before { j with consumer := .consuming } := h.turn hfollowing nofun
  exact hturn.nextResult

variable {repair : Repair Page Entry Cursor} {generation : Nat}
variable {result : NextResult Page Entry Cursor}

theorem readPage (h : Going o before j)
    (hrepair : RepairOk o j.position repair) : StepOk o before (j.readPage repair) := by
  have hturn : StepOk o before { j with consumer := .repairing { repair with page := none } } :=
    h.turn ⟨hrepair.following, hrepair.generation, hrepair.beyond⟩ nofun
  exact hturn.nextResult

theorem fail (h : Going o before j) (failure : Thrown) : StepOk o before (j.fail failure) := by
  refine ⟨⟨⟨h.base.window, h.base.stream, h.base.pending⟩, trivial, ?_, ?_⟩, h.ahead⟩
  · intro hstopped
    have hcontra : j.started = false := hstopped
    rw [h.started] at hcontra
    cases hcontra
  · intro failure' hended _
    cases hended
    unfold Journal.fail
    cases hdisposed : j.disposed with
    | false => exact Or.inl (by simp)
    | true => exact Or.inr rfl

theorem openFailed (h : Going o before j) (hopened : j.opened = false) (failure : Thrown) :
    StepOk o before (j.openFailed failure) := by
  refine ⟨⟨⟨h.base.window, h.base.stream, h.base.pending⟩, trivial, ?_, ?_⟩, h.ahead⟩
  · intro hstopped
    have hcontra : j.started = false := hstopped
    rw [h.started] at hcontra
    cases hcontra
  · intro _ _ hcontra
    have hopened' : j.opened = true := hcontra
    rw [hopened] at hopened'
    cases hopened'

theorem replaceWindow (h : Going o before j) {entries : List Entry} {cursor : Cursor} (page : Page)
    (htiled : Tiling o.first o.last entries) (htail : o.tailCursor entries = cursor)
    (hahead : ∀ last, j.lastCursor = some last → last ≤ cursor) :
    Going o before (j.replaceWindow o page entries cursor) := by
  subst htail
  refine ⟨⟨?_, h.base.stream, h.base.pending⟩, h.started, h.ahead.trans ?_⟩
  · unfold Journal.replaceWindow
    rw [window_publish]
    exact WindowOk.replaced htiled
  · intro last hlast
    exact ⟨_, rfl, hahead last hlast⟩

theorem replaceGeneration (hlawful : LawfulCursors o) (h : Going o before j) {resumed : Bool}
    (hmem : item ∈ j.taken) (hnewest : Newest j.taken j.generation item.generation)
    (halone : ∀ other ∈ j.taken, other.generation = item.generation → other = item)
    (hresumed : resumed = true ∨ j.lastCursor = none) :
    Going o before (j.replaceGeneration o item resumed).1 ∧
      (j.replaceGeneration o item resumed).1.opened = j.opened ∧
      ((j.replaceGeneration o item resumed).2 = none →
        Following o (j.replaceGeneration o item resumed).1.position []) := by
  unfold Journal.replaceGeneration
  split
  · exact ⟨h, rfl, nofun⟩
  rename_i cursor page hopening
  obtain ⟨hvalue, hahead⟩ := openingOf_ok hlawful hopening hresumed
  have haccepted : Going o before { j with generation := item.generation } := by
    refine ⟨⟨h.base.window, ⟨h.base.stream.taken item hmem, h.base.stream.taken⟩, ?_⟩, h.started,
      h.ahead⟩
    intro pending hpending
    obtain ⟨hstream, hnewer⟩ := h.base.pending pending hpending
    exact ⟨hstream, hnewer.taken item hmem, hnewer.taken⟩
  simp only
  split
  · exact ⟨haccepted, rfl, nofun⟩
  rename_i replaced hreplaced
  obtain ⟨rfl, htiled, htail⟩ := replaceFromOpening_ok hlawful hreplaced
  refine ⟨haccepted.replaceWindow page htiled htail hahead, rfl, ?_⟩
  intro _
  refine ⟨rfl, ⟨le_refl _, hnewest.taken⟩, ?_⟩
  intro entry hentry
  have hcontra := halone _ hentry rfl
  rw [← hcontra] at hvalue
  cases hvalue

theorem resumeGeneration (hlawful : LawfulCursors o) (h : Going o before j)
    (hsuperseded : Superseded j.position item) : StepOk o before (j.resumeGeneration o item) := by
  have hreplaced := h.replaceGeneration hlawful hsuperseded.taken hsuperseded.newest
    hsuperseded.alone (Or.inl rfl)
  unfold Journal.resumeGeneration
  split
  · rename_i failed failure heq
    rw [heq] at hreplaced
    exact hreplaced.1.fail failure
  · rename_i replaced heq
    rw [heq] at hreplaced
    exact hreplaced.1.consume (hreplaced.2.2 rfl)

variable {entry : Entry}

/-- `acceptEntry`, for the entry that was taken last. -/
theorem acceptEntry (hlawful : LawfulCursors o) (h : Going o before j)
    (hfollowing : Following o j.position [entry]) :
    StepOk o before (j.acceptEntry o entry j.generation) := by
  unfold Journal.acceptEntry
  split
  · exact h.fail _
  · rename_i hnone
    have hcontra : j.lastCursor.isSome = true := hfollowing.opened
    rw [hnone] at hcontra
    cases hcontra
  rename_i first cursor last hrange hlast
  obtain ⟨heq, _⟩ := entryRange_ok hlawful hrange
  cases heq
  split
  · rename_i hcovered
    rw [hlawful.compare_nonpos] at hcovered
    refine h.consume ⟨hfollowing.opened, hfollowing.newest, ?_⟩
    intro other hother
    left
    rcases hfollowing.live other hother with hlive | hself
    · exact hlive
    · rw [List.mem_singleton.mp hself]
      exact ⟨last, hlast, hcovered⟩
  rename_i hbeyond
  rw [hlawful.compare_nonpos, not_le] at hbeyond
  have hle : ∀ last', j.lastCursor = some last' → last' ≤ o.last entry := by
    intro last' hlast'
    rw [hlast] at hlast'
    cases hlast'
    exact hbeyond.le
  split
  · exact h.fail _
  · split
    · refine h.readPage ⟨hfollowing, rfl, ?_⟩
      intro last' hlast'
      rw [show j.lastCursor = some last' from hlast'] at hlast
      cases hlast
      exact hbeyond
    · rename_i hfollows
      rw [Bool.not_eq_true', Bool.not_eq_false, hlawful.follows_iff] at hfollows
      have happended : Going o before
          (publish
            { j with
              firstCursor := j.firstCursor.or (some (o.first entry))
              lastCursor := some (o.last entry)
              resumeCursor := some (o.last entry) } (.append entry)) := by
        refine ⟨⟨?_, h.base.stream, h.base.pending⟩, h.started, ?_⟩
        · rw [window_publish]
          exact h.base.window.appended hlast hfollows hbeyond
        · exact h.ahead.trans fun last' hlast' => ⟨_, rfl, hle last' hlast'⟩
      refine happended.consume (hfollowing.advance hle ?_)
      intro other hother
      rw [List.mem_singleton.mp hother]

theorem readAgain (h : Going o before j)
    (hrepair : RepairOk o j.position repair) (target : Cursor) :
    StepOk o before (j.readAgain o repair target) := by
  unfold Journal.readAgain
  split
  · exact h.fail _
  · exact h.readPage ⟨hrepair.following, hrepair.generation, hrepair.beyond⟩

theorem replaceThrough (hlawful : LawfulCursors o) (h : Going o before j)
    (hrepair : RepairOk o j.position repair) (page : Page) :
    StepOk o before (j.replaceThrough o repair page) := by
  unfold Journal.replaceThrough
  split
  · exact h.fail _
  split
  · exact h.fail _
  · exact h.readAgain hrepair _
  rename_i entries hmerged
  simp only
  split
  · exact h.readAgain hrepair _
  rename_i hreached
  rw [hlawful.compare_neg, not_lt] at hreached
  obtain ⟨hrequired, hqueued⟩ := le_maxCursor hlawful repair.requiredCursor repair.queued
  have hahead : ∀ last, j.lastCursor = some last → last ≤ o.tailCursor entries :=
    fun last hlast => (hrepair.beyond last hlast).le.trans (hrequired.trans hreached)
  refine (h.replaceWindow page (tiling_of_mergeReplacement hlawful hmerged) rfl hahead).consume ?_
  exact hrepair.following.advance hahead fun entry hmem => (hqueued entry hmem).trans hreached

theorem following_take
    (h : Following o j.position queued) (hgeneration : generation = j.generation) :
    Following o (j.take ⟨generation, .entry entry⟩).position (queued ++ [entry]) := by
  subst hgeneration
  refine ⟨h.opened, ⟨le_refl _, ?_⟩, ?_⟩
  · intro other hother
    rcases List.mem_append.mp hother with hother | hother
    · exact h.newest.taken other hother
    · exact (congrArg JournalItem.generation (List.mem_singleton.mp hother)).le
  · intro other hother
    rcases List.mem_append.mp hother with hother | hother
    · rcases h.live other hother with hcovered | hqueued
      · exact Or.inl hcovered
      · exact Or.inr (List.mem_append_left _ hqueued)
    · cases List.mem_singleton.mp hother
      exact Or.inr (List.mem_append_right _ (List.mem_singleton_self entry))

theorem openNext (hlawful : LawfulCursors o) (h : Going o before j)
    (hphase : PhaseOk o j.position .opening)
    (htake : ∀ item, result = .item item →
      Going o before (j.take item) ∧ Newest j.taken j.generation item.generation) :
    StepOk o before (j.openNext o result) := by
  obtain ⟨hnone, htaken, hopened⟩ := hphase
  unfold Journal.openNext
  cases result with
  | done => exact h.openFailed hopened _
  | error failure => exact h.openFailed hopened _
  | item item =>
    obtain ⟨hgoing, hnewer⟩ := htake item rfl
    have honly : (j.take item).taken = [item] := by
      show j.taken ++ [item] = [item]
      rw [show j.taken = [] from htaken]
      rfl
    have hmem : ∀ other ∈ (j.take item).taken, other = item := by
      intro other hother
      rw [honly] at hother
      exact List.mem_singleton.mp hother
    have hfirst : false = true ∨ (j.take item).lastCursor = none := Or.inr hnone
    have hreplaced := hgoing.replaceGeneration hlawful
      (by rw [honly]; exact List.mem_singleton_self item)
      ⟨hnewer.current, fun other hother => by rw [hmem other hother]⟩
      (fun other hother _ => hmem other hother) hfirst
    simp only
    split
    · rename_i failed failure heq
      rw [heq] at hreplaced
      exact hreplaced.1.openFailed (hreplaced.2.1.trans hopened) _
    · rename_i replaced heq
      rw [heq] at hreplaced
      have hfollowing := hreplaced.2.2 rfl
      have hgoing' : Going o before { replaced with opened := true } :=
        ⟨⟨hreplaced.1.base.window, hreplaced.1.base.stream, hreplaced.1.base.pending⟩,
          hreplaced.1.started, hreplaced.1.ahead⟩
      exact hgoing'.consume ⟨hfollowing.opened, hfollowing.newest, hfollowing.live⟩

theorem consumeNext (hlawful : LawfulCursors o) (h : Going o before j)
    (hphase : Following o j.position [])
    (htake : ∀ item, result = .item item →
      Going o before (j.take item) ∧ Newest j.taken j.generation item.generation) :
    StepOk o before (j.consumeNext o result) := by
  unfold Journal.consumeNext
  cases result with
  | done => exact h.turn trivial nofun
  | error failure => exact h.fail _
  | item item =>
    obtain ⟨hgoing, hnewer⟩ := htake item rfl
    obtain ⟨generation, value⟩ := item
    simp only
    split
    · rename_i hne
      exact hgoing.resumeGeneration hlawful
        (superseded_take hphase.opened hphase.newest hnewer hne)
    · rename_i hsame
      have hgeneration : generation = j.generation := not_not.mp hsame
      cases value with
      | opened _ _ => exact hgoing.fail _
      | entry entry =>
        have hfollowing : Following o (j.take ⟨generation, .entry entry⟩).position [entry] :=
          following_take hphase hgeneration
        subst hgeneration
        exact hgoing.acceptEntry hlawful hfollowing

theorem repairNext (h : Going o before j) (hrepair : RepairOk o j.position repair)
    (htake : ∀ item, result = .item item →
      Going o before (j.take item) ∧ Newest j.taken j.generation item.generation) :
    StepOk o before (j.repairNext o repair result) := by
  have hfollowing := hrepair.following
  unfold Journal.repairNext
  cases result with
  | done =>
    simp only
    split
    · exact h.fail _
    · exact h.fail _
  | error failure => exact h.fail _
  | item item =>
    obtain ⟨hgoing, hnewer⟩ := htake item rfl
    obtain ⟨generation, value⟩ := item
    simp only
    split
    · rename_i hne
      refine hgoing.turn (superseded_take hfollowing.opened hfollowing.newest hnewer ?_) nofun
      rwa [← show repair.generation = j.generation from hrepair.generation]
    · rename_i hsame
      cases value with
      | opened _ _ => exact hgoing.fail _
      | entry entry =>
        have hphase : PhaseOk o (j.take ⟨generation, .entry entry⟩).position
            (.repairing { repair with queued := repair.queued ++ [entry] }) :=
          ⟨following_take hfollowing ((not_not.mp hsame).trans hrepair.generation),
            hrepair.generation, hrepair.beyond⟩
        exact (hgoing.turn hphase nofun).nextResult

theorem replacingNext (h : Going o before j) (hphase : PhaseOk o j.position (.replacing generation))
    (hconsumer : j.consumer = .replacing generation)
    (htake : ∀ item, result = .item item →
      Going o before (j.take item) ∧ Newest j.taken j.generation item.generation) :
    StepOk o before (j.replacingNext o generation result) := by
  obtain ⟨hopened, hcurrent, hnewest⟩ := hphase
  unfold Journal.replacingNext
  cases result with
  | done =>
    simp only
    split
    · exact h.fail _
    · exact h.fail _
  | error failure => exact h.fail _
  | item item =>
    obtain ⟨hgoing, hnewer⟩ := htake item rfl
    obtain ⟨taken, value⟩ := item
    simp only
    split
    · rename_i hne
      refine hgoing.turn (superseded_take hopened hnewest hnewer ?_) nofun
      rwa [← show generation = j.generation from hcurrent]
    · rename_i hsame
      have hgeneration : taken = generation := not_not.mp hsame
      cases value with
      | opened _ _ => exact hgoing.fail _
      | entry entry =>
        have hphase :
            PhaseOk o (j.take ⟨taken, .entry entry⟩).position (.replacing generation) := by
          refine ⟨hopened, hcurrent, le_refl _, ?_⟩
          intro other hother
          rcases List.mem_append.mp hother with hother | hother
          · exact hnewest.taken other hother
          · rw [List.mem_singleton.mp hother]
            exact (hgeneration.trans hcurrent).le
        have hturn := hgoing.turn hphase nofun
        rw [← hconsumer] at hturn
        exact hturn.nextResult

end Going

theorem JournalOk.released (h : JournalOk o j) (hstarted : j.started = true) :
    Going o j { j with pendingNext := none } :=
  ⟨⟨h.base.window, h.base.stream, nofun⟩, hstarted, NotBehind.refl j⟩

theorem JournalOk.started (h : JournalOk o j) (hconsumer : j.consumer ≠ .idle) :
    j.started = true := by
  cases hstarted : j.started with
  | true => rfl
  | false => exact absurd (h.idle hstarted) hconsumer

theorem first_le_of_older (hlawful : LawfulCursors o)
    (htiled : Tiling o.first o.last (o.entries page)) (hmem : entry ∈ o.entries page) :
    ∃ first, ((j.olderEntries o page).head?.map o.first).or j.firstCursor = some first ∧
      first ≤ o.first entry := by
  have hhead : ∀ {entries : List Entry}, Tiling o.first o.last entries → entry ∈ entries →
      ∃ first, entries.head?.map o.first = some first ∧ first ≤ o.first entry := by
    intro entries htiled hmem
    cases entries with
    | nil => cases hmem
    | cons head rest => exact ⟨o.first head, rfl, htiled.head_le rfl hmem⟩
  unfold olderEntries
  cases hfirst : j.firstCursor with
  | none =>
    obtain ⟨first, hfirst, hle⟩ := hhead htiled hmem
    exact ⟨first, by rw [hfirst]; rfl, hle⟩
  | some before =>
    have holder (a : Entry) :
        decide (o.compare (o.first a) before < 0) = true ↔ o.first a < before := by
      rw [decide_eq_true_iff]
      exact hlawful.compare_neg _ _
    have haccepted := htiled.of_prefix (htiled.filter_prefix holder)
    simp only
    by_cases hlt : o.first entry < before
    · obtain ⟨first, hfirst, hle⟩ := hhead haccepted
        (List.mem_filter.mpr ⟨hmem, (holder entry).mpr hlt⟩)
      exact ⟨first, by rw [hfirst]; rfl, hle⟩
    · cases hnew : ((o.entries page).filter _).head? with
      | none => exact ⟨before, rfl, not_lt.mp hlt⟩
      | some head =>
        have hhead := (List.mem_filter.mp (List.mem_of_head? hnew)).2
        rw [holder] at hhead
        exact ⟨o.first head, rfl, hhead.le.trans (not_lt.mp hlt)⟩

theorem first_le_of_prepended (hlawful : LawfulCursors o) {id : Nat} {through : Option Cursor}
    (hreading : j.prepends[id]? = some (.reading through))
    (hended : (j.prependRead o id (.ok page)).prepends[id]? = some (.ended none)) :
    ∀ entry ∈ o.entries page, ∃ first,
      (j.prependRead o id (.ok page)).firstCursor = some first ∧ first ≤ o.first entry := by
  have hfailed {j' : Journal Page Entry Cursor} (hsame : j'.prepends = j.prepends)
      (failure : Thrown) :
      (j'.endPrepend id (some failure)).prepends[id]? ≠ some (.ended none) := by
    rw [ended_endPrepend (hsame ▸ hreading)]
    nofun
  intro entry hmem
  unfold prependRead at hended ⊢
  rw [hreading] at hended ⊢
  simp only at hended ⊢
  split at hended
  · exact absurd hended (hfailed rfl _)
  · rename_i hsignal
    rw [if_neg hsignal]
    split at hended
    · exact absurd hended (hfailed rfl _)
    · rename_i hpage
      simp only [prependPage] at hended ⊢
      split at hended
      · exact absurd hended (hfailed rfl _)
      · rename_i hadjacent
        rw [if_neg hadjacent]
        exact first_le_of_older hlawful (tiling_of_assertPage hlawful hpage) hmem

theorem JournalOk.sound (hlawful : LawfulCursors o) (h : JournalOk o j) : JournalSound o j := by
  have hwindow := h.base.window
  have hlast : ∀ last, j.lastCursor = some last → last = o.tailCursor j.window := by
    intro last hlast
    rcases hwindow.last with htail | ⟨hnone, _⟩
    · rw [hlast] at htail
      exact Option.some.inj htail
    · rw [hlast] at hnone
      cases hnone
  refine ⟨hwindow.tiled, hwindow.first, hlast, ?_, ?_, h.surfaced, ?_⟩
  · intro first last cursor hfirst hend hge hle
    rw [hwindow.first, Option.map_eq_some_iff] at hfirst
    obtain ⟨head, hhead, rfl⟩ := hfirst
    obtain ⟨tail, htail⟩ : ∃ tail, j.window.getLast? = some tail := by
      cases hempty : j.window.getLast? with
      | some tail => exact ⟨tail, rfl⟩
      | none =>
        rw [List.getLast?_eq_none_iff] at hempty
        rw [hempty] at hhead
        cases hhead
    rw [hlast last hend, tailCursor_of_getLast? htail] at hle
    exact hwindow.tiled.countP_eq_one hhead htail hge hle
  · intro hconsuming entry hmem
    have hphase := h.phase
    rw [hconsuming] at hphase
    rcases hphase.live entry hmem with hcovered | hqueued
    · exact hcovered
    · cases hqueued
  · intro id through page hreading hended
    exact first_le_of_prepended hlawful hreading hended

end Within

end Journal

end DshKernel.Gateway
