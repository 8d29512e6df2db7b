import DshKernel.Lib.Tiling

/-!
# The client journal stream

Opening, live entries, older pages and repair over a reconnecting stream. The consumer, the reads of
pages and the generations of the stream underneath are steps in any order; the source sends any
pages and frames.
-/

namespace DshKernel.Gateway

inductive Thrown where
  | protocolViolation (message : String)
  | error (message : String)
  | aborted
  | other (reason : String)
  deriving DecidableEq, Repr

inductive JournalFrame (Page Entry Cursor : Type) where
  | opened (cursor : Cursor) (page : Page)
  | entry (entry : Entry)

inductive JournalChange (Page Entry : Type) where
  | replace (page : Page) (entries : List Entry) (hasMore : Bool)
  | prepend (page : Page) (entries : List Entry) (hasMore : Bool)
  | append (entry : Entry)

structure JournalItem (Page Entry Cursor : Type) where
  generation : Nat
  value : JournalFrame Page Entry Cursor

/-- How a promise of `iterator.next()` settles. -/
inductive NextResult (Page Entry Cursor : Type) where
  | item (item : JournalItem Page Entry Cursor)
  | done
  | error (failure : Thrown)

/-- `RemoteJournalStreamOptions`, less its sinks. -/
structure JournalOptions (Page Entry Cursor : Type) where
  name : String
  emptyCursor : Cursor
  entries : Page → List Entry
  hasMore : Page → Bool
  first : Entry → Cursor
  last : Entry → Cursor
  compare : Cursor → Cursor → Int
  follows : Cursor → Cursor → Bool

/-- A `replaceThrough` that waits for its page: `through` is the cursor of the current read, which
is the first or the second one, and `page` is what that read came to. -/
structure Repair (Page Entry Cursor : Type) where
  requiredCursor : Cursor
  generation : Nat
  queued : List Entry
  through : Cursor
  again : Bool
  page : Option (Except Thrown Page)

inductive Consumer (Page Entry Cursor : Type) where
  | idle
  | opening
  | consuming
  | repairing (repair : Repair Page Entry Cursor)
  | merging (repair : Repair Page Entry Cursor) (page : Page)
  | replacing (generation : Nat)
  | superseded (item : JournalItem Page Entry Cursor)
  | ended (failure : Option Thrown)

/-- A `prepend` call, at its read or over. -/
inductive PrependCall (Cursor : Type) where
  | reading (through : Option Cursor)
  | ended (failure : Option Thrown)

/-- The fields of the stream, the promise of the iterator, the calls of the two sinks, and the
stream underneath: its generation, the abort signals, and the items taken from it. -/
structure Journal (Page Entry Cursor : Type) where
  resumeCursor : Option Cursor := none
  generation : Nat := 0
  firstCursor : Option Cursor := none
  lastCursor : Option Cursor := none
  started : Bool := false
  opened : Bool := false
  disposed : Bool := false
  pendingNext : Option (Option (NextResult Page Entry Cursor)) := none
  consumer : Consumer Page Entry Cursor := .idle
  prepends : List (PrependCall Cursor) := []
  published : List (JournalChange Page Entry) := []
  reported : List Thrown := []
  streamGeneration : Nat := 0
  generationAborted : Bool := false
  signalAborted : Bool := false
  taken : List (JournalItem Page Entry Cursor) := []

variable {Page Entry Cursor : Type}

namespace JournalOptions

variable (o : JournalOptions Page Entry Cursor)

def violation (message : String) : Thrown := .protocolViolation (o.name ++ message)

def tailCursor (entries : List Entry) : Cursor :=
  match entries.getLast? with
  | none => o.emptyCursor
  | some tail => o.last tail

def entryRange (entry : Entry) : Except Thrown (Cursor × Cursor) :=
  let first := o.first entry
  let last := o.last entry
  if o.compare first last > 0 then .error (o.violation " entry has an inverted cursor range")
  else .ok (first, last)

/-- The loop of `assertPage`, behind a first entry. -/
def assertAdjacent : Cursor × Cursor → List Entry → Except Thrown Unit
  | _, [] => .ok ()
  | previousRange, entry :: rest =>
    match o.entryRange entry with
    | .error failure => .error failure
    | .ok range =>
      if o.follows previousRange.2 range.1 then assertAdjacent range rest
      else .error (o.violation " page contains discontinuous entries")

def assertPage (entries : List Entry) : Except Thrown Unit :=
  match entries with
  | [] => .ok ()
  | first :: rest =>
    match o.entryRange first with
    | .error failure => .error failure
    | .ok range => o.assertAdjacent range rest

def assertPageThrough (page : Page) (through : Cursor) : Except Thrown Unit :=
  if o.compare (o.tailCursor (o.entries page)) through ≠ 0 then
    .error (o.violation " page did not end at its requested cursor")
  else .ok ()

def maxCursor (cursor : Cursor) (entries : List Entry) : Cursor :=
  entries.foldl
    (fun result entry =>
      let candidate := o.last entry
      if o.compare candidate result > 0 then candidate else result)
    cursor

/-- The loop of `mergeReplacement` over the sorted queue. -/
def mergeSorted : List Entry → Cursor → List Entry → Except Thrown (Option (List Entry))
  | entries, _, [] => .ok (some entries)
  | entries, tail, entry :: rest =>
    let first := o.first entry
    let last := o.last entry
    if o.compare last tail ≤ 0 then mergeSorted entries tail rest
    else if o.compare first tail ≤ 0 then
      .error (o.violation " replacement contains a partially overlapping entry")
    else if !o.follows tail first then .ok none
    else mergeSorted (entries ++ [entry]) last rest

def assertRanges : List Entry → Except Thrown Unit
  | [] => .ok ()
  | entry :: rest =>
    match o.entryRange entry with
    | .error failure => .error failure
    | .ok _ => assertRanges rest

def mergeReplacement (page : Page) (queued : List Entry) : Except Thrown (Option (List Entry)) :=
  let entries := o.entries page
  match o.assertPage entries with
  | .error failure => .error failure
  | .ok () =>
    match o.assertRanges queued with
    | .error failure => .error failure
    | .ok () =>
      let sorted := queued.mergeSort fun left right => o.compare (o.first left) (o.first right) ≤ 0
      o.mergeSorted entries (o.tailCursor entries) sorted

end JournalOptions

namespace Journal

variable (o : JournalOptions Page Entry Cursor) (j : Journal Page Entry Cursor)

def isAborted (generation : Nat) : Bool :=
  j.signalAborted || j.generationAborted || generation < j.streamGeneration

def publish (change : JournalChange Page Entry) : Journal Page Entry Cursor :=
  { j with published := j.published ++ [change] }

def nextResult : Journal Page Entry Cursor :=
  match j.pendingNext with
  | none => { j with pendingNext := some none }
  | some _ => j

/-- The loop of `consume`, at its next `takeNext`. -/
def consume : Journal Page Entry Cursor := nextResult { j with consumer := .consuming }

/-- An error in `consume`. -/
def fail (failure : Thrown) : Journal Page Entry Cursor :=
  { j with
    consumer := .ended (some failure)
    reported := if j.disposed then j.reported else j.reported ++ [failure] }

/-- An error in `open`, which disposes the stream. -/
def openFailed (failure : Thrown) : Journal Page Entry Cursor :=
  { j with consumer := .ended (some failure), signalAborted := true }

/-- `this.firstCursor` and the two that end the window, with the window published. -/
def replaceWindow (page : Page) (entries : List Entry) (cursor : Cursor) :
    Journal Page Entry Cursor :=
  publish
    { j with
      firstCursor := entries.head?.map o.first
      lastCursor := some cursor
      resumeCursor := some cursor }
    (.replace page entries (o.hasMore page))

def replaceFromOpening (page : Page) (cursor : Cursor) :
    Except Thrown (Journal Page Entry Cursor) :=
  match o.assertPageThrough page cursor, o.assertPage (o.entries page) with
  | .error failure, _ => .error failure
  | .ok (), .error failure => .error failure
  | .ok (), .ok () => .ok (j.replaceWindow o page (o.entries page) cursor)

/-- `opening`, less its acceptance of the item. -/
def openingOf (item : JournalItem Page Entry Cursor) (resumed : Bool) :
    Except Thrown (Cursor × Page) :=
  match item.value with
  | .entry _ =>
    let name := (if resumed then "resumed " else "") ++ o.name
    .error (.protocolViolation (name ++ " emitted an entry before its opening cursor"))
  | .opened cursor page =>
    match j.lastCursor with
    | some last =>
      if resumed ∧ o.compare cursor last < 0 then
        .error (o.violation " resumed at a cursor behind the last applied entry")
      else .ok (cursor, page)
    | none => .ok (cursor, page)

/-- `replaceGeneration`, with the error that it ended with. -/
def replaceGeneration (item : JournalItem Page Entry Cursor) (resumed : Bool) :
    Journal Page Entry Cursor × Option Thrown :=
  match j.openingOf o item resumed with
  | .error failure => (j, some failure)
  | .ok (cursor, page) =>
    let accepted := { j with generation := item.generation }
    match accepted.replaceFromOpening o page cursor with
    | .error failure => (accepted, some failure)
    | .ok replaced => (replaced, none)

/-- A generation after the first, in the loop of `consume`. -/
def resumeGeneration (item : JournalItem Page Entry Cursor) : Journal Page Entry Cursor :=
  match j.replaceGeneration o item true with
  | (failed, some failure) => failed.fail failure
  | (replaced, none) => replaced.consume

/-- A read of `replaceThrough` begins. -/
def readPage (repair : Repair Page Entry Cursor) : Journal Page Entry Cursor :=
  nextResult { j with consumer := .repairing { repair with page := none } }

def acceptEntry (entry : Entry) (generation : Nat) : Journal Page Entry Cursor :=
  match o.entryRange entry, j.lastCursor with
  | .error failure, _ => j.fail failure
  | .ok _, none => j
  | .ok (first, cursor), some last =>
    if o.compare cursor last ≤ 0 then j.consume
    else if o.compare first last ≤ 0 then
      j.fail (o.violation " emitted a partially overlapping entry")
    else if !o.follows last first then j.readPage ⟨cursor, generation, [entry], cursor, false, none⟩
    else
      let appended :=
        { j with
          firstCursor := j.firstCursor.or (some first)
          lastCursor := some cursor
          resumeCursor := some cursor }
      (appended.publish (.append entry)).consume

/-- The page of a `replaceThrough` did not reach the target: it is read once more. -/
def readAgain (repair : Repair Page Entry Cursor) (target : Cursor) : Journal Page Entry Cursor :=
  if repair.again then j.fail (o.violation " page did not reach its opening cursor")
  else j.readPage { repair with through := target, again := true }

/-- `replaceThrough` behind one of its reads. -/
def replaceThrough (repair : Repair Page Entry Cursor) (page : Page) : Journal Page Entry Cursor :=
  match o.assertPageThrough page repair.through with
  | .error failure => j.fail failure
  | .ok () =>
    match o.mergeReplacement page repair.queued with
    | .error failure => j.fail failure
    | .ok none => j.readAgain o repair (o.maxCursor repair.requiredCursor repair.queued)
    | .ok (some entries) =>
      let target := o.maxCursor repair.requiredCursor repair.queued
      let tail := o.tailCursor entries
      if o.compare tail target < 0 then j.readAgain o repair target
      else (j.replaceWindow o page entries tail).consume

def secondOpening : Thrown := o.violation " emitted more than one opening cursor"

def take (item : JournalItem Page Entry Cursor) : Journal Page Entry Cursor :=
  { j with taken := j.taken ++ [item] }

/-- `open` behind its `takeNext`. -/
def openNext : NextResult Page Entry Cursor → Journal Page Entry Cursor
  | .done => j.openFailed (o.violation " ended before its opening cursor")
  | .error failure => j.openFailed failure
  | .item item =>
    match (j.take item).replaceGeneration o item false with
    | (failed, some failure) => failed.openFailed failure
    | (replaced, none) => consume { replaced with opened := true }

/-- `consume` behind its `takeNext`. -/
def consumeNext : NextResult Page Entry Cursor → Journal Page Entry Cursor
  | .done => { j with consumer := .ended none }
  | .error failure => j.fail failure
  | .item item =>
    let taken := j.take item
    if item.generation ≠ j.generation then taken.resumeGeneration o item
    else
      match item.value with
      | .opened _ _ => taken.fail (secondOpening o)
      | .entry entry => taken.acceptEntry o entry item.generation

/-- `readPageWhileFollowing` when the stream was faster than the page. -/
def repairNext (repair : Repair Page Entry Cursor) :
    NextResult Page Entry Cursor → Journal Page Entry Cursor
  | .done =>
    if j.isAborted repair.generation then j.fail .aborted
    else j.fail (o.violation " ended while reading its replacement page")
  | .error failure => j.fail failure
  | .item item =>
    let taken := j.take item
    if item.generation ≠ repair.generation then { taken with consumer := .superseded item }
    else
      match item.value with
      | .opened _ _ => taken.fail (secondOpening o)
      | .entry entry =>
        nextResult
          { taken with consumer := .repairing { repair with queued := repair.queued ++ [entry] } }

/-- `awaitReplacementGeneration` behind its `await`. -/
def replacingNext (generation : Nat) : NextResult Page Entry Cursor → Journal Page Entry Cursor
  | .done =>
    if j.signalAborted then j.fail .aborted
    else j.fail (o.violation " ended while replacing an aborted page generation")
  | .error failure => j.fail failure
  | .item item =>
    let taken := j.take item
    if item.generation ≠ generation then { taken with consumer := .superseded item }
    else
      match item.value with
      | .opened _ _ => taken.fail (secondOpening o)
      | .entry _ => taken.nextResult

def advance : Journal Page Entry Cursor :=
  match j.pendingNext with
  | some (some result) =>
    let released := { j with pendingNext := none }
    match j.consumer with
    | .opening => released.openNext o result
    | .consuming => released.consumeNext o result
    | .repairing repair => released.repairNext o repair result
    | .replacing generation => released.replacingNext o generation result
    | _ => j
  | _ => j

/-- The continuations of `replaceThrough` and `acceptEntry`. -/
def proceed : Journal Page Entry Cursor :=
  match j.consumer with
  | .merging repair page => j.replaceThrough o repair page
  | .superseded item => j.resumeGeneration o item
  | _ => j

/-- `open` up to its first `await`. -/
def start : Journal Page Entry Cursor :=
  if j.started then j else nextResult { j with started := true, consumer := .opening }

/-- `prepend` up to its read. -/
def prepend : Journal Page Entry Cursor :=
  let call : PrependCall Cursor :=
    if !j.opened || j.disposed then .ended (some (.error (o.name ++ " is not open")))
    else .reading j.resumeCursor
  { j with prepends := j.prepends ++ [call] }

def endPrepend (id : Nat) (failure : Option Thrown) : Journal Page Entry Cursor :=
  { j with prepends := j.prepends.set id (.ended failure) }

/-- The entries of a page that a `prepend` puts before the window. -/
def olderEntries (page : Page) : List Entry :=
  match j.firstCursor with
  | none => o.entries page
  | some before => (o.entries page).filter fun entry => o.compare (o.first entry) before < 0

def endBefore (accepted : List Entry) : Bool :=
  match accepted.getLast?, j.firstCursor with
  | some tail, some before => o.follows (o.last tail) before
  | _, _ => true

def prependPage (id : Nat) (page : Page) : Journal Page Entry Cursor :=
  let accepted := j.olderEntries o page
  if !j.endBefore o accepted then
    (j.publish (.prepend page [] false)).endPrepend id
      (some (o.violation " history page is discontinuous"))
  else
    let moved := { j with firstCursor := (accepted.head?.map o.first).or j.firstCursor }
    (moved.publish (.prepend page accepted (o.hasMore page))).endPrepend id none

/-- `prepend` behind its read. -/
def prependRead (id : Nat) (result : Except Thrown Page) : Journal Page Entry Cursor :=
  match j.prepends[id]? with
  | some (.reading _) =>
    match result with
    | .error failure => j.endPrepend id (some failure)
    | .ok page =>
      if j.signalAborted then j.endPrepend id (some .aborted)
      else
        match o.assertPage (o.entries page) with
        | .error failure => j.endPrepend id (some failure)
        | .ok () => j.prependPage o id page
  | _ => j

def dispose : Journal Page Entry Cursor := { j with disposed := true, signalAborted := true }

def restart : Journal Page Entry Cursor :=
  if j.signalAborted then j else { j with generationAborted := true }

end Journal

def applyChange (window : List Entry) : JournalChange Page Entry → List Entry
  | .replace _ entries _ => entries
  | .prepend _ entries _ => entries ++ window
  | .append entry => window ++ [entry]

def Journal.window (j : Journal Page Entry Cursor) : List Entry := j.published.foldl applyChange []

end DshKernel.Gateway
