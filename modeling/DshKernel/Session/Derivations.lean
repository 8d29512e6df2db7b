import DshKernel.Session.Reload

/-!
# Cached derivations

The four reads of a session that are cached, over a heap of the arrays and objects that they
hand out: a caller keeps an address, so what a later call writes there would change under it.
-/

namespace DshKernel.Session

open Js SurfaceManager Option

def canonicalHeader (header : EpochHeader) : EpochHeader where
  config := header.config
  adapterDefaults := header.adapterDefaults.filter fun defaults =>
    defaults.reasoningEffort || defaults.maxTokens
  system := header.system.filter fun system => !system.isEmpty
  tools := header.tools.filter fun tools => !tools.isEmpty

def foldRequestHeader (events : List SessionEvent) (start : Option EpochHeader) : Option EpochHeader :=
  events.foldl (fun state event =>
    match event.data with
    | .requestHeader data => some (canonicalHeader data.header)
    | _ => state) start

/-- The metadata of the last `request/context` event. -/
def foldRequestContext (events : List SessionEvent) (start : Option RequestContext) :
    Option RequestContext :=
  events.foldl (fun state event =>
    match event.data with
    | .requestContext context => some context
    | _ => state) start

inductive HeapObject where
  | messages (messages : List Message)
  | events (events : List SessionEvent)
  | header (header : EpochHeader)
  | context (context : RequestContext)

abbrev Heap := List HeapObject

/-- A session with the addresses that it holds. `derived` is the private array whose content is
`session.derived`. -/
structure CachedSession where
  session : Session
  heap : Heap
  derived : Nat
  eventsSnapshot : Option Nat := none
  headerFold : Option Nat := none
  headerFoldSeq : Nat := 0
  contextFold : Option Nat := none
  contextFoldSeq : Nat := 0

inductive ReadCall where
  | deriveMessages
  | requestHeader
  | requestContext
  | snapshotEvents (fromSeq : Nat) (toSeqExclusive : Option Nat)

namespace CachedSession

def create (session : Session) : CachedSession where
  session := session
  heap := [.messages []]
  derived := 0

def append (c : CachedSession) (data : EventData) (opts : SurfaceIntent) (now : Clock)
    (veto : Option String) : Except String SessionEvent × CachedSession :=
  match c.session.append data opts now veto with
  | (.error message, session) => (.error message, { c with session })
  | (.ok event, session) => (.ok event, { c with session, eventsSnapshot := none })

def messagesAt (heap : Heap) (ref : Nat) : List Message :=
  match heap[ref]? with
  | some (.messages messages) => messages
  | _ => []

def deriveMessages (c : CachedSession) : Except String Nat × CachedSession :=
  match readNodes c.session.log c.session.manager with
  | (.error message, manager) => (.error message, { c with session := { c.session with manager } })
  | (.ok nodes, manager) =>
    match readReplaceGeneration c.session.log manager with
    | (.error message, manager) => (.error message, { c with session := { c.session with manager } })
    | (.ok generation, manager) =>
      let stale := generation ≠ c.session.derivedGeneration
      -- `this.derived = []` is a new array, which the pushes then change
      let derived := if stale then c.heap.length else c.derived
      let heap := if stale then c.heap ++ [.messages []] else c.heap
      let content := messagesAt heap derived
        ++ (nodes.drop (if stale then 0 else c.session.derivedNodes)).filterMap
          (Session.projectNode c.session.events)
      let heap := heap.set derived (.messages content)
      (.ok heap.length,
        { c with
          session :=
            { c.session with
              manager, derived := content, derivedNodes := nodes.length
              derivedGeneration := generation }
          heap := heap ++ [.messages content], derived })

def foldObjects (make : SessionEvent → Option HeapObject) (events : List SessionEvent)
    (start : Option Nat × Heap) : Option Nat × Heap :=
  events.foldl (fun (ref, heap) event =>
    match make event with
    | none => (ref, heap)
    | some object => (some heap.length, heap ++ [object])) start

def headerObject (event : SessionEvent) : Option HeapObject :=
  match event.data with
  | .requestHeader data => some (.header (canonicalHeader data.header))
  | _ => none

def contextObject (event : SessionEvent) : Option HeapObject :=
  match event.data with
  | .requestContext context => some (.context context)
  | _ => none

def requestHeader (c : CachedSession) : Option Nat × CachedSession :=
  if c.headerFoldSeq < c.session.log.length then
    let (headerFold, heap) := foldObjects headerObject (c.session.events.drop c.headerFoldSeq)
      (c.headerFold, c.heap)
    (headerFold, { c with heap, headerFold, headerFoldSeq := c.session.log.length })
  else (c.headerFold, c)

def requestContext (c : CachedSession) : Option Nat × CachedSession :=
  if c.contextFoldSeq < c.session.log.length then
    let (contextFold, heap) := foldObjects contextObject (c.session.events.drop c.contextFoldSeq)
      (c.contextFold, c.heap)
    (contextFold, { c with heap, contextFold, contextFoldSeq := c.session.log.length })
  else (c.contextFold, c)

def snapshotEvents (c : CachedSession) (fromSeq : Nat) (toSeqExclusive : Option Nat) :
    Nat × CachedSession :=
  let toSeq := toSeqExclusive.getD c.session.log.length
  if fromSeq = 0 ∧ toSeq = c.session.log.length then
    match c.eventsSnapshot with
    | some ref => (ref, c)
    | none =>
      (c.heap.length,
        { c with heap := c.heap ++ [.events c.session.events], eventsSnapshot := some c.heap.length })
  else
    (c.heap.length,
      { c with heap := c.heap ++ [.events ((c.session.events.take toSeq).drop fromSeq)] })

def read (c : CachedSession) : ReadCall → Except String (Option Nat) × CachedSession
  | .deriveMessages => (c.deriveMessages.1.map some, c.deriveMessages.2)
  | .requestHeader => (.ok c.requestHeader.1, c.requestHeader.2)
  | .requestContext => (.ok c.requestContext.1, c.requestContext.2)
  | .snapshotEvents fromSeq toSeq =>
    (.ok (some (c.snapshotEvents fromSeq toSeq).1), (c.snapshotEvents fromSeq toSeq).2)

inductive Later : CachedSession → CachedSession → Prop where
  | refl (c : CachedSession) : Later c c
  | append {c later : CachedSession} (data : EventData) (opts : SurfaceIntent) (now : Clock)
      (veto : Option String) : Later c later → Later c (later.append data opts now veto).2
  | read {c later : CachedSession} (call : ReadCall) : Later c later → Later c (later.read call).2

def fromScratch (events : List SessionEvent) : ReadCall → Except String (Option HeapObject)
  | .deriveMessages => (foldSurface events).map fun result => some (.messages
      (result.nodes.filterMap fun seq => events[seq]?.bind deriveEventMessage))
  | .requestHeader => .ok ((foldRequestHeader events none).map .header)
  | .requestContext => .ok ((foldRequestContext events none).map .context)
  | .snapshotEvents fromSeq toSeq =>
    .ok (some (.events ((events.take (toSeq.getD events.length)).drop fromSeq)))

/-- The caches stand for reads of a prefix of the log, and each address for what it should. -/
structure CachesOk (c : CachedSession) : Prop where
  live : Live c.session.log c.session.manager c.session.nextRef
  cached : Cached c.session
  derived : c.heap[c.derived]? = some (.messages c.session.derived)
  snapshot : ∀ ref, c.eventsSnapshot = some ref → c.heap[ref]? = some (.events c.session.events)
  headerSeq : c.headerFoldSeq ≤ c.session.log.length
  header : c.headerFold.map (fun ref => c.heap[ref]?) =
    (foldRequestHeader (c.session.events.take c.headerFoldSeq) none).map fun header =>
      some (.header header)
  contextSeq : c.contextFoldSeq ≤ c.session.log.length
  context : c.contextFold.map (fun ref => c.heap[ref]?) =
    (foldRequestContext (c.session.events.take c.contextFoldSeq) none).map fun context =>
      some (.context context)

/-- Every address but that of the private array keeps its content, and a new private array is
at a new address. -/
structure Keeps (c later : CachedSession) : Prop where
  content : ∀ ref, ref < c.heap.length → ref ≠ c.derived → later.heap[ref]? = c.heap[ref]?
  derived : later.derived = c.derived ∨ c.heap.length ≤ later.derived
  length : c.heap.length ≤ later.heap.length

theorem Keeps.refl (c : CachedSession) : Keeps c c :=
  ⟨fun _ _ _ => rfl, .inl rfl, Nat.le_refl _⟩

theorem Keeps.trans {a b c : CachedSession} (hab : Keeps a b) (hbc : Keeps b c) : Keeps a c := by
  have hlength := hab.length
  refine ⟨?_, ?_, Nat.le_trans hlength hbc.length⟩
  · intro ref hlt hne
    rw [← hab.content ref hlt hne]
    apply hbc.content ref (by omega)
    rcases hab.derived with heq | hnew
    · rw [heq]
      exact hne
    · omega
  · rcases hbc.derived with heq | hnew
    · rw [heq]
      exact hab.derived
    · exact .inr (by omega)

theorem keeps_of_isPrefix {c later : CachedSession} (hheap : c.heap <+: later.heap)
    (hderived : later.derived = c.derived) : Keeps c later := by
  obtain ⟨more, hmore⟩ := hheap
  refine ⟨?_, .inl hderived, ?_⟩
  · intro ref hlt _
    rw [← hmore, List.getElem?_append_left hlt]
  · rw [← hmore, List.length_append]
    omega

section Fold

variable {make : SessionEvent → Option HeapObject} {events : List SessionEvent}

variable {heap later : Heap} {ref : Option Nat}

theorem getElem?_of_isPrefix (h : heap <+: later) {ref : Nat} {object : HeapObject}
    (hget : heap[ref]? = some object) : later[ref]? = some object := by
  obtain ⟨more, rfl⟩ := h
  rw [List.getElem?_append_left (List.getElem?_eq_some_iff.mp hget).1, hget]

theorem foldObjects_spec {ref : Option Nat} {heap : Heap} {start : Option HeapObject}
    (h : ref.map (fun ref => heap[ref]?) = start.map some) :
    heap <+: (foldObjects make events (ref, heap)).2 ∧
      (foldObjects make events (ref, heap)).1.map
          (fun address => (foldObjects make events (ref, heap)).2[address]?) =
        (events.foldl (fun state event => (make event).or state) start).map some := by
  induction events generalizing ref heap start with
  | nil => exact ⟨List.prefix_refl _, h⟩
  | cons event rest ih =>
    cases hmake : make event with
    | none =>
      have hstep : foldObjects make (event :: rest) (ref, heap) = foldObjects make rest (ref, heap) := by
        simp only [foldObjects, List.foldl_cons, hmake]
      rw [hstep, List.foldl_cons, hmake, none_or]
      exact ih h
    | some object =>
      have hstep : foldObjects make (event :: rest) (ref, heap) =
          foldObjects make rest (some heap.length, heap ++ [object]) := by
        simp only [foldObjects, List.foldl_cons, hmake]
      rw [hstep, List.foldl_cons, hmake, some_or]
      obtain ⟨hgrows, hspec⟩ := @ih (some heap.length) (heap ++ [object]) (some object) (by simp)
      exact ⟨(List.prefix_append _ _).trans hgrows, hspec⟩

theorem headerObject_fold (start : Option EpochHeader) :
    events.foldl (fun state event => (headerObject event).or state) (start.map .header) =
      (foldRequestHeader events start).map .header := by
  induction events generalizing start with
  | nil => rfl
  | cons event rest ih =>
    simp only [List.foldl_cons, foldRequestHeader] at ih ⊢
    rw [← ih]
    congr 1
    unfold headerObject
    split
    · rfl
    · rw [none_or]

theorem contextObject_fold (start : Option RequestContext) :
    events.foldl (fun state event => (contextObject event).or state) (start.map .context) =
      (foldRequestContext events start).map .context := by
  induction events generalizing start with
  | nil => rfl
  | cons event rest ih =>
    simp only [List.foldl_cons, foldRequestContext] at ih ⊢
    rw [← ih]
    congr 1
    unfold contextObject
    split
    · rfl
    · rw [none_or]

theorem foldObjects_cache {α : Type} {wrap : α → HeapObject}
    {fold : List SessionEvent → Option α → Option α}
    (hfold : ∀ (events : List SessionEvent) (start : Option α),
      events.foldl (fun state event => (make event).or state) (start.map wrap) =
        (fold events start).map wrap) {seq : Nat}
    (h : ref.map (fun ref => heap[ref]?) = (fold (events.take seq) none).map fun value => some (wrap value)) :
    heap <+: (foldObjects make (events.drop seq) (ref, heap)).2 ∧
      (foldObjects make (events.drop seq) (ref, heap)).1.map
          (fun address => (foldObjects make (events.drop seq) (ref, heap)).2[address]?) =
        (fold events none).map fun value => some (wrap value) := by
  have hstart : ref.map (fun ref => heap[ref]?) = ((fold (events.take seq) none).map wrap).map some := by
    rw [h, map_map]
    rfl
  obtain ⟨hgrows, hspec⟩ := @foldObjects_spec make (events.drop seq) ref heap _ hstart
  refine ⟨hgrows, hspec.trans ?_⟩
  rw [← hfold, ← List.foldl_append, List.take_append_drop, hfold, map_map]
  rfl

theorem map_getElem?_of_isPrefix {α : Type} {wrap : α → HeapObject} {value : Option α}
    (hgrows : heap <+: later)
    (h : ref.map (fun ref => heap[ref]?) = value.map fun value => some (wrap value)) :
    ref.map (fun ref => later[ref]?) = value.map fun value => some (wrap value) := by
  cases ref with
  | none => exact h
  | some ref =>
    cases value with
    | none => cases h
    | some value =>
      have hget : heap[ref]? = some (wrap value) := by simpa using h
      simp only [map_some, getElem?_of_isPrefix hgrows hget]

end Fold

section Calls

variable {c : CachedSession}

variable {heap : Heap}

theorem CachesOk.grow (h : CachesOk c) (hgrows : c.heap <+: heap) :
    CachesOk { c with heap } where
  live := h.live
  cached := h.cached
  derived := getElem?_of_isPrefix hgrows h.derived
  snapshot := fun ref href => getElem?_of_isPrefix hgrows (h.snapshot ref href)
  headerSeq := h.headerSeq
  header := map_getElem?_of_isPrefix hgrows h.header
  contextSeq := h.contextSeq
  context := map_getElem?_of_isPrefix hgrows h.context

theorem requestHeader_spec (h : CachesOk c) :
    CachesOk c.requestHeader.2 ∧ Keeps c c.requestHeader.2 ∧
      c.requestHeader.1.map (fun ref => c.requestHeader.2.heap[ref]?) =
        (foldRequestHeader c.session.events none).map fun header => some (.header header) := by
  have hseq := h.headerSeq
  unfold requestHeader
  split
  · obtain ⟨hgrows, hspec⟩ := foldObjects_cache (fun _ start => headerObject_fold start) h.header
    refine ⟨?_, keeps_of_isPrefix hgrows rfl, hspec⟩
    have hgrown := h.grow hgrows
    refine ⟨h.live, h.cached, hgrown.derived, hgrown.snapshot, Nat.le_refl _, ?_, h.contextSeq,
      hgrown.context⟩
    rw [List.take_of_length_le (by simp)]
    exact hspec
  · refine ⟨h, .refl c, ?_⟩
    have hall := h.header
    rw [List.take_of_length_le (by rw [length_events]; omega)] at hall
    exact hall

theorem requestContext_spec (h : CachesOk c) :
    CachesOk c.requestContext.2 ∧ Keeps c c.requestContext.2 ∧
      c.requestContext.1.map (fun ref => c.requestContext.2.heap[ref]?) =
        (foldRequestContext c.session.events none).map fun context => some (.context context) := by
  have hseq := h.contextSeq
  unfold requestContext
  split
  · obtain ⟨hgrows, hspec⟩ := foldObjects_cache (fun _ start => contextObject_fold start) h.context
    refine ⟨?_, keeps_of_isPrefix hgrows rfl, hspec⟩
    have hgrown := h.grow hgrows
    refine ⟨h.live, h.cached, hgrown.derived, hgrown.snapshot, h.headerSeq, hgrown.header,
      Nat.le_refl _, ?_⟩
    rw [List.take_of_length_le (by simp)]
    exact hspec
  · refine ⟨h, .refl c, ?_⟩
    have hall := h.context
    rw [List.take_of_length_le (by rw [length_events]; omega)] at hall
    exact hall

theorem snapshotEvents_spec (h : CachesOk c) (fromSeq : Nat) (toSeq : Option Nat) :
    CachesOk (c.snapshotEvents fromSeq toSeq).2 ∧ Keeps c (c.snapshotEvents fromSeq toSeq).2 ∧
      (c.snapshotEvents fromSeq toSeq).2.heap[(c.snapshotEvents fromSeq toSeq).1]? =
        some (.events ((c.session.events.take (toSeq.getD c.session.events.length)).drop fromSeq)) := by
  rw [length_events]
  unfold snapshotEvents
  by_cases hfull : fromSeq = 0 ∧ toSeq.getD c.session.log.length = c.session.log.length
  · have hslice : (c.session.events.take (toSeq.getD c.session.log.length)).drop fromSeq =
        c.session.events := by
      rw [hfull.1, hfull.2, List.drop_zero, List.take_of_length_le (by simp)]
    rw [hslice]
    simp only [hfull, and_self, if_true]
    cases hsnapshot : c.eventsSnapshot with
    | some ref => exact ⟨h, .refl c, h.snapshot ref hsnapshot⟩
    | none =>
      have hgrown := h.grow (List.prefix_append c.heap [.events c.session.events])
      refine ⟨⟨h.live, h.cached, hgrown.derived, ?_, h.headerSeq, hgrown.header, h.contextSeq,
        hgrown.context⟩, keeps_of_isPrefix (List.prefix_append _ _) rfl, List.getElem?_concat_length⟩
      intro ref href
      cases href
      exact List.getElem?_concat_length
  · simp only [hfull, if_false]
    exact ⟨h.grow (List.prefix_append _ _), keeps_of_isPrefix (List.prefix_append _ _) rfl,
      List.getElem?_concat_length⟩

structure Rederived (c : CachedSession) (messages : List Message) (heap : Heap) (derived : Nat) :
    Prop where
  content : heap[derived]? = some (.messages messages)
  kept : ∀ ref object, c.heap[ref]? = some object → ref ≠ c.derived → heap[ref]? = some object
  address : derived = c.derived ∨ derived = c.heap.length
  length : c.heap.length ≤ heap.length
  below : derived < heap.length

variable {messages : List Message} {session : Session} {derived : Nat}

theorem deriveMessages_heap (h : CachesOk c)
    (heq : c.session.deriveMessages = (.ok messages, session)) :
    ∃ heap derived, c.deriveMessages = (.ok heap.length,
        { c with session, heap := heap ++ [.messages messages], derived }) ∧
      Rederived c messages heap derived := by
  have hbelow := (List.getElem?_eq_some_iff.mp h.derived).1
  have hold : messagesAt c.heap c.derived = c.session.derived := by
    simp only [messagesAt, h.derived]
  have hnew : messagesAt (c.heap ++ [.messages []]) c.heap.length = [] := by
    simp only [messagesAt, List.getElem?_concat_length]
  unfold Session.deriveMessages at heq
  unfold deriveMessages
  split at heq
  · cases heq
  · rename_i nodes manager hnodes
    split at heq
    · cases heq
    · rename_i generation later hgeneration
      by_cases hsame : generation = c.session.derivedGeneration
      · simp only [hnodes, hgeneration, ne_eq, hsame, not_true_eq_false, if_false, hold] at heq ⊢
        cases heq
        refine ⟨_, c.derived, rfl, ?_⟩
        refine ⟨?_, ?_, .inl rfl, ?_, ?_⟩
        · rw [List.getElem?_set_self hbelow]
        · intro ref object hget hne
          rw [List.getElem?_set_ne hne.symm, hget]
        · simp
        · rw [List.length_set]
          exact hbelow
      · simp only [hnodes, hgeneration, ne_eq, hsame, not_false_eq_true, if_true, hnew] at heq ⊢
        cases heq
        refine ⟨_, c.heap.length, rfl, ?_⟩
        refine ⟨?_, ?_, .inr rfl, ?_, ?_⟩
        · simp
        · intro ref object hget _
          have hlt := (List.getElem?_eq_some_iff.mp hget).1
          rw [List.getElem?_set_ne (by omega), List.getElem?_append_left hlt, hget]
        · simp
        · simp

theorem map_getElem?_of_kept {α : Type} {wrap : α → HeapObject} {ref : Option Nat} {value : Option α}
    {later : Heap}
    (hkept : ∀ ref object, heap[ref]? = some object → ref ≠ derived → later[ref]? = some object)
    (hderived : heap[derived]? = some (.messages messages)) (hwrap : ∀ value, wrap value ≠ .messages messages)
    (h : ref.map (fun ref => heap[ref]?) = value.map fun value => some (wrap value)) :
    ref.map (fun ref => later[ref]?) = value.map fun value => some (wrap value) := by
  cases ref with
  | none => exact h
  | some ref =>
    cases value with
    | none => cases h
    | some value =>
      have hget : heap[ref]? = some (wrap value) := by simpa using h
      have hne : ref ≠ derived := by
        rintro rfl
        rw [hget] at hderived
        exact hwrap value (some.inj hderived)
      simp only [map_some, hkept ref _ hget hne]

theorem CachesOk.rederived (h : CachesOk c) (hheap : Rederived c messages heap derived)
    (hlive : Live session.log session.manager session.nextRef) (hcached : Cached session)
    (hlog : session.log = c.session.log) (hmessages : session.derived = messages) :
    CachesOk { c with session, heap, derived } := by
  have hevents : session.events = c.session.events := congrArg SurfaceManager.events hlog
  refine ⟨hlive, hcached, ?_, ?_, ?_, ?_, ?_, ?_⟩
  · rw [hmessages]
    exact hheap.content
  · intro ref href
    have hget := h.snapshot ref href
    rw [hevents]
    apply hheap.kept ref _ hget
    rintro rfl
    rw [h.derived] at hget
    cases hget
  · rw [hlog]
    exact h.headerSeq
  · rw [hevents]
    exact map_getElem?_of_kept hheap.kept h.derived (by simp) h.header
  · rw [hlog]
    exact h.contextSeq
  · rw [hevents]
    exact map_getElem?_of_kept hheap.kept h.derived (by simp) h.context

theorem deriveMessages_spec (h : CachesOk c) :
    ∃ ref result, c.deriveMessages.1 = .ok ref ∧ foldSurface c.session.events = .ok result ∧
      CachesOk c.deriveMessages.2 ∧ Keeps c c.deriveMessages.2 ∧ ref ≠ c.deriveMessages.2.derived ∧
      c.deriveMessages.2.heap[ref]? =
        some (.messages (surfaceMessages c.session.events result.nodes)) := by
  obtain ⟨state, replacements, hfold⟩ := h.live.folds
  obtain ⟨manager, heq, hlive⟩ := deriveMessages_eq h.live h.cached hfold
  obtain ⟨heap, derived, hcall, hheap⟩ := deriveMessages_heap h heq
  have hcached : Cached { c.session with
      manager
      derived := surfaceMessages c.session.events state.nodes
      derivedNodes := state.nodes.length
      derivedGeneration := state.replaceGeneration } := by
    refine ⟨c.session.log.length, state, replacements, Nat.le_refl _, ?_, rfl, rfl, rfl⟩
    show Folds (c.session.events.take c.session.log.length) state replacements
    rw [List.take_of_length_le (by simp)]
    exact hfold
  have hok := (h.rederived hheap hlive hcached rfl rfl).grow
    (List.prefix_append heap [.messages (surfaceMessages c.session.events state.nodes)])
  rw [hcall]
  refine ⟨heap.length, ⟨state.nodes, replacements⟩, rfl, hfold.foldSurface_eq, hok, ?_, ?_,
    List.getElem?_concat_length⟩
  · refine ⟨?_, ?_, ?_⟩
    · intro ref hlt hne
      have hget := hheap.kept ref _ (List.getElem?_eq_getElem hlt) hne
      show (heap ++ _)[ref]? = _
      rw [getElem?_of_isPrefix (List.prefix_append _ _) hget, List.getElem?_eq_getElem hlt]
    · rcases hheap.address with heq | heq
      · exact .inl heq
      · exact .inr (Nat.le_of_eq heq.symm)
    · have hle := hheap.length
      show c.heap.length ≤ (heap ++ _).length
      rw [List.length_append]
      omega
  · have hlt := hheap.below
    show heap.length ≠ derived
    omega

theorem append_spec (h : CachesOk c) (data : EventData) (opts : SurfaceIntent) (now : Clock)
    (veto : Option String) :
    CachesOk (c.append data opts now veto).2 ∧ Keeps c (c.append data opts now veto).2 := by
  unfold append
  rcases append_cases h.live data opts now veto with
    ⟨message, manager, nextRef, heq, hlive⟩ | ⟨event, manager, heq, hlive, -, -⟩
  · rw [heq]
    exact ⟨⟨hlive, h.cached, h.derived, h.snapshot, h.headerSeq, h.header, h.contextSeq, h.context⟩,
      keeps_of_isPrefix (List.prefix_refl _) rfl⟩
  · rw [heq]
    have hevents : (SurfaceManager.events (c.session.log ++ [⟨c.session.nextRef, event⟩])) =
        c.session.events ++ [event] := events_append _ _
    have htake : ∀ seq, seq ≤ c.session.log.length →
        (c.session.events ++ [event]).take seq = c.session.events.take seq := by
      intro seq hle
      exact List.take_append_of_le_length (by simpa using hle)
    have hheaderSeq := h.headerSeq
    have hcontextSeq := h.contextSeq
    refine ⟨⟨hlive, h.cached.push, h.derived, ?_, ?_, ?_, ?_, ?_⟩,
      keeps_of_isPrefix (List.prefix_refl _) rfl⟩
    · intro ref href
      cases href
    · show c.headerFoldSeq ≤ (c.session.log ++ _).length
      rw [List.length_append]
      omega
    · show _ = (foldRequestHeader ((SurfaceManager.events (c.session.log ++ _)).take _) none).map _
      rw [hevents, htake _ hheaderSeq]
      exact h.header
    · show c.contextFoldSeq ≤ (c.session.log ++ _).length
      rw [List.length_append]
      omega
    · show _ = (foldRequestContext ((SurfaceManager.events (c.session.log ++ _)).take _) none).map _
      rw [hevents, htake _ hcontextSeq]
      exact h.context

theorem read_spec (h : CachesOk c) (call : ReadCall) :
    CachesOk (c.read call).2 ∧ Keeps c (c.read call).2 ∧ ∃ ref value, (c.read call).1 = .ok ref ∧
      fromScratch c.session.events call = .ok value ∧
      ref.map (fun ref => (c.read call).2.heap[ref]?) = value.map some ∧
      ∀ address ∈ ref, address ≠ (c.read call).2.derived := by
  -- an object of another kind is not at the address of the private array
  have hother : ∀ {later : CachedSession} {address : Nat} {object : HeapObject}, CachesOk later →
      later.heap[address]? = some object → (∀ messages, object ≠ .messages messages) →
      address ≠ later.derived := by
    intro later address object hlater hget hkind heq
    rw [heq, hlater.derived] at hget
    exact hkind _ (some.inj hget).symm
  cases call with
  | deriveMessages =>
    obtain ⟨ref, result, hresult, hfold, hok, hkeeps, hne, hget⟩ := deriveMessages_spec h
    refine ⟨hok, hkeeps, some ref, some (.messages (surfaceMessages c.session.events result.nodes)),
      ?_, ?_, ?_, ?_⟩
    · simp only [read, hresult]
      rfl
    · simp only [fromScratch, hfold]
      rfl
    · simp only [read, map_some, hget]
    · intro address haddress
      cases haddress
      exact hne
  | requestHeader =>
    obtain ⟨hok, hkeeps, hspec⟩ := requestHeader_spec h
    refine ⟨hok, hkeeps, c.requestHeader.1, _, rfl, rfl, ?_, ?_⟩
    · rw [map_map]
      exact hspec
    · intro address haddress
      rw [mem_def.mp haddress] at hspec
      obtain ⟨header, -, hget⟩ := map_eq_some_iff.mp hspec.symm
      exact hother hok hget.symm (by simp)
  | requestContext =>
    obtain ⟨hok, hkeeps, hspec⟩ := requestContext_spec h
    refine ⟨hok, hkeeps, c.requestContext.1, _, rfl, rfl, ?_, ?_⟩
    · rw [map_map]
      exact hspec
    · intro address haddress
      rw [mem_def.mp haddress] at hspec
      obtain ⟨context, -, hget⟩ := map_eq_some_iff.mp hspec.symm
      exact hother hok hget.symm (by simp)
  | snapshotEvents fromSeq toSeq =>
    obtain ⟨hok, hkeeps, hget⟩ := snapshotEvents_spec h fromSeq toSeq
    refine ⟨hok, hkeeps, some (c.snapshotEvents fromSeq toSeq).1, _, rfl, rfl, ?_, ?_⟩
    · simp only [read, map_some, hget]
    · intro address haddress
      cases haddress
      exact hother hok hget (by simp)

theorem Later.keeps {later : CachedSession} (h : CachesOk c) (hlater : Later c later) :
    CachesOk later ∧ Keeps c later := by
  induction hlater with
  | refl => exact ⟨h, .refl c⟩
  | append data opts now veto _ ih =>
    obtain ⟨hok, hkeeps⟩ := append_spec ih.1 data opts now veto
    exact ⟨hok, ih.2.trans hkeeps⟩
  | read call _ ih =>
    obtain ⟨hok, hkeeps, -⟩ := read_spec ih.1 call
    exact ⟨hok, ih.2.trans hkeeps⟩

end Calls

section Construction

variable {restored : Bool} {seed : Option (List SessionEvent)} {header : Except String Json}
variable {supplied : Option Nat} {now : Clock} {s : Session}

theorem cachesOk_create (h : Session.build restored seed header supplied now = .ok s) :
    CachesOk (create s) := by
  have hbuilt : Live s.log s.manager s.nextRef ∧ Cached s ∧ s.derived = [] := by
    unfold Session.build at h
    cases hseed : adoptSeed restored 0 (seed.getD []) {} with
    | error message => simp [hseed] at h
    | ok seeded =>
      obtain ⟨hlive, -, -⟩ := adoptSeed_sound hseed live_create
      cases hfinish : Session.finish header seed supplied seeded with
      | error message => simp [hseed, hfinish] at h
      | ok built =>
        obtain ⟨-, validHeader, -, -, -, -, -, hfields⟩ := finish_eq_ok.mp hfinish
        have hfresh : Live built.log built.manager built.nextRef ∧ Cached built ∧ built.derived = [] := by
          subst hfields
          exact ⟨hlive, ⟨0, createFoldState, [], Nat.zero_le _, Folds.nil, rfl, rfl, rfl⟩, rfl⟩
        simp only [hseed, hfinish] at h
        split at h
        · cases h
          exact hfresh
        · rcases markSeed_eq_ok h with rfl | rfl
          · exact hfresh
          · rcases append_cases hfresh.1 .endSeed {} now none with
              ⟨message, manager, nextRef, heq, hmarked⟩ | ⟨event, manager, heq, hmarked, -, -⟩
            · rw [heq]
              exact ⟨hmarked, hfresh.2⟩
            · rw [heq]
              exact ⟨hmarked, hfresh.2.1.push, hfresh.2.2⟩
  obtain ⟨hlive, hcached, hderived⟩ := hbuilt
  refine ⟨hlive, hcached, ?_, by simp [create], Nat.zero_le _, rfl, Nat.zero_le _, rfl⟩
  simp [create, hderived]

/-- Whatever was appended and read before, a read of a session gives what it would compute from
the log alone, and no later call changes what it handed out. -/
theorem read_eq_fromScratch (h : Session.build restored seed header supplied now = .ok s)
    {c : CachedSession} (hlater : Later (create s) c) (call : ReadCall) :
    ∃ ref value, (c.read call).1 = .ok ref ∧ fromScratch c.session.events call = .ok value ∧
      ref.map (fun ref => (c.read call).2.heap[ref]?) = value.map some ∧
      ∀ later, Later (c.read call).2 later →
        ref.map (fun ref => later.heap[ref]?) = value.map some := by
  obtain ⟨hc, -⟩ := hlater.keeps (cachesOk_create h)
  obtain ⟨hok, -, ref, value, hresult, hvalue, hget, hne⟩ := read_spec hc call
  refine ⟨ref, value, hresult, hvalue, hget, ?_⟩
  intro later hafter
  obtain ⟨-, hkeeps⟩ := hafter.keeps hok
  cases ref with
  | none => exact hget
  | some address =>
    cases value with
    | none => cases hget
    | some object =>
      have hbefore : (c.read call).2.heap[address]? = some object := by simpa using hget
      have hlt := (List.getElem?_eq_some_iff.mp hbefore).1
      rw [map_some, hkeeps.content address hlt (hne address rfl), hbefore]
      rfl

def promptedSession : CachedSession :=
  ((create freshSession).append (.userMessage ⟨"prompt", [], .user⟩)
    { surfaceOp := some (.str "append") } epoch none).2

theorem read_eq_fromScratch_prompted : ∃ ref, (promptedSession.read .deriveMessages).1 = .ok (some ref) ∧
    ∀ later, Later (promptedSession.read .deriveMessages).2 later →
      later.heap[ref]? = some (.messages [.user ⟨"prompt", [], .user⟩]) := by
  have hlater : Later (create freshSession) promptedSession := .append _ _ _ _ (.refl _)
  obtain ⟨ref, value, hresult, hvalue, -, hkept⟩ :=
    read_eq_fromScratch create_freshSession hlater .deriveMessages
  have hmessages : fromScratch promptedSession.session.events .deriveMessages =
      .ok (some (.messages [.user ⟨"prompt", [], .user⟩])) := rfl
  cases hmessages.symm.trans hvalue
  cases ref with
  | none => cases hresult
  | some ref =>
    refine ⟨ref, hresult, ?_⟩
    intro later hafter
    simpa using hkept later hafter

end Construction

end CachedSession

end DshKernel.Session
