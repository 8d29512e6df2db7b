import DshKernel.Gateway.RemoteEvents

/-!
# Remote waterfall events are settled once

The deliveries that the gateway records on both sides are the outstanding offers, over every order
of connections, dispatches, answers and ends of streams.
-/

namespace DshKernel.Gateway.RemoteEvents

open Lib Happening OrderedMap PendingRemoteEvent List

variable {δ ε R V E : Type}

/-- Which clients and events there are, under which numbers, and the deliveries that each side
records. -/
@[ext] structure Records (δ ε : Type) where
  client : δ → Nat → Prop
  event : ε → Nat → Prop
  held : δ → ε → Prop
  awaited : ε → Nat → Prop

namespace Records

structure Agree (r : Records δ ε) : Prop where
  client_inj : ∀ {key key' generation}, r.client key generation → r.client key' generation → key = key'
  client_fun : ∀ {key generation generation'}, r.client key generation → r.client key generation' →
    generation = generation'
  event_inj : ∀ {id id' source}, r.event id source → r.event id' source → id = id'
  event_fun : ∀ {id source source'}, r.event id source → r.event id source' → source = source'
  held : ∀ {key id}, r.held key id ↔ ∃ generation, r.client key generation ∧ r.awaited id generation
  awaited : ∀ {id generation}, r.awaited id generation → ∃ source, r.event id source

def offers (r : Records δ ε) (generations sources : Nat) : Offers Nat Nat where
  joined generation := generation < generations
  isMember generation := ∃ key, r.client key generation
  started source := source < sources
  isOpen source := ∃ id, r.event id source
  waiting source generation := ∃ id, r.event id source ∧ r.awaited id generation

section Changes

variable (r : Records δ ε)

def finish (id : ε) : Records δ ε where
  client := r.client
  event other source := other ≠ id ∧ r.event other source
  held key other := other ≠ id ∧ r.held key other
  awaited other generation := other ≠ id ∧ r.awaited other generation

def answer (key : δ) (id : ε) (generation : Nat) : Records δ ε where
  client := r.client
  event := r.event
  held other event := ¬ (other = key ∧ event = id) ∧ r.held other event
  awaited event other := ¬ (event = id ∧ other = generation) ∧ r.awaited event other

def start (id : ε) (source : Nat) : Records δ ε where
  client := r.client
  event other number := other = id ∧ number = source ∨ r.event other number
  held key other := other = id ∧ (∃ generation, r.client key generation) ∨ r.held key other
  awaited other generation := other = id ∧ (∃ key, r.client key generation) ∨ r.awaited other generation

def join (key : δ) (generation : Nat) : Records δ ε where
  client other number := other = key ∧ number = generation ∨ r.client other number
  event := r.event
  held other id := other = key ∧ (∃ source, r.event id source) ∨ r.held other id
  awaited id number := number = generation ∧ (∃ source, r.event id source) ∨ r.awaited id number

def leave (key : δ) (generation : Nat) : Records δ ε where
  client other number := other ≠ key ∧ r.client other number
  event := r.event
  held other id := other ≠ key ∧ r.held other id
  awaited id number := number ≠ generation ∧ r.awaited id number

end Changes

variable {r : Records δ ε} {key : δ} {id : ε} {source generation generations sources : Nat}

theorem Agree.finish (h : r.Agree) (id : ε) : (r.finish id).Agree := by
  constructor <;> simp only [Records.finish] <;>
    grind [h.client_inj, h.client_fun, h.event_inj, h.event_fun, h.held, → h.awaited]

theorem Agree.answer (h : r.Agree) (hclient : r.client key generation) (id : ε) :
    (r.answer key id generation).Agree := by
  constructor <;> simp only [Records.answer] <;>
    grind [h.client_inj, h.client_fun, h.event_inj, h.event_fun, h.held, → h.awaited]

theorem Agree.start (h : r.Agree) (hid : ∀ number, ¬ r.event id number)
    (hsource : ∀ other, ¬ r.event other source) : (r.start id source).Agree := by
  constructor <;> simp only [Records.start] <;>
    grind [h.client_inj, h.client_fun, h.event_inj, h.event_fun, h.held, → h.awaited]

theorem Agree.leave (h : r.Agree) (hclient : r.client key generation) :
    (r.leave key generation).Agree := by
  constructor <;> simp only [Records.leave] <;>
    grind [h.client_inj, h.client_fun, h.event_inj, h.event_fun, h.held, → h.awaited]

theorem Agree.join (h : r.Agree) (hkey : ∀ number, ¬ r.client key number)
    (hgeneration : ∀ other, ¬ r.client other generation) : (r.join key generation).Agree := by
  have hheld : ∀ {other id}, (r.join key generation).held other id ↔ ∃ number,
      (r.join key generation).client other number ∧ (r.join key generation).awaited id number := by
    intro other id
    constructor
    · rintro (⟨rfl, hevent⟩ | hheld)
      · exact ⟨generation, .inl ⟨rfl, rfl⟩, .inl ⟨rfl, hevent⟩⟩
      · obtain ⟨number, hclient, hawaited⟩ := h.held.mp hheld
        exact ⟨number, .inr hclient, .inr hawaited⟩
    · simp only [Records.join]
      grind [h.held, → h.awaited]
  refine ⟨?_, ?_, h.event_inj, h.event_fun, hheld, ?_⟩ <;> simp only [Records.join] <;>
    grind [h.client_inj, h.client_fun, → h.awaited]

theorem offers_finish (h : r.Agree) (hevent : r.event id source) :
    (r.finish id).offers generations sources = (r.offers generations sources).settle source := by
  ext x y <;> simp only [Records.offers, Records.finish, Offers.settle] <;>
    grind [h.event_inj, h.event_fun]

theorem offers_answer (h : r.Agree) (hevent : r.event id source) :
    (r.answer key id generation).offers generations sources =
      (r.offers generations sources).pass source generation := by
  ext x y <;> simp only [Records.offers, Records.answer, Offers.pass] <;>
    grind [h.event_inj, h.event_fun]

theorem offers_start (h : r.Agree) (hid : ∀ number, ¬ r.event id number) :
    (r.start id sources).offers generations (sources + 1) =
      (r.offers generations sources).start sources := by
  ext x y
  · rfl
  · rfl
  · exact Nat.lt_succ_iff_lt_or_eq.trans or_comm
  · simp only [Records.offers, Records.start, Offers.start]
    grind
  · constructor
    · simp only [Records.offers, Records.start, Offers.start]
      grind [→ h.awaited]
    · rintro (⟨rfl, hmember⟩ | ⟨other, hevent, hawaited⟩)
      · exact ⟨id, .inl ⟨rfl, rfl⟩, .inl ⟨rfl, hmember⟩⟩
      · exact ⟨other, .inr hevent, .inr hawaited⟩

theorem offers_join :
    (r.join key generations).offers (generations + 1) sources =
      (r.offers generations sources).join generations := by
  ext x y <;> simp only [Records.offers, Records.join, Offers.join] <;>
    grind

theorem offers_leave (h : r.Agree) (hclient : r.client key generation) :
    (r.leave key generation).offers generations sources =
      (r.offers generations sources).leave generation := by
  ext x y <;> simp only [Records.offers, Records.leave, Offers.leave] <;>
    grind [h.client_inj, h.client_fun]

end Records

section Halves

variable {client : RemoteEventClient ε R} {pending : PendingRemoteEvent ε R}

@[simp] theorem RemoteEventClient.push_generation (frame : RemoteEventWireFrame ε R) :
    (client.push frame).generation = client.generation := by
  unfold push
  split
  · rfl
  · rfl

@[simp] theorem RemoteEventClient.push_deliveries (frame : RemoteEventWireFrame ε R) :
    (client.push frame).deliveries = client.deliveries := by
  unfold push
  split
  · rfl
  · rfl

@[simp] theorem RemoteEventClient.deliver_generation (id : ε)
    (frame : RemoteEventInvocationFrame ε R) :
    (client.deliver id frame).generation = client.generation := by
  simp [deliver]

@[simp] theorem RemoteEventClient.deliver_deliveries (id : ε)
    (frame : RemoteEventInvocationFrame ε R) :
    (client.deliver id frame).deliveries = client.deliveries ++ [id] := by
  simp [deliver]

@[simp] theorem PendingRemoteEvent.removeDelivery_source (generation : Nat) :
    (pending.removeDelivery generation).source = pending.source := rfl

theorem PendingRemoteEvent.mem_removeDelivery {generation other : Nat} :
    other ∈ (pending.removeDelivery generation).deliveries ↔
      other ∈ pending.deliveries ∧ other ≠ generation := by
  simp [removeDelivery]

theorem PendingRemoteEvent.foldl_deliver (generations : List Nat) :
    generations.foldl deliver pending =
      { pending with deliveries := pending.deliveries ++ generations } := by
  induction generations generalizing pending with
  | nil => simp
  | cons first rest ih =>
    rw [foldl_cons, ih]
    simp [deliver]

theorem RemoteEventClient.foldl_deliver (entries : List (ε × PendingRemoteEvent ε R)) :
    (entries.foldl (fun client entry => client.deliver entry.1 entry.2.frame) client).generation =
        client.generation ∧
      (entries.foldl (fun client entry => client.deliver entry.1 entry.2.frame) client).deliveries =
        client.deliveries ++ entries.map Prod.fst := by
  induction entries generalizing client with
  | nil => simp
  | cons first rest ih =>
    rw [foldl_cons]
    obtain ⟨hgeneration, hdeliveries⟩ := @ih (client.deliver first.1 first.2.frame)
    refine ⟨by rw [hgeneration, deliver_generation], ?_⟩
    rw [hdeliveries, deliver_deliveries, map_cons, append_assoc]
    rfl

variable [DecidableEq ε]

@[simp] theorem RemoteEventClient.removeDelivery_generation (id : ε) :
    (client.removeDelivery id).generation = client.generation := rfl

theorem RemoteEventClient.mem_removeDelivery {id other : ε} :
    other ∈ (client.removeDelivery id).deliveries ↔ other ∈ client.deliveries ∧ other ≠ id := by
  simp [removeDelivery]

end Halves

variable [DecidableEq δ] [DecidableEq ε]

namespace Gateway

def offers (gateway : Gateway δ ε R) : Offers Nat Nat where
  joined generation := generation < gateway.generations
  isMember generation :=
    ∃ clientId client, gateway.clients.get? clientId = some client ∧ client.generation = generation
  started source := source < gateway.sources
  isOpen source := ∃ id pending, gateway.pending.get? id = some pending ∧ pending.source = source
  waiting source generation := ∃ id pending, gateway.pending.get? id = some pending ∧
    pending.source = source ∧ generation ∈ pending.deliveries

structure Linked (gateway : Gateway δ ε R) : Prop where
  clientIds : ∀ clientId clientId' client client', gateway.clients.get? clientId = some client →
    gateway.clients.get? clientId' = some client' → client.generation = client'.generation →
    clientId = clientId'
  eventIds : ∀ id id' pending pending', gateway.pending.get? id = some pending →
    gateway.pending.get? id' = some pending' → pending.source = pending'.source → id = id'
  linked : ∀ clientId client id, gateway.clients.get? clientId = some client →
    (id ∈ client.deliveries ↔ ∃ pending, gateway.pending.get? id = some pending ∧
      client.generation ∈ pending.deliveries)

variable {gateway : Gateway δ ε R} {id : ε} {pending : PendingRemoteEvent ε R} {clientId : δ}
  {client : RemoteEventClient ε R}

def records (gateway : Gateway δ ε R) : Records δ ε where
  client key generation := ∃ client, gateway.clients.get? key = some client ∧ client.generation = generation
  event id source := ∃ pending, gateway.pending.get? id = some pending ∧ pending.source = source
  held key id := ∃ client, gateway.clients.get? key = some client ∧ id ∈ client.deliveries
  awaited id generation :=
    ∃ pending, gateway.pending.get? id = some pending ∧ generation ∈ pending.deliveries

theorem linked_iff : gateway.Linked ↔ gateway.records.Agree := by
  constructor
  · intro h
    constructor <;> simp only [records] <;> grind [h.clientIds, h.eventIds, h.linked]
  · intro h
    refine ⟨?_, ?_, ?_⟩
    · intro key key' client client' hclient hclient' heq
      exact h.client_inj ⟨client, hclient, rfl⟩ ⟨client', hclient', heq.symm⟩
    · intro id id' event event' hevent hevent' heq
      exact h.event_inj ⟨event, hevent, rfl⟩ ⟨event', hevent', heq.symm⟩
    · intro key client id hclient
      have hheld := @h.held key id
      simp only [records] at hheld
      grind

theorem offers_eq (gateway : Gateway δ ε R) :
    gateway.offers = gateway.records.offers gateway.generations gateway.sources := by
  ext x y
  · rfl
  · rfl
  · rfl
  · rfl
  · constructor
    · rintro ⟨id, event, hevent, hsource, hin⟩
      exact ⟨id, ⟨event, hevent, hsource⟩, event, hevent, hin⟩
    · rintro ⟨id, ⟨event, hevent, hsource⟩, found, hfound, hin⟩
      cases hevent.symm.trans hfound
      exact ⟨id, event, hevent, hsource, hin⟩

theorem Linked.of_records {after : Gateway δ ε R} {r : Records δ ε} {offers : Offers Nat Nat}
    (hrecords : after.records = r) (hagree : r.Agree)
    (hoffers : r.offers after.generations after.sources = offers) :
    after.Linked ∧ after.offers = offers := by
  rw [linked_iff, offers_eq, hrecords]
  exact ⟨hagree, hoffers⟩

theorem Linked.finish (h : gateway.Linked) (hpending : gateway.pending.get? id = some pending) :
    (gateway.finishRemoteEvent id pending).Linked ∧
      (gateway.finishRemoteEvent id pending).offers = gateway.offers.settle pending.source := by
  have hagree := linked_iff.mp h
  rw [offers_eq gateway]
  refine Linked.of_records ?_ (hagree.finish id) (Records.offers_finish hagree ⟨pending, hpending, rfl⟩)
  have hgeneration : ∀ client : RemoteEventClient ε R,
      (if client.generation ∈ pending.deliveries then (client.removeDelivery id).push (.cancel id)
        else client).generation = client.generation := by
    intro client
    split
    · rw [RemoteEventClient.push_generation, RemoteEventClient.removeDelivery_generation]
    · rfl
  have hdeliveries : ∀ key (client : RemoteEventClient ε R) other,
      gateway.clients.get? key = some client →
      (other ∈ (if client.generation ∈ pending.deliveries then
        (client.removeDelivery id).push (.cancel id) else client).deliveries ↔
          other ≠ id ∧ other ∈ client.deliveries) := by
    intro key client other hclient
    have hlinked := h.linked key client id hclient
    split
    · rw [RemoteEventClient.push_deliveries, RemoteEventClient.mem_removeDelivery, and_comm]
    · grind
  ext x y
  · simp only [records, finishRemoteEvent, exists_mapValues, hgeneration, Records.finish]
  · simp only [records, finishRemoteEvent, exists_delete, Records.finish]
  · simp only [records, finishRemoteEvent, exists_mapValues, Records.finish]
    grind
  · simp only [records, finishRemoteEvent, exists_delete, Records.finish]

theorem Linked.removeDelivery (h : gateway.Linked)
    (hclient : gateway.clients.get? clientId = some client)
    (hpending : gateway.pending.get? id = some pending) :
    ({ gateway with
        clients := gateway.clients.set clientId (client.removeDelivery id)
        pending := gateway.pending.set id (pending.removeDelivery client.generation) } :
          Gateway δ ε R).Linked ∧
      ({ gateway with
        clients := gateway.clients.set clientId (client.removeDelivery id)
        pending := gateway.pending.set id (pending.removeDelivery client.generation) } :
          Gateway δ ε R).offers = gateway.offers.pass pending.source client.generation := by
  have hagree := linked_iff.mp h
  rw [offers_eq gateway]
  refine Linked.of_records ?_ (hagree.answer ⟨client, hclient, rfl⟩ id)
    (Records.offers_answer hagree ⟨pending, hpending, rfl⟩)
  ext x y <;> simp only [records, exists_set, Records.answer,
      RemoteEventClient.mem_removeDelivery, mem_removeDelivery,
      RemoteEventClient.removeDelivery_generation, removeDelivery_source] <;> grind

theorem Linked.deliverToAll (h : gateway.Linked) (hfresh : gateway.pending.get? id = none)
    (hnew : pending.deliveries = []) (hsource : pending.source = gateway.sources)
    (hsources : ∀ id event, gateway.pending.get? id = some event → event.source < gateway.sources) :
    (({ gateway with sources := gateway.sources + 1 } : Gateway δ ε R).deliverToAll
        (V := V) (E := E) id pending).1.Linked ∧
      (({ gateway with sources := gateway.sources + 1 } : Gateway δ ε R).deliverToAll
        (V := V) (E := E) id pending).1.offers = gateway.offers.start pending.source := by
  have hagree := linked_iff.mp h
  have hid : ∀ number, ¬ gateway.records.event id number := by
    rintro number ⟨event, hevent, -⟩
    rw [hfresh] at hevent
    cases hevent
  have hnumber : ∀ other, ¬ gateway.records.event other gateway.sources := by
    rintro other ⟨event, hevent, heq⟩
    exact absurd heq (Nat.ne_of_lt (hsources other event hevent))
  rw [offers_eq gateway, hsource]
  refine Linked.of_records ?_ (hagree.start hid hnumber) (Records.offers_start hagree hid)
  have hmember : ∀ generation, generation ∈ gateway.clients.entries.map (·.2.generation) ↔
      ∃ key, gateway.records.client key generation := by
    intro generation
    rw [mem_map]
    constructor
    · rintro ⟨entry, hentry, rfl⟩
      exact ⟨entry.1, entry.2, get?_eq_some.mpr hentry, rfl⟩
    · rintro ⟨key, client, hclient, rfl⟩
      exact ⟨(key, client), get?_eq_some.mp hclient, rfl⟩
  ext x y
  · simp only [records, Gateway.deliverToAll, exists_mapValues,
      RemoteEventClient.deliver_generation, Records.start]
  · simp only [records, Gateway.deliverToAll, exists_set, foldl_deliver,
      Records.start]
    grind
  · simp only [records, Gateway.deliverToAll, exists_mapValues,
      RemoteEventClient.deliver_deliveries, mem_append, mem_singleton, Records.start]
    grind
  · simp only [records, Gateway.deliverToAll, exists_set, foldl_deliver,
      Records.start, hnew, nil_append, hmember]
    grind

theorem Linked.openRemoteEvents (h : gateway.Linked) (hregistered : gateway.registered = true)
    (hfresh : gateway.clients.get? clientId = none)
    (hgenerations : ∀ clientId client, gateway.clients.get? clientId = some client →
      client.generation < gateway.generations) :
    (gateway.openRemoteEvents (V := V) (E := E) clientId).1.Linked ∧
      (gateway.openRemoteEvents (V := V) (E := E) clientId).1.offers =
        gateway.offers.join gateway.generations := by
  have hagree := linked_iff.mp h
  have hkey : ∀ number, ¬ gateway.records.client clientId number := by
    rintro number ⟨client, hclient, -⟩
    rw [hfresh] at hclient
    cases hclient
  have hnumber : ∀ other, ¬ gateway.records.client other gateway.generations := by
    rintro other ⟨client, hclient, heq⟩
    exact absurd heq (Nat.ne_of_lt (hgenerations other client hclient))
  rw [offers_eq gateway]
  unfold Gateway.openRemoteEvents
  rw [if_pos hregistered]
  refine Linked.of_records ?_ (hagree.join hkey hnumber) (Records.offers_join)
  obtain ⟨hgeneration, hnew⟩ := @RemoteEventClient.foldl_deliver ε R
    { generation := gateway.generations } gateway.pending.entries
  have hevent : ∀ id, id ∈ gateway.pending.entries.map Prod.fst ↔
      ∃ source, gateway.records.event id source := by
    intro id
    rw [mem_map]
    constructor
    · rintro ⟨entry, hentry, rfl⟩
      exact ⟨_, entry.2, get?_eq_some.mpr hentry, rfl⟩
    · rintro ⟨_, event, hevent, rfl⟩
      exact ⟨(id, event), get?_eq_some.mp hevent, rfl⟩
  ext x y
  · simp only [records, exists_set, hgeneration, Records.join]
    grind
  · simp only [records, exists_mapValues, deliver, Records.join]
  · simp only [records, exists_set, hnew, nil_append, hevent, Records.join]
    grind
  · simp only [records, exists_mapValues, deliver, mem_append,
      mem_singleton, Records.join]
    grind

theorem Linked.removeRemoteEventClient (h : gateway.Linked)
    (hclient : gateway.clients.get? clientId = some client) :
    (gateway.removeRemoteEventClient (V := V) (E := E) clientId).1.Linked ∧
      (gateway.removeRemoteEventClient (V := V) (E := E) clientId).1.offers =
        gateway.offers.leave client.generation := by
  have hagree := linked_iff.mp h
  have hknown : gateway.records.client clientId client.generation := ⟨client, hclient, rfl⟩
  rw [offers_eq gateway]
  unfold Gateway.removeRemoteEventClient
  rw [hclient]
  refine Linked.of_records ?_ (hagree.leave hknown) (Records.offers_leave hagree hknown)
  have hsource : ∀ (id : ε) (event : PendingRemoteEvent ε R), (if id ∈ client.deliveries then
      event.removeDelivery client.generation else event).source = event.source := by
    intro id event
    split
    · rfl
    · rfl
  have hmem : ∀ id event generation, gateway.pending.get? id = some event →
      (generation ∈ (if id ∈ client.deliveries then event.removeDelivery client.generation
        else event).deliveries ↔ generation ≠ client.generation ∧ generation ∈ event.deliveries) := by
    intro id event generation hevent
    have hlinked := h.linked clientId client id hclient
    split
    · rw [mem_removeDelivery, and_comm]
    · grind
  ext x y
  · simp only [records, exists_delete, Records.leave]
  · simp only [records, exists_mapValues, hsource, Records.leave]
  · simp only [records, exists_delete, Records.leave]
  · simp only [records, exists_mapValues, Records.leave]
    grind

omit [DecidableEq δ] in
theorem pendingOf_eq_some {source : Nat} (hfound : gateway.pendingOf source = some (id, pending)) :
    gateway.pending.get? id = some pending ∧ pending.source = source := by
  refine ⟨get?_eq_some.mpr (mem_of_find?_eq_some hfound), ?_⟩
  simpa using find?_some hfound

structure Sound (gateway : Gateway δ ε R) (log : Log V E) : Prop where
  linked : gateway.Linked
  accounts : Accounts gateway.offers log

variable {log : Log V E}

theorem Sound.generation_lt (h : gateway.Sound log)
    (hclient : gateway.clients.get? clientId = some client) :
    client.generation < gateway.generations := by
  apply Classical.byContradiction
  intro hunjoined
  exact (h.accounts.unjoined client.generation hunjoined).1 ⟨clientId, client, hclient, rfl⟩

theorem Sound.source_lt (h : gateway.Sound log)
    (hpending : gateway.pending.get? id = some pending) : pending.source < gateway.sources := by
  apply Classical.byContradiction
  intro hunstarted
  exact (h.accounts.unstarted pending.source hunstarted).1 ⟨id, pending, hpending, rfl⟩

theorem Sound.congr {gateway' : Gateway δ ε R} (h : gateway.Sound log)
    (hclients : ∀ key, gateway'.clients.get? key = gateway.clients.get? key)
    (hpending : ∀ id, gateway'.pending.get? id = gateway.pending.get? id)
    (hgenerations : gateway'.generations = gateway.generations)
    (hsources : gateway'.sources = gateway.sources) : gateway'.Sound log := by
  have hagree := linked_iff.mp h.linked
  have hrecords : gateway'.records = gateway.records := by
    simp only [records, hclients, hpending]
  obtain ⟨hlinked, hoffers⟩ := Linked.of_records hrecords hagree rfl
  rw [hgenerations, hsources, ← offers_eq] at hoffers
  exact ⟨hlinked, hoffers ▸ h.accounts⟩

theorem Sound.mapClients (h : gateway.Sound log)
    (change : RemoteEventClient ε R → RemoteEventClient ε R)
    (hgeneration : ∀ client, (change client).generation = client.generation)
    (hdeliveries : ∀ client, (change client).deliveries = client.deliveries) :
    ({ gateway with clients := gateway.clients.mapValues fun _ => change } : Gateway δ ε R).Sound
      log := by
  have hagree := linked_iff.mp h.linked
  have hrecords : ({ gateway with clients := gateway.clients.mapValues fun _ => change } :
      Gateway δ ε R).records = gateway.records := by
    simp only [records, exists_mapValues, hgeneration, hdeliveries]
  obtain ⟨hlinked, hoffers⟩ := Linked.of_records hrecords hagree rfl
  rw [← offers_eq gateway] at hoffers
  exact ⟨hlinked, hoffers ▸ h.accounts⟩

theorem Sound.initial : ({} : Gateway δ ε R).Sound ([] : Log V E) := by
  refine ⟨⟨?_, ?_, ?_⟩, ?_⟩
  · intro key key' client client' hclient
    cases hclient
  · intro key key' event event' hevent
    cases hevent
  · intro key client event hclient
    cases hclient
  · have hnone : ({} : Gateway δ ε R).offers = Offers.none := by
      ext x y
      · exact iff_of_false (Nat.not_lt_zero x) id
      · refine iff_of_false ?_ id
        rintro ⟨_, _, hnone, -⟩
        cases hnone
      · exact iff_of_false (Nat.not_lt_zero x) id
      · refine iff_of_false ?_ id
        rintro ⟨_, _, hnone, -⟩
        cases hnone
      · refine iff_of_false ?_ id
        rintro ⟨_, _, hnone, -⟩
        cases hnone
    rw [hnone]
    exact .none

theorem Sound.connect (h : gateway.Sound log) (hfresh : gateway.clients.get? clientId = none) :
    (gateway.openRemoteEvents (V := V) (E := E) clientId).1.Sound
      (log ++ (gateway.openRemoteEvents clientId).2) := by
  by_cases hregistered : gateway.registered = true
  · obtain ⟨hlinked, hoffers⟩ := @Linked.openRemoteEvents δ ε R V E _ _ gateway clientId h.linked
      hregistered hfresh (fun _ _ hclient => h.generation_lt hclient)
    refine ⟨hlinked, ?_⟩
    rw [hoffers]
    have hlog : (gateway.openRemoteEvents (V := V) (E := E) clientId).2 =
        (gateway.pending.entries.map (·.2.source)).map
          fun source => .offered source gateway.generations := by
      rw [openRemoteEvents, if_pos hregistered, map_map]
      rfl
    rw [hlog]
    refine h.accounts.join (Nat.lt_irrefl _) fun source => ?_
    rw [mem_map]
    constructor
    · rintro ⟨entry, hentry, rfl⟩
      exact ⟨entry.1, entry.2, get?_eq_some.mpr hentry, rfl⟩
    · rintro ⟨id, pending, hpending, rfl⟩
      exact ⟨(id, pending), get?_eq_some.mp hpending, rfl⟩
  · rw [openRemoteEvents, if_neg hregistered, append_nil]
    exact h

theorem Sound.disconnect (h : gateway.Sound log) (clientId : δ) :
    (gateway.removeRemoteEventClient (V := V) (E := E) clientId).1.Sound
      (log ++ (gateway.removeRemoteEventClient clientId).2) := by
  cases hclient : gateway.clients.get? clientId with
  | none =>
    rw [removeRemoteEventClient, hclient, append_nil]
    exact h
  | some client =>
    obtain ⟨hlinked, hoffers⟩ :=
      @Linked.removeRemoteEventClient δ ε R V E _ _ gateway clientId client h.linked hclient
    refine ⟨hlinked, ?_⟩
    rw [hoffers]
    have hlog : (gateway.removeRemoteEventClient (V := V) (E := E) clientId).2 =
        [.left client.generation] := by
      rw [removeRemoteEventClient, hclient]
    rw [hlog]
    exact h.accounts.leave ⟨clientId, client, hclient, rfl⟩

theorem Sound.settle (h : gateway.Sound log) (hpending : gateway.pending.get? id = some pending)
    (settlement : Except E V) :
    (gateway.finishRemoteEvent id pending).Sound (log ++ [.settled pending.source (some settlement)]) := by
  obtain ⟨hlinked, hoffers⟩ := h.linked.finish hpending
  refine ⟨hlinked, ?_⟩
  rw [hoffers]
  have hopen : gateway.offers.isOpen pending.source := ⟨id, pending, hpending, rfl⟩
  have hsettled := h.accounts.settle [] (some settlement) hopen (fun answer hanswer => nomatch hanswer)
    (fun hnone => nomatch hnone)
  rwa [append_nil] at hsettled

theorem Sound.cancel (h : gateway.Sound log) (source : Nat) (reason : E) :
    (gateway.cancelRemoteEvent (V := V) source reason).1.Sound
      (log ++ (gateway.cancelRemoteEvent source reason).2) := by
  unfold cancelRemoteEvent
  cases hfound : gateway.pendingOf source with
  | none =>
    rw [append_nil]
    exact h
  | some entry =>
    obtain ⟨id, pending⟩ := entry
    obtain ⟨hpending, hsource⟩ := pendingOf_eq_some hfound
    rw [← hsource]
    exact h.settle hpending (.error reason)

theorem Sound.settleAtOnce (h : gateway.Sound log) (result : Option (Except E V)) :
    ({ gateway with sources := gateway.sources + 1 } : Gateway δ ε R).Sound
      (log ++ [.settled gateway.sources result]) := by
  refine ⟨⟨h.linked.clientIds, h.linked.eventIds, h.linked.linked⟩, ?_⟩
  have hoffers : ({ gateway with sources := gateway.sources + 1 } : Gateway δ ε R).offers =
      gateway.offers.startSettled gateway.sources := by
    ext x y
    · rfl
    · rfl
    · change x < gateway.sources + 1 ↔ x = gateway.sources ∨ x < gateway.sources
      omega
    · rfl
    · rfl
  rw [hoffers]
  exact h.accounts.startSettled (Nat.lt_irrefl _)

theorem Sound.dispatch {typeError : String → E} (h : gateway.Sound log)
    (hfresh : gateway.pending.get? id = none) (source : RemoteEventDispatch R E) :
    (gateway.startRemoteEvent (V := V) typeError id source).1.Sound
      (log ++ (gateway.startRemoteEvent typeError id source).2) := by
  unfold startRemoteEvent
  dsimp only
  split
  · exact h.settleAtOnce _
  · cases source.context with
    | none => exact h.settleAtOnce _
    | some context =>
      obtain ⟨kind, identity⟩ := context
      dsimp only
      split
      · exact h.settleAtOnce _
      · cases source.projected with
        | error error => exact h.settleAtOnce _
        | ok projected =>
          obtain ⟨request, aborted⟩ := projected
          dsimp only
          split
          · exact h.settleAtOnce _
          · obtain ⟨hlinked, hoffers⟩ := @Linked.deliverToAll δ ε R V E _ _ gateway id
              { source := gateway.sources, frame := ⟨source.event, id, identity, request⟩ }
              h.linked hfresh rfl rfl (fun _ _ hevent => h.source_lt hevent)
            cases aborted with
            | none =>
              refine ⟨hlinked, ?_⟩
              rw [hoffers]
              refine h.accounts.start (Nat.lt_irrefl _) fun generation => ?_
              rw [mem_map]
              constructor
              · rintro ⟨entry, hentry, rfl⟩
                exact ⟨entry.1, entry.2, get?_eq_some.mpr hentry, rfl⟩
              · rintro ⟨key, client, hclient, rfl⟩
                exact ⟨(key, client), get?_eq_some.mp hclient, rfl⟩
            | some reason =>
              -- The event was pending for this moment only, and offered to nobody.
              refine (h.settleAtOnce (some (.error reason))).congr ?_ ?_ rfl rfl
              · intro key
                simp [finishRemoteEvent, get?_mapValues]
              · intro other
                simp only [finishRemoteEvent, get?_delete, get?_set]
                split
                · rename_i heq
                  rw [heq, hfresh]
                · rfl

theorem Sound.answer (h : gateway.Sound log) (clientId : δ) (eventId : ε)
    (answer : RemoteEventAnswer V E) :
    (gateway.receiveRemoteEventResult clientId eventId answer).1.Sound
      (log ++ (gateway.receiveRemoteEventResult clientId eventId answer).2) := by
  unfold receiveRemoteEventResult
  cases hclient : gateway.clients.get? clientId with
  | none =>
    rw [append_nil]
    exact h
  | some client =>
    cases hpending : gateway.pending.get? eventId with
    | none =>
      rw [append_nil]
      exact h
    | some pending =>
      dsimp only
      split
      · rename_i hdelivered
        obtain ⟨hremoved, hpass⟩ := h.linked.removeDelivery hclient hpending
        obtain ⟨hfinished, hsettle⟩ := @Linked.finish δ ε R _ _ _ eventId
          (pending.removeDelivery client.generation) hremoved
          (get?_set_eq_some.mpr (.inl ⟨rfl, rfl⟩))
        have hoffers : (gateway.offers.pass pending.source client.generation).settle pending.source =
            gateway.offers.settle pending.source := by
          ext x y
          · rfl
          · rfl
          · rfl
          · rfl
          · refine and_congr_right fun hne => ?_
            exact ⟨fun hwaits => hwaits.2, fun hwaits => ⟨fun heq => hne heq.1, hwaits⟩⟩
        rw [hpass, removeDelivery_source, hoffers] at hsettle
        have hopen : gateway.offers.isOpen pending.source := ⟨eventId, pending, hpending, rfl⟩
        have hwaits : gateway.offers.waiting pending.source client.generation :=
          ⟨eventId, pending, hpending, rfl, hdelivered⟩
        have hwaiting : ∀ generation, gateway.offers.waiting pending.source generation →
            generation ∈ pending.deliveries := by
          rintro generation ⟨id, event, hevent, hsource, hin⟩
          obtain rfl := h.linked.eventIds id eventId event pending hevent hpending hsource
          obtain rfl := Option.some.inj (hevent.symm.trans hpending)
          exact hin
        cases answer with
        | result value =>
          refine ⟨hfinished, ?_⟩
          rw [hsettle, append_cons]
          refine h.accounts.settle _ _ hopen ?_ fun hnone => nomatch hnone
          intro decided hmem
          exact ⟨client.generation, hwaits, .inr (mem_singleton.mp hmem)⟩
        | rejected error =>
          refine ⟨hfinished, ?_⟩
          rw [hsettle, append_cons]
          refine h.accounts.settle _ _ hopen ?_ fun hnone => nomatch hnone
          intro decided hmem
          exact ⟨client.generation, hwaits, .inr (mem_singleton.mp hmem)⟩
        | next =>
          dsimp only
          split
          · rename_i hempty
            refine ⟨hfinished, ?_⟩
            rw [hsettle, append_cons]
            refine h.accounts.settle _ _ hopen ?_ ?_
            · intro passed hmem
              exact ⟨client.generation, hwaits, .inl (mem_singleton.mp hmem)⟩
            · intro _ generation hwaiting'
              have hlast : generation = client.generation := by
                apply Classical.byContradiction
                intro hne
                have hleft : generation ∈ (pending.removeDelivery client.generation).deliveries :=
                  mem_removeDelivery.mpr ⟨hwaiting generation hwaiting', hne⟩
                rw [isEmpty_iff.mp hempty] at hleft
                simp at hleft
              rw [hlast]
              exact mem_singleton_self _
          · rename_i hleft
            refine ⟨hremoved, ?_⟩
            rw [hpass]
            refine h.accounts.pass hwaits ?_
            obtain ⟨generation, hin⟩ : ∃ generation,
                generation ∈ (pending.removeDelivery client.generation).deliveries := by
              apply exists_mem_of_ne_nil
              intro hnil
              rw [hnil] at hleft
              exact hleft rfl
            obtain ⟨hin, hne⟩ := mem_removeDelivery.mp hin
            exact ⟨generation, hne, eventId, pending, hpending, rfl, hin⟩
      · rw [append_nil]
        exact h

theorem Sound.cancelAll (reason : E) (sources : List Nat) (gateway : Gateway δ ε R) (news : Log V E)
    (h : gateway.Sound (log ++ news)) :
    (sources.foldl (fun (gateway, log) source =>
      let (gateway, news) := gateway.cancelRemoteEvent source reason
      (gateway, log ++ news)) (gateway, news)).1.Sound
    (log ++ (sources.foldl (fun (gateway, log) source =>
      let (gateway, news) := gateway.cancelRemoteEvent source reason
      (gateway, log ++ news)) (gateway, news)).2) := by
  induction sources generalizing gateway news with
  | nil => exact h
  | cons source rest ih =>
    rw [foldl_cons]
    refine ih _ _ ?_
    rw [← append_assoc]
    exact h.cancel source reason

theorem Sound.close (h : gateway.Sound log) (reason : E) :
    (gateway.closeRemoteEvents (V := V) reason).1.Sound
      (log ++ (gateway.closeRemoteEvents reason).2) := by
  have hsound := Sound.cancelAll reason (gateway.pending.entries.map (·.2.source))
    gateway [] (by rwa [append_nil])
  unfold closeRemoteEvents
  exact (hsound.mapClients (fun client => { client with closed := true })
    (fun _ => rfl) (fun _ => rfl)).congr (fun _ => rfl) (fun _ => rfl) rfl rfl

end Gateway

open Gateway

variable {typeError : String → E} {gateway : Gateway δ ε R} {log : Log V E}

theorem Run.sound (run : Run typeError gateway log) : gateway.Sound log := by
  induction run with
  | initial => exact .initial
  | register _ _ ih => exact ih.congr (fun _ => rfl) (fun _ => rfl) rfl rfl
  | connect _ clientId hfresh ih => exact ih.connect hfresh
  | disconnect _ clientId ih => exact ih.disconnect clientId
  | dispatch _ id hfresh source ih => exact ih.dispatch hfresh source
  | late _ reason ih => exact ih.settleAtOnce _
  | answer _ clientId eventId answer ih => exact ih.answer clientId eventId answer
  | cancel _ source reason ih => exact ih.cancel source reason
  | close _ reason ih => exact ih.close reason

end DshKernel.Gateway.RemoteEvents
