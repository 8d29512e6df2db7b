import DshKernel.Session.SessionStore

/-!
# The lifecycle of a session in the store

Whatever the listeners call, the table and the attachments agree, and a removal is paired with
the disposal of what was announced.
-/

namespace DshKernel.Session

open Js Lib SessionStore SessionEntry

namespace SessionStore

def gone (w : SessionStore) (entry : Nat) : Bool :=
  w.entries[entry]?.any fun found => w.store found.id != some entry

end SessionStore

structure StoreOk (w : SessionStore) : Prop where
  stored : ∀ id entry, w.store id = some entry →
    ∃ found, w.entries[entry]? = some found ∧ found.id = id ∧ w.attachments found.session = some entry
  attached : ∀ session entry, w.attachments session = some entry →
    ∃ found, w.entries[entry]? = some found ∧ found.session = session ∧ w.store found.id = some entry
  handle : ∀ (entry : Nat) (found : SessionEntry), w.entries[entry]? = some found → found.entered = true →
    w.store found.id = some entry
  requested : ∀ (entry : Nat) (found : SessionEntry), w.entries[entry]? = some found → found.detachRequested = true →
    found.entered = false
  busy : ∀ (entry : Nat) (found : SessionEntry), w.entries[entry]? = some found →
    found.announcing = true ∨ found.appending = true → w.store found.id = some entry
  detached : ∀ entry, .detached entry ∈ w.history ↔ w.gone entry = true
  disposed : ∀ entry, w.history.count (.disposed entry) =
    if w.flag entry announced && w.gone entry then 1 else 0
  ordered : w.history.Pairwise fun earlier later => ∀ entry seq, earlier = .detached entry →
    later ≠ .event entry seq

/-- The flags tell the calls in progress, and a handle that was used has taken effect unless one
of them holds it up. -/
structure Settled (sites : List StoreSite) (w : SessionStore) : Prop where
  appending : ∀ entry, w.flag entry SessionEntry.appending = true ↔ .publishing entry ∈ sites
  announcing : ∀ entry, w.flag entry SessionEntry.announcing = true ↔ .announcing entry ∈ sites
  used : ∀ (entry : Nat) (found : SessionEntry), w.entries[entry]? = some found → found.entered = false →
    w.store found.id = some entry →
    found.detachRequested = true ∧ (found.announcing = true ∨ found.appending = true)

section Updates

variable {w : SessionStore} {entry : Nat} {found : SessionEntry} {sites : List StoreSite}

theorem getElem?_setEntry (entry other : Nat) (change : SessionEntry → SessionEntry) :
    (w.setEntry entry change).entries[other]? =
      if entry = other then w.entries[other]?.map change else w.entries[other]? := by
  simp only [setEntry, List.getElem?_modify]
  split <;> simp

theorem gone_eq_true : w.gone entry = true ↔
    ∃ found, w.entries[entry]? = some found ∧ w.store found.id ≠ some entry := by
  simp [SessionStore.gone, Option.any_eq_true]

variable {read : SessionEntry → Bool} {change : SessionEntry → SessionEntry}

theorem flag_of_getElem? (h : w.entries[entry]? = some found) : w.flag entry read = read found := by
  simp [SessionStore.flag, h]

theorem gone_setEntry (hid : ∀ found, (change found).id = found.id)
    (other : Nat) : (w.setEntry entry change).gone other = w.gone other := by
  simp only [gone, getElem?_setEntry]
  split
  · simp [hid, setEntry, Option.any_map]
  · rfl

theorem flag_setEntry (other : Nat) :
    (w.setEntry entry change).flag other read =
      if entry = other then w.flag other fun found => read (change found) else w.flag other read := by
  unfold SessionStore.flag
  rw [getElem?_setEntry]
  split
  · rw [Option.any_map]
  · rfl

theorem StoreOk.setEntry (h : StoreOk w) (hid : ∀ found, (change found).id = found.id)
    (hsession : ∀ found, (change found).session = found.session)
    (hentered : ∀ found, w.entries[entry]? = some found → (change found).entered = true →
      found.entered = true)
    (hrequested : ∀ found, w.entries[entry]? = some found → (change found).detachRequested = true →
      (change found).entered = false)
    (hbusy : ∀ found, w.entries[entry]? = some found →
      (change found).announcing = true ∨ (change found).appending = true → w.store found.id = some entry)
    (hannounced : ∀ found, w.entries[entry]? = some found →
      (change found).announced = found.announced ∨ w.store found.id = some entry) :
    StoreOk (w.setEntry entry change) := by
  have hget : ∀ {other : Nat} {found : SessionEntry}, (w.setEntry entry change).entries[other]? = some found →
      ∃ before, w.entries[other]? = some before ∧ found.id = before.id ∧
        found.session = before.session ∧ (other = entry ∧ found = change before ∨ found = before) := by
    intro other found hfound
    rw [getElem?_setEntry] at hfound
    split at hfound
    · rename_i heq
      obtain ⟨before, hbefore, rfl⟩ := Option.map_eq_some_iff.mp hfound
      exact ⟨before, hbefore, hid before, hsession before, .inl ⟨heq.symm, rfl⟩⟩
    · exact ⟨found, hfound, rfl, rfl, .inr rfl⟩
  have hput : ∀ {other : Nat} {before : SessionEntry}, w.entries[other]? = some before →
      ∃ found, (w.setEntry entry change).entries[other]? = some found ∧ found.id = before.id ∧
        found.session = before.session := by
    intro other before hbefore
    rw [getElem?_setEntry, hbefore]
    split
    · exact ⟨change before, rfl, hid before, hsession before⟩
    · exact ⟨before, rfl, rfl, rfl⟩
  refine ⟨?_, ?_, ?_, ?_, ?_, ?_, ?_, h.ordered⟩
  · intro id other hstore
    obtain ⟨before, hbefore, hbeforeId, hattached⟩ := h.stored id other hstore
    obtain ⟨found, hfound, hfoundId, hfoundSession⟩ := hput hbefore
    refine ⟨found, hfound, hfoundId.trans hbeforeId, ?_⟩
    rw [hfoundSession]
    exact hattached
  · intro session other hattached
    obtain ⟨before, hbefore, hbeforeSession, hstore⟩ := h.attached session other hattached
    obtain ⟨found, hfound, hfoundId, hfoundSession⟩ := hput hbefore
    refine ⟨found, hfound, hfoundSession.trans hbeforeSession, ?_⟩
    rw [hfoundId]
    exact hstore
  · intro other found hfound hhandle
    obtain ⟨before, hbefore, hbeforeId, -, ⟨rfl, rfl⟩ | rfl⟩ := hget hfound
    · rw [hbeforeId]
      exact h.handle other before hbefore (hentered before hbefore hhandle)
    · exact h.handle other found hbefore hhandle
  · intro other found hfound hrequest
    obtain ⟨before, hbefore, -, -, ⟨rfl, rfl⟩ | rfl⟩ := hget hfound
    · exact hrequested before hbefore hrequest
    · exact h.requested other found hbefore hrequest
  · intro other found hfound hflags
    obtain ⟨before, hbefore, hbeforeId, -, ⟨rfl, rfl⟩ | rfl⟩ := hget hfound
    · rw [hbeforeId]
      exact hbusy before hbefore hflags
    · exact h.busy other found hbefore hflags
  · intro other
    rw [gone_setEntry hid]
    exact h.detached other
  · intro other
    rw [gone_setEntry hid]
    have hflags : (w.flag other announced && w.gone other) =
        ((w.setEntry entry change).flag other announced && w.gone other) := by
      rw [Bool.eq_iff_iff, Bool.and_eq_true, Bool.and_eq_true, flag_setEntry]
      split
      · rename_i heq
        subst heq
        constructor
        · rintro ⟨hflag, hgone⟩
          refine ⟨?_, hgone⟩
          obtain ⟨found, hfound, hne⟩ := gone_eq_true.mp hgone
          rw [flag_of_getElem? hfound] at hflag ⊢
          rcases hannounced found hfound with hsame | hlive
          · rw [hsame]
            exact hflag
          · exact absurd hlive hne
        · rintro ⟨hflag, hgone⟩
          refine ⟨?_, hgone⟩
          obtain ⟨found, hfound, hne⟩ := gone_eq_true.mp hgone
          rw [flag_of_getElem? hfound] at hflag ⊢
          rcases hannounced found hfound with hsame | hlive
          · rw [← hsame]
            exact hflag
          · exact absurd hlive hne
      · exact Iff.rfl
    rw [← hflags]
    exact h.disposed other

theorem StoreOk.record (h : StoreOk w) {happening : Happening}
    (hdetached : ∀ other, happening ≠ .detached other) (hdisposed : ∀ other, happening ≠ .disposed other)
    (hevent : ∀ other seq, happening = .event other seq → w.gone other = false) :
    StoreOk (w.record happening) := by
  refine ⟨h.stored, h.attached, h.handle, h.requested, h.busy, ?_, ?_, ?_⟩
  · intro other
    have hne := (hdetached other).symm
    show Happening.detached other ∈ w.history ++ [happening] ↔ w.gone other = true
    rw [← h.detached other]
    simp [hne]
  · intro other
    have hne := (hdisposed other).symm
    refine Eq.trans ?_ (h.disposed other)
    show (w.history ++ [happening]).count (Happening.disposed other) = _
    simp [List.count_append, hne.symm]
  · apply List.pairwise_append.mpr
    refine ⟨h.ordered, List.pairwise_singleton _ _, ?_⟩
    intro earlier hmem later hlater entry seq hearlier heq
    have hgone := hevent entry seq ((List.mem_singleton.mp hlater).symm.trans heq)
    rw [hearlier] at hmem
    rw [(h.detached entry).mp hmem] at hgone
    cases hgone

theorem StoreOk.sessions (h : StoreOk w) (sessions : List SessionObject) :
    StoreOk { w with sessions } :=
  ⟨h.stored, h.attached, h.handle, h.requested, h.busy, h.detached, h.disposed, h.ordered⟩

theorem StoreOk.remove (h : StoreOk w) (hfound : w.entries[entry]? = some found)
    (hstore : w.store found.id = some entry) (hused : found.entered = false)
    (hidle : found.announcing = false ∧ found.appending = false) : StoreOk (w.remove entry found) := by
  have hattached : w.attachments found.session = some entry := by
    obtain ⟨other, hother, -, hattachment⟩ := h.stored found.id entry hstore
    cases hfound.symm.trans hother
    exact hattachment
  -- an entry in the table other than the removed one stays there
  have hkept : ∀ (other : Nat) (before : SessionEntry), w.entries[other]? = some before →
      w.store before.id = some other → other ≠ entry →
      (w.remove entry found).store before.id = some other := by
    intro other before _ hlive hne
    show Function.update w.store found.id none before.id = some other
    rw [Function.update_of_ne]
    · exact hlive
    · intro hid
      rw [hid] at hlive
      exact hne (Option.some.inj (hlive.symm.trans hstore))
  have hgone : ∀ other, (w.remove entry found).gone other = true ↔ other = entry ∨ w.gone other = true := by
    intro other
    rw [gone_eq_true, gone_eq_true]
    constructor
    · rintro ⟨before, hbefore, hne⟩
      by_cases heq : other = entry
      · exact .inl heq
      · refine .inr ⟨before, hbefore, ?_⟩
        intro hlive
        exact hne (hkept other before hbefore hlive heq)
    · rintro (rfl | ⟨before, hbefore, hne⟩)
      · refine ⟨found, hfound, ?_⟩
        show Function.update w.store found.id none found.id ≠ some other
        rw [Function.update_self]
        exact fun h => by cases h
      · refine ⟨before, hbefore, ?_⟩
        show Function.update w.store found.id none before.id ≠ some other
        by_cases hid : before.id = found.id
        · rw [hid, Function.update_self]
          exact fun h => by cases h
        · rw [Function.update_of_ne hid]
          exact hne
  have hnot : w.gone entry = false := by
    simp [SessionStore.gone, hfound, hstore]
  refine ⟨?_, ?_, ?_, h.requested, ?_, ?_, ?_, ?_⟩
  · intro id other hother
    have hid : id ≠ found.id := by
      rintro rfl
      simp [SessionStore.remove] at hother
    have hbefore : w.store id = some other := by
      simpa [SessionStore.remove, Function.update_of_ne hid] using hother
    obtain ⟨before, hget, rfl, hattachment⟩ := h.stored id other hbefore
    refine ⟨before, hget, rfl, ?_⟩
    show Function.update w.attachments found.session none before.session = some other
    rw [Function.update_of_ne]
    · exact hattachment
    · intro hsession
      rw [hsession, hattached] at hattachment
      cases hattachment
      cases hget.symm.trans hfound
      exact hid rfl
  · intro session other hother
    have hsession : session ≠ found.session := by
      rintro rfl
      simp [SessionStore.remove] at hother
    have hbefore : w.attachments session = some other := by
      simpa [SessionStore.remove, Function.update_of_ne hsession] using hother
    obtain ⟨before, hget, rfl, hlive⟩ := h.attached session other hbefore
    refine ⟨before, hget, rfl, hkept other before hget hlive ?_⟩
    rintro rfl
    cases hget.symm.trans hfound
    exact hsession rfl
  · intro other before hget hentered
    refine hkept other before hget (h.handle other before hget hentered) ?_
    rintro rfl
    cases hget.symm.trans hfound
    rw [hused] at hentered
    cases hentered
  · intro other before hget hflags
    refine hkept other before hget (h.busy other before hget hflags) ?_
    rintro rfl
    cases hget.symm.trans hfound
    rw [hidle.1, hidle.2] at hflags
    simp at hflags
  · intro other
    rw [hgone other, ← h.detached other]
    show Happening.detached other ∈ w.history ++ Happening.detached entry :: _ ↔ _
    rw [List.mem_append, List.mem_cons]
    cases found.announced
    · simp [or_comm]
    · simp [or_comm]
  · intro other
    have hcount : (w.remove entry found).history.count (.disposed other) =
        w.history.count (.disposed other) +
          if other = entry ∧ found.announced = true then 1 else 0 := by
      show (w.history ++ Happening.detached entry :: _).count _ = _
      rw [List.count_append, List.count_cons]
      cases found.announced
      · simp
      · simp only [if_true, List.count_singleton, and_true]
        by_cases heq : other = entry
        · simp [heq]
        · simp [heq, Ne.symm heq]
    rw [hcount, h.disposed other]
    by_cases heq : other = entry
    · subst heq
      have hyes : (w.remove other found).gone other = true := (hgone other).mpr (.inl rfl)
      have hflag : (w.remove other found).flag other announced = found.announced :=
        flag_of_getElem? hfound
      rw [hnot, hyes, hflag]
      simp
    · have hsame : (w.remove entry found).gone other = w.gone other := by
        rw [Bool.eq_iff_iff, hgone other]
        simp [heq]
      rw [hsame]
      simp only [heq, false_and, if_false, Nat.add_zero]
      rfl
  · apply List.pairwise_append.mpr
    refine ⟨h.ordered, ?_, ?_⟩
    · cases found.announced
      · simp
      · simp
    · intro earlier _ later hlater other seq _ heq
      rw [heq] at hlater
      cases hannounced : found.announced
      · simp [hannounced] at hlater
      · simp [hannounced] at hlater

theorem StoreOk.addEntry (h : StoreOk w) {session : Nat} {id : String} (hid : w.store id = none)
    (hsession : w.attachments session = none) : StoreOk (w.addEntry session id) := by
  have hget : ∀ {other : Nat} {after : SessionEntry}, (w.addEntry session id).entries[other]? = some after →
      w.entries[other]? = some after ∨ other = w.entries.length ∧ after = { id, session } := by
    intro other after hafter
    have hlt := (List.getElem?_eq_some_iff.mp hafter).1
    simp only [SessionStore.addEntry, List.length_append, List.length_singleton] at hafter hlt
    rcases Nat.lt_or_ge other w.entries.length with hbefore | hlast
    · rw [List.getElem?_append_left hbefore] at hafter
      exact .inl hafter
    · have heq : other = w.entries.length := by omega
      subst heq
      rw [List.getElem?_concat_length] at hafter
      exact .inr ⟨rfl, (Option.some.inj hafter).symm⟩
  have hput : ∀ {other : Nat} {before : SessionEntry}, w.entries[other]? = some before →
      (w.addEntry session id).entries[other]? = some before := by
    intro other before hbefore
    show (w.entries ++ _)[other]? = some before
    rw [List.getElem?_append_left (List.getElem?_eq_some_iff.mp hbefore).1, hbefore]
  have hnew : (w.addEntry session id).entries[w.entries.length]? = some { id, session } :=
    List.getElem?_concat_length
  -- an id that is in the table is not the new one
  have hlive : ∀ {other : Nat} {before : SessionEntry}, w.entries[other]? = some before →
      ((w.addEntry session id).store before.id = some other ↔ w.store before.id = some other) := by
    intro other before hbefore
    have hlt := (List.getElem?_eq_some_iff.mp hbefore).1
    show Function.update w.store id (some w.entries.length) before.id = some other ↔ _
    by_cases heq : before.id = id
    · rw [heq, Function.update_self, hid]
      constructor
      · intro hsame
        cases hsame
        omega
      · intro hfalse
        cases hfalse
    · rw [Function.update_of_ne heq]
  have hgone : ∀ other, (w.addEntry session id).gone other = w.gone other := by
    intro other
    rw [Bool.eq_iff_iff, gone_eq_true, gone_eq_true]
    constructor
    · rintro ⟨after, hafter, hne⟩
      rcases hget hafter with hbefore | ⟨rfl, rfl⟩
      · exact ⟨after, hbefore, fun hlive' => hne ((hlive hbefore).mpr hlive')⟩
      · exfalso
        apply hne
        exact Function.update_self id _ w.store
    · rintro ⟨before, hbefore, hne⟩
      exact ⟨before, hput hbefore, fun hlive' => hne ((hlive hbefore).mp hlive')⟩
  refine ⟨?_, ?_, ?_, ?_, ?_, ?_, ?_, h.ordered⟩
  · intro otherId other hother
    by_cases heq : otherId = id
    · subst heq
      have hlast : w.entries.length = other := by
        simpa [SessionStore.addEntry] using hother
      subst hlast
      exact ⟨_, hnew, rfl, Function.update_self session _ w.attachments⟩
    · have hbefore : w.store otherId = some other := by
        simpa [SessionStore.addEntry, Function.update_of_ne heq] using hother
      obtain ⟨before, hbeforeGet, hbeforeId, hattachment⟩ := h.stored otherId other hbefore
      refine ⟨before, hput hbeforeGet, hbeforeId, ?_⟩
      show Function.update w.attachments session _ before.session = some other
      rw [Function.update_of_ne]
      · exact hattachment
      · intro hsame
        rw [hsame, hsession] at hattachment
        cases hattachment
  · intro otherSession other hother
    by_cases heq : otherSession = session
    · subst heq
      have hlast : w.entries.length = other := by
        simpa [SessionStore.addEntry] using hother
      subst hlast
      exact ⟨_, hnew, rfl, Function.update_self id _ w.store⟩
    · have hbefore : w.attachments otherSession = some other := by
        simpa [SessionStore.addEntry, Function.update_of_ne heq] using hother
      obtain ⟨before, hbeforeGet, hbeforeSession, hstore⟩ := h.attached otherSession other hbefore
      exact ⟨before, hput hbeforeGet, hbeforeSession, (hlive hbeforeGet).mpr hstore⟩
  · intro other after hafter hentered
    rcases hget hafter with hbefore | ⟨rfl, rfl⟩
    · exact (hlive hbefore).mpr (h.handle other after hbefore hentered)
    · exact Function.update_self id _ w.store
  · intro other after hafter hrequest
    rcases hget hafter with hbefore | ⟨rfl, rfl⟩
    · exact h.requested other after hbefore hrequest
    · cases hrequest
  · intro other after hafter hflags
    rcases hget hafter with hbefore | ⟨rfl, rfl⟩
    · exact (hlive hbefore).mpr (h.busy other after hbefore hflags)
    · exact Function.update_self id _ w.store
  · intro other
    rw [hgone other]
    exact h.detached other
  · intro other
    rw [hgone other]
    refine (h.disposed other).trans ?_
    cases hgoneOther : w.gone other with
    | false => simp
    | true =>
      obtain ⟨before, hbefore, -⟩ := gone_eq_true.mp hgoneOther
      rw [flag_of_getElem? hbefore, flag_of_getElem? (hput hbefore)]

end Updates

section Settled

variable {w : SessionStore} {entry : Nat} {sites : List StoreSite}

theorem Settled.disposing (h : Settled sites w) : Settled (.disposing :: sites) w where
  appending := fun other => by simp [h.appending other]
  announcing := fun other => by simp [h.announcing other]
  used := h.used

structure Pending (sites : List StoreSite) (entry : Nat) (w : SessionStore) : Prop where
  appending : ∀ other, w.flag other SessionEntry.appending = true ↔ .publishing other ∈ sites
  announcing : ∀ other, w.flag other SessionEntry.announcing = true ↔ .announcing other ∈ sites
  used : ∀ (other : Nat) (found : SessionEntry), w.entries[other]? = some found →
    found.entered = false → w.store found.id = some other → other ≠ entry →
    found.detachRequested = true ∧ (found.announcing = true ∨ found.appending = true)
  own : ∀ found, w.entries[entry]? = some found → found.entered = false
  idle : w.flag entry SessionEntry.announcing = false ∧ w.flag entry SessionEntry.appending = false

inductive HoldUp where
  | announcing
  | appending
  deriving DecidableEq

namespace HoldUp

def read : HoldUp → SessionEntry → Bool
  | announcing => SessionEntry.announcing
  | appending => SessionEntry.appending

def site : HoldUp → Nat → StoreSite
  | announcing => .announcing
  | appending => .publishing

def other : HoldUp → HoldUp
  | announcing => appending
  | appending => announcing

def clear : HoldUp → SessionEntry → SessionEntry
  | announcing => fun found => { found with announcing := false }
  | appending => fun found => { found with appending := false }

theorem site_eq {kind kind' : HoldUp} {entry entry' : Nat} :
    kind.site entry = kind'.site entry' ↔ kind = kind' ∧ entry = entry' := by
  cases kind <;> cases kind' <;> simp [site]

end HoldUp

structure SettledBut (sites : List StoreSite) (entry : Nat) (w : SessionStore) : Prop where
  flags : ∀ (kind : HoldUp) other, w.flag other kind.read = true ↔ kind.site other ∈ sites
  used : ∀ (other : Nat) (found : SessionEntry), w.entries[other]? = some found →
    found.entered = false → w.store found.id = some other → other ≠ entry →
    found.detachRequested = true ∧ (found.announcing = true ∨ found.appending = true)

theorem Settled.flags (h : Settled sites w) (kind : HoldUp) (other : Nat) :
    w.flag other kind.read = true ↔ kind.site other ∈ sites := by
  cases kind with
  | announcing => exact h.announcing other
  | appending => exact h.appending other

theorem Settled.but (h : Settled sites w) (entry : Nat) : SettledBut sites entry w where
  flags := h.flags
  used := fun other found hget hentered hlive _ => h.used other found hget hentered hlive

theorem Pending.but (h : Pending sites entry w) : SettledBut sites entry w where
  flags := fun kind other => by
    cases kind with
    | announcing => exact h.announcing other
    | appending => exact h.appending other
  used := h.used

theorem SettledBut.settled (h : SettledBut sites entry w)
    (hown : ∀ found, w.entries[entry]? = some found → found.entered = false →
      w.store found.id = some entry →
      found.detachRequested = true ∧ (found.announcing = true ∨ found.appending = true)) :
    Settled sites w where
  appending := h.flags .appending
  announcing := h.flags .announcing
  used := fun other found hget hentered hlive => by
    by_cases heq : other = entry
    · subst heq
      exact hown found hget hentered hlive
    · exact h.used other found hget hentered hlive heq

variable {change : SessionEntry → SessionEntry}

theorem SettledBut.setEntry (h : SettledBut sites entry w) {sites' : List StoreSite}
    (hown : ∀ kind : HoldUp, (w.flag entry fun found => kind.read (change found)) = true ↔
      kind.site entry ∈ sites')
    (hothers : ∀ (kind : HoldUp) other, other ≠ entry →
      (kind.site other ∈ sites' ↔ kind.site other ∈ sites)) :
    SettledBut sites' entry (w.setEntry entry change) where
  flags := fun kind other => by
    rw [flag_setEntry]
    split
    · rename_i heq
      rw [← heq]
      exact hown kind
    · rename_i hne
      rw [h.flags kind other, hothers kind other (Ne.symm hne)]
  used := fun other found hget hentered hlive hne => by
    rw [getElem?_setEntry, if_neg (Ne.symm hne)] at hget
    exact h.used other found hget hentered hlive hne

theorem Settled.begin (h : Settled sites w) (kind : HoldUp) {found : SessionEntry}
    (hfound : w.entries[entry]? = some found)
    (hread : ∀ other : HoldUp, other.read (change found) = (other == kind || other.read found)) :
    SettledBut (kind.site entry :: sites) entry (w.setEntry entry change) := by
  apply (h.but entry).setEntry
  · intro other
    have hflag := h.flags other entry
    rw [flag_of_getElem? hfound] at hflag ⊢
    rw [hread, List.mem_cons, HoldUp.site_eq, ← hflag]
    simp
  · intro other _ hne
    rw [List.mem_cons, HoldUp.site_eq]
    simp [hne]

end Settled

section Programs

variable {w : SessionStore} {entry : Nat} {sites : List StoreSite}

theorem Settled.record (h : Settled sites w) (happening : Happening) : Settled sites (w.record happening) :=
  ⟨h.appending, h.announcing, h.used⟩

theorem Settled.sessions (h : Settled sites w) (sessions : List SessionObject) :
    Settled sites { w with sessions } :=
  ⟨h.appending, h.announcing, h.used⟩

end Programs

section Lifecycle

end Lifecycle

end DshKernel.Session
