import DshKernel.SessionQuery.SearchEngine

/-!
# What a search returns depends on

Requests with one fingerprint accept the same rows, and the hits within one session depend on the
row of that session alone.
-/

namespace DshKernel.SessionQuery

open Js Lib List

section Clauses

variable {runtime : Runtime} {row : SearchRow}

theorem all_addList_of_perm {column : SearchRow → String} {values others : List String}
    (h : values.Perm others) :
    (addList column values).all (SqlPredicate.holds row) =
      (addList column others).all (SqlPredicate.holds row) := by
  unfold addList
  by_cases hnil : others = []
  · rw [hnil] at h ⊢
    rw [h.eq_nil]
  · have hvalues : values ≠ [] := fun heq => hnil (heq ▸ h).nil_eq.symm
    rw [if_neg hnil, if_neg hvalues]
    simp only [all_cons, all_nil, SqlPredicate.holds, h.contains_eq]

theorem all_addNullableList_of_perm {column : SearchRow → Option String}
    {values others : List (Option String)} (h : values.Perm others) :
    (addNullableList column values).all (SqlPredicate.holds row) =
      (addNullableList column others).all (SqlPredicate.holds row) := by
  unfold addNullableList
  by_cases hnil : others = []
  · rw [hnil] at h ⊢
    rw [h.eq_nil]
  · have hvalues : values ≠ [] := fun heq => hnil (heq ▸ h).nil_eq.symm
    rw [if_neg hnil, if_neg hvalues]
    simp only [all_cons, all_nil, SqlPredicate.holds, h.contains_eq]

theorem addAvailability_of_perm {values others : List SessionAvailability}
    (h : values.Perm others) : addAvailability values = addAvailability others := by
  match values, others, h with
  | [], others, h => rw [h.nil_eq]
  | [value], others, h => rw [h.singleton_eq]
  | first :: second :: rest, [], h => exact absurd h.length_eq (Nat.succ_ne_zero _)
  | first :: second :: rest, [other], h =>
    have hlength := h.length_eq
    simp only [length_cons, length_nil] at hlength
    omega
  | first :: second :: rest, other :: another :: more, h => cases first <;> cases other <;> rfl

theorem nodup_eraseDups (values : List SessionAvailability) : values.eraseDups.Nodup := by
  induction hlength : values.length using Nat.strong_induction_on generalizing values with
  | _ length ih =>
    cases values with
    | nil => exact nodup_nil
    | cons value rest =>
      rw [eraseDups_cons, nodup_cons]
      refine ⟨?_, ih _ ?_ _ rfl⟩
      · simp [mem_eraseDups]
      · rw [← hlength, length_cons]
        exact Nat.lt_succ_of_le (length_filter_le _ _)

theorem all_sessionClauses_canonical (filter : SessionResultFilter SessionResultRange) :
    (sessionClauses (filter.canonical runtime)).all (SqlPredicate.holds row) =
      (sessionClauses filter).all (SqlPredicate.holds row) := by
  cases filter with
  | id values => exact all_addList_of_perm (sortValues_perm _ _)
  | cwd values => exact all_addNullableList_of_perm (sortValues_perm _ _)
  | createdAt range => rfl
  | parent values => exact all_addNullableList_of_perm (sortValues_perm _ _)
  | availability values =>
    have hperm : (sortValues runtime (fun value => some value.text) values).eraseDups.Perm
        values.eraseDups := by
      refine (perm_ext_iff_of_nodup (nodup_eraseDups _) (nodup_eraseDups _)).mpr ?_
      intro value
      rw [mem_eraseDups, mem_eraseDups]
      exact (sortValues_perm _ values).mem_iff
    exact congrArg (fun clauses => all clauses _) (addAvailability_of_perm hperm)

theorem all_eventClauses_canonical (filter : SessionEventMetadataFilter SessionResultRange) :
    (eventClauses (filter.canonical runtime)).all (SqlPredicate.holds row) =
      (eventClauses filter).all (SqlPredicate.holds row) := by
  cases filter with
  | seq range => rfl
  | time range => rfl
  | type values => exact all_addList_of_perm (sortValues_perm _ _)
  | surface values => exact all_addList_of_perm ((sortValues_perm _ _).map _)

theorem buildWhere_clauses {clauses : List SqlPredicate} {condition : SqlWhere}
    (h : buildWhere clauses = .ok condition) : condition.clauses = clauses := by
  unfold buildWhere at h
  cases hbind : bindClauses 0 clauses with
  | error failure =>
    rw [hbind] at h
    cases h
  | ok params =>
    rw [hbind] at h
    cases hcount : assertFts5OuterPredicateCount clauses.length with
    | error failure =>
      rw [show (Except.ok params >>= _) = _ from rfl, hcount] at h
      cases h
    | ok done =>
      rw [show (Except.ok params >>= _) = _ from rfl, hcount] at h
      exact congrArg SqlWhere.clauses (Except.ok.inj h).symm

variable {filters others : List (SessionResultFilter SessionResultRange)}
variable {eventFilters otherEvents : List (SessionEventMetadataFilter SessionResultRange)}
variable {condition other : SqlWhere}

theorem holds_of_canonicalSessionFilters (h : buildSessionWhere filters = .ok condition)
    (hother : buildSessionWhere others = .ok other)
    (heq : canonicalSessionFilters runtime filters = canonicalSessionFilters runtime others) :
    condition.holds = other.holds := by
  funext row
  rw [SqlWhere.holds, SqlWhere.holds, buildWhere_clauses h, buildWhere_clauses hother,
    all_flatMap, all_flatMap]
  exact all_of_canonicalFilters all_sessionClauses_canonical heq

theorem holds_of_canonicalEventFilters (h : buildEventWhere eventFilters = .ok condition)
    (hother : buildEventWhere otherEvents = .ok other)
    (heq : canonicalEventFilters runtime eventFilters =
      canonicalEventFilters runtime otherEvents) : condition.holds = other.holds := by
  funext row
  rw [SqlWhere.holds, SqlWhere.holds, buildWhere_clauses h, buildWhere_clauses hother,
    all_flatMap, all_flatMap]
  exact all_of_canonicalFilters all_eventClauses_canonical heq

end Clauses

section Target

variable {fts : FullText} {corpus other : Corpus} {query sessionId : String}
variable {holds : SearchRow → Bool}

theorem filter_flatMap_entries {ν : Type} {entries : List (String × ν)}
    {rows : String × ν → List SearchRow} (hnodup : (entries.map Prod.fst).Nodup)
    (hrows : ∀ entry, ∀ row ∈ rows entry, row.sessionId = entry.1) :
    (entries.flatMap rows).filter (fun row => row.sessionId == sessionId && holds row) =
      ((entries.lookup sessionId).toList.flatMap fun value => rows (sessionId, value)).filter
        holds := by
  induction entries with
  | nil => rfl
  | cons entry rest ih =>
    obtain ⟨id, value⟩ := entry
    rw [map_cons, nodup_cons] at hnodup
    rw [flatMap_cons, filter_append, ih hnodup.2]
    by_cases hid : sessionId = id
    · subst hid
      have habsent : rest.lookup sessionId = none := by
        rw [lookup_eq_none_iff]
        intro entry hmem
        apply bne_iff_ne.mpr
        intro heq
        have hkey : entry.1 ∈ rest.map Prod.fst := mem_map_of_mem hmem
        rw [← heq] at hkey
        exact hnodup.1 hkey
      have hhead : (rows (sessionId, value)).filter
          (fun row => row.sessionId == sessionId && holds row) =
            (rows (sessionId, value)).filter holds := by
        refine filter_congr fun row hrow => ?_
        rw [hrows _ row hrow, beq_self_eq_true, Bool.true_and]
      rw [hhead, habsent, lookup_cons_self]
      simp
    · have hhead : (rows (id, value)).filter
          (fun row => row.sessionId == sessionId && holds row) = [] := by
        refine filter_eq_nil_iff.mpr fun row hrow => ?_
        rw [hrows _ row hrow, beq_false_of_ne (Ne.symm hid), Bool.false_and]
        exact Bool.false_ne_true
      rw [hhead, nil_append, lookup_cons, beq_false_of_ne hid]

theorem sessionId_of_mem_filterMap {header : SessionHeaderRow} {live persisted : Bool}
    {documents : List DocumentRow} {row : SearchRow}
    (h : row ∈ documents.filterMap (searchRow fts query sessionId header live persisted)) :
    row.sessionId = sessionId := by
  obtain ⟨document, -, hrow⟩ := mem_filterMap.mp h
  obtain ⟨marked, -, rfl⟩ := Option.map_eq_some_iff.mp hrow
  rfl

theorem filter_matched : (corpus.matched fts query).filter
      (fun row => row.sessionId == sessionId && holds row) =
    ((corpus.persistedSessions.get? sessionId).toList.flatMap fun value =>
        corpus.persistedRows fts query (sessionId, value)).filter holds ++
      ((corpus.liveSessions.get? sessionId).toList.flatMap fun value =>
        corpus.liveRows fts query (sessionId, value)).filter holds := by
  rw [Corpus.matched, filter_append,
    filter_flatMap_entries corpus.persistedSessions.nodup ?_,
    filter_flatMap_entries corpus.liveSessions.nodup ?_]
  · rfl
  · intro entry row hrow
    exact sessionId_of_mem_filterMap hrow
  · intro entry row hrow
    unfold Corpus.persistedRows at hrow
    split at hrow
    · exact sessionId_of_mem_filterMap hrow
    · exact absurd hrow not_mem_nil

def SearchRow.withPersisted (persisted : Bool) (row : SearchRow) : SearchRow :=
  { row with persisted }

theorem liveRows_eq_map (entry : String × IndexedLiveSession) :
    other.liveRows fts query entry =
      (corpus.liveRows fts query entry).map
        (SearchRow.withPersisted (other.persistenceVisible && entry.2.persisted)) := by
  rw [Corpus.liveRows, Corpus.liveRows, map_filterMap]
  refine filterMap_congr fun document _ => ?_
  rw [searchRow, searchRow, Option.map_map]
  rfl

theorem eventClauses_withPersisted (persisted : Bool) (row : SearchRow)
    (filter : SessionEventMetadataFilter SessionResultRange) :
    (eventClauses filter).all (SqlPredicate.holds (row.withPersisted persisted)) =
      (eventClauses filter).all (SqlPredicate.holds row) := by
  cases filter with
  | seq range => cases range with | mk low high _ => cases low <;> cases high <;> rfl
  | time range => cases range with | mk low high _ => cases low <;> cases high <;> rfl
  | type values => cases values <;> rfl
  | surface values => cases values <;> rfl

theorem holds_withPersisted {filters : List (SessionEventMetadataFilter SessionResultRange)}
    {condition : SqlWhere} (h : buildEventWhere filters = .ok condition) (persisted : Bool)
    (row : SearchRow) : condition.holds (row.withPersisted persisted) = condition.holds row := by
  rw [SqlWhere.holds, SqlWhere.holds, buildWhere_clauses h, all_flatMap, all_flatMap]
  exact congrArg (fun f => all filters f)
    (funext (eventClauses_withPersisted persisted row))

theorem orderBy_map_withPersisted (persisted : Bool) (rows : List SearchRow) :
    orderBy eventOrder (rows.map (SearchRow.withPersisted persisted)) =
      (orderBy eventOrder rows).map (SearchRow.withPersisted persisted) :=
  (map_insertionSort (fun a b => (eventOrder a b).isLE) (fun a b => (eventOrder a b).isLE)
    (SearchRow.withPersisted persisted) rows fun _ _ _ _ => Iff.rfl).symm

variable {filters others : List (SessionEventMetadataFilter SessionResultRange)}
variable {condition otherCondition : SqlWhere}

theorem rankedEvents_of_live {row : IndexedLiveSession} (config : ResolvedConfig)
    (hcondition : buildEventWhere filters = .ok condition)
    (hholds : otherCondition.holds = condition.holds)
    (hrow : corpus.liveSessions.get? sessionId = some row)
    (hother : other.liveSessions.get? sessionId = some row) :
    (rankedEvents fts other query sessionId otherCondition).map (eventHit config) =
      (rankedEvents fts corpus query sessionId condition).map (eventHit config) := by
  have hstored : ∀ corpus : Corpus, corpus.liveSessions.get? sessionId = some row →
      (corpus.persistedSessions.get? sessionId).toList.flatMap
        (fun value => corpus.persistedRows fts query (sessionId, value)) = [] := by
    intro corpus hrow
    have hkey : sessionId ∈ corpus.liveSessions.keys := by
      apply Classical.byContradiction
      intro habsent
      rw [OrderedMap.get?_eq_none.mpr habsent] at hrow
      cases hrow
    refine flatMap_eq_nil_iff.mpr fun value _ => ?_
    exact if_neg fun h => h.2 hkey
  rw [rankedEvents, rankedEvents, filter_matched, filter_matched, hstored _ hrow, hstored _ hother,
    hrow, hother, hholds]
  simp only [Option.toList_some, flatMap_singleton, filter_nil, nil_append]
  rw [@liveRows_eq_map fts corpus other, filter_map]
  have hsame : condition.holds ∘
      SearchRow.withPersisted (other.persistenceVisible && row.persisted) = condition.holds :=
    funext (holds_withPersisted hcondition _)
  rw [hsame, orderBy_map_withPersisted, map_map]
  rfl

theorem rankedEvents_of_persisted {row : IndexedPersistedSession}
    (hholds : otherCondition.holds = condition.holds)
    (hlive : corpus.liveSessions.get? sessionId = none)
    (hotherLive : other.liveSessions.get? sessionId = none)
    (hrow : corpus.persistedSessions.get? sessionId = some row)
    (hother : other.persistedSessions.get? sessionId = some row)
    (hvisible : corpus.persistenceVisible = true)
    (hotherVisible : other.persistenceVisible = true) :
    rankedEvents fts other query sessionId otherCondition =
      rankedEvents fts corpus query sessionId condition := by
  rw [rankedEvents, rankedEvents, filter_matched, filter_matched, hlive, hotherLive, hrow, hother,
    hholds]
  simp only [Option.toList_some, Option.toList_none, flatMap_singleton, flatMap_nil,
    Corpus.persistedRows, hvisible, hotherVisible, true_and,
    OrderedMap.get?_eq_none.mp hlive, OrderedMap.get?_eq_none.mp hotherLive, not_false_eq_true,
    if_true]

end Target

section Ranking

variable {fts : FullText} {corpus : Corpus} {query sessionId : String} {a b : SearchRow}

section Orders

variable {β : Type} [Ord β] [Std.TransOrd β]

end Orders

end Ranking

end DshKernel.SessionQuery
