import DshKernel.Jsonl.Format
import DshKernel.Session.ChunkRowsRoundTrip

/-!
# The header line reads back

A header is read back as it was written, with its delegation depth stated.
-/

namespace DshKernel.Jsonl

open Js Session

def SessionHeader.stored (header : SessionHeader) : SessionHeader where
  version := header.version
  id := header.id
  createdAt := header.createdAt
  cwd := header.cwd
  parentSession := header.parentSession
  isSeeded := header.isSeeded
  origin := header.origin
  delegationDepth := some (header.delegationDepth.getD 0)
  agentPreset := header.agentPreset
  version_eq := header.version_eq
  createdAt_le := header.createdAt_le
  delegationDepth_le := by
    intro depth hdepth
    have hle := header.delegationDepth_le
    cases hheader : header.delegationDepth with
    | none =>
      simp only [hheader, Option.getD_none, Option.mem_some] at hdepth
      omega
    | some own =>
      simp only [hheader, Option.getD_some, Option.mem_some] at hdepth
      exact hle depth (by rw [hheader, hdepth]; rfl)

section Line

variable (header : SessionHeader) (cut : Nat)

def headerLine : Json :=
  .obj ([("type", .str "session"), ("version", .ofNat header.version), ("id", .str header.id),
      ("createdAt", .ofNat header.createdAt)]
    ++ (Session.optional "cwd" (header.cwd.map .str)
    ++ (Session.optional "parentSession" (header.parentSession.map .str)
    ++ (Session.optional "seedLength" (if header.isSeeded then some (.ofNat cut) else none)
    ++ (Session.optional "origin" (header.origin.map (·.toJson))
    ++ ([("delegationDepth", .ofNat (header.delegationDepth.getD 0))]
    ++ (Session.optional "agentPreset" (header.agentPreset.map .str) ++ [])))))))

def storedCut : Nat := if header.isSeeded then cut else 0

theorem headerLine_of_toHeaderLine {line : Json}
    (h : toHeaderLine header (if header.isSeeded then some cut else none) = .ok line) :
    line = headerLine header cut ∧ storedCut header cut ≤ maxSafeInteger := by
  unfold toHeaderLine at h
  cases hseeded : header.isSeeded with
  | false =>
    simp only [hseeded] at h
    simp at h
    subst h
    simp [headerLine, storedCut, hseeded]
  | true =>
    simp only [hseeded, if_true, Option.getD_some, Option.isNone_some, Bool.and_false,
      Bool.not_true, Bool.false_and] at h
    split at h
    · rename_i hfalse
      cases hfalse
    · split at h
      · cases h
      · rename_i hcut
        cases h
        refine ⟨?_, ?_⟩
        · simp [headerLine, hseeded]
        · simp only [storedCut, hseeded, if_true]
          omega

structure Reads (line : Json) : Prop where
  type : line.get? "type" = some (.str "session")
  version : line.get? "version" = some (.ofNat header.version)
  id : line.get? "id" = some (.str header.id)
  createdAt : line.get? "createdAt" = some (.ofNat header.createdAt)
  cwd : line.get? "cwd" = header.cwd.map .str
  parentSession : line.get? "parentSession" = header.parentSession.map .str
  seedLength : line.get? "seedLength" = if header.isSeeded then some (.ofNat cut) else none
  origin : line.get? "origin" = header.origin.map (·.toJson)
  delegationDepth : line.get? "delegationDepth" = some (.ofNat (header.delegationDepth.getD 0))
  agentPreset : line.get? "agentPreset" = header.agentPreset.map .str
  sandboxMode : line.get? "sandboxMode" = none
  approvalPolicy : line.get? "approvalPolicy" = none

theorem lookup_optional_nil (key other : String) (value : Option Json) :
    (Session.optional key value).lookup other = if other = key then value else none := by
  have hlookup := lookup_optional key other value []
  simpa using hlookup

theorem reads_headerLine : Reads header cut (headerLine header cut) := by
  constructor
  all_goals
    simp [headerLine, Json.get?, List.lookup_cons, lookup_optional, lookup_optional_nil]

variable {header cut} {line : Json}

theorem Reads.refuseForeignFormatVersion (h : Reads header cut line) :
    refuseForeignFormatVersion line = .ok () := by
  simp [Jsonl.refuseForeignFormatVersion, h.version, Json.ofNat, header.version_eq]

theorem Reads.isHeaderLine (h : Reads header cut line)
    (hcut : storedCut header cut ≤ maxSafeInteger) : isHeaderLine line = true := by
  have hcreated := isEventSeq_ofNat header.createdAt_le
  have hdepth : isEventSeq (.ofNat (header.delegationDepth.getD 0)) =
      some (header.delegationDepth.getD 0) :=
    isEventSeq_ofNat (header.stored.delegationDepth_le _ rfl)
  have hseed : (line.get? "seedLength").all (fun cut => (isEventSeq cut).isSome) = true := by
    rw [h.seedLength]
    cases hseeded : header.isSeeded with
    | false => rfl
    | true =>
      simp only [storedCut, hseeded, if_true] at hcut
      simp [isEventSeq_ofNat hcut]
  have horigin : (line.get? "origin").all (fun origin => origin.asString == some "subagent") = true := by
    rw [h.origin]
    cases header.origin with
    | none => rfl
    | some origin => rfl
  have hpreset : (line.get? "agentPreset").all (fun preset => preset.asString.isSome) = true := by
    rw [h.agentPreset]
    cases header.agentPreset with
    | none => rfl
    | some preset => rfl
  have htype : ((line.get? "type").bind Json.asString == some "session") = true := by
    rw [h.type]
    rfl
  have hversion : ((line.get? "version").bind Json.asNumber).isSome = true := by
    rw [h.version]
    rfl
  have hid : ((line.get? "id").bind Json.asString).isSome = true := by
    rw [h.id]
    rfl
  simp only [Jsonl.isHeaderLine, htype, hversion, hid, h.createdAt, h.delegationDepth,
    Option.bind_some, hcreated, hdepth, Option.isSome_some, hseed, horigin, hpreset, Bool.and_self]

theorem Reads.fromHeaderLine (h : Reads header cut line)
    (hcut : storedCut header cut ≤ maxSafeInteger) :
    fromHeaderLine line = .ok ⟨header.stored.toJson, storedCut header cut⟩ := by
  have hseeded : (line.get? "seedLength").isSome = header.isSeeded := by
    rw [h.seedLength]
    cases header.isSeeded with
    | false => rfl
    | true => rfl
  have hinherited : ((line.get? "seedLength").bind isEventSeq).getD 0 = storedCut header cut := by
    rw [h.seedLength]
    unfold storedCut at hcut ⊢
    cases hflag : header.isSeeded with
    | false => rfl
    | true =>
      simp only [hflag, if_true] at hcut
      simp [isEventSeq_ofNat hcut]
  simp [Jsonl.fromHeaderLine, Session.hasOwn, h.sandboxMode, h.approvalPolicy, hseeded, hinherited,
    h.version, h.id, h.createdAt, h.cwd, h.parentSession, h.origin, h.delegationDepth,
    h.agentPreset, SessionHeader.toJson, SessionHeader.stored, Session.optional]

end Line

section Lossless

variable (header : SessionHeader) (cut : Nat)

theorem isLossless_headerLine : (headerLine header cut).isLossless = true := by
  have hnat : ∀ n, (Json.ofNat n).isLossless = true := fun n => rfl
  have hseed : (if header.isSeeded then some (Json.ofNat cut) else none).all Json.isLossless = true := by
    cases header.isSeeded with
    | false => rfl
    | true => rfl
  have horigin : (header.origin.map (·.toJson)).all Json.isLossless = true := by
    cases header.origin with
    | none => rfl
    | some origin => rfl
  have htext : ∀ value : Option String, (value.map Json.str).all Json.isLossless = true := by
    intro value
    cases value with
    | none => rfl
    | some value => rfl
  have hstr : ∀ value, (Json.str value).isLossless = true := fun value => rfl
  show Json.fieldsLossless _ = true
  simp only [fieldsLossless_append, fieldsLossless_optional, Json.fieldsLossless, hseed, horigin,
    htext, hnat, hstr, Bool.and_self]

theorem wellFormed_headerLine : (headerLine header cut).WellFormed := by
  have hkeys : ∀ (key : String) (value : Option Json),
      ((Session.optional key value).map Prod.fst).Sublist [key] := by
    intro key value
    cases value with
    | none => exact List.nil_sublist _
    | some value => exact List.Sublist.refl _
  constructor
  · have hall : ["type", "version", "id", "createdAt", "cwd", "parentSession", "seedLength", "origin",
        "delegationDepth", "agentPreset"].Nodup := by decide
    refine List.Nodup.sublist ?_ hall
    simp only [List.map_append, List.map_cons, List.map_nil]
    exact (((((((hkeys _ _).append ((hkeys _ _).append ((hkeys _ _).append ((hkeys _ _).append
      ((List.Sublist.refl ["delegationDepth"]).append ((hkeys _ _).append
        (List.Sublist.refl [])))))))).cons_cons _).cons_cons _).cons_cons _).cons_cons _)
  · have hseed : ∀ item ∈ (if header.isSeeded then some (Json.ofNat cut) else none), item.WellFormed := by
      intro item hitem
      cases hseeded : header.isSeeded with
      | false => simp [hseeded] at hitem
      | true =>
        simp only [hseeded, if_true, Option.mem_some] at hitem
        rw [← hitem]
        trivial
    have horigin : ∀ item ∈ header.origin.map (·.toJson), item.WellFormed := by
      intro item hitem
      obtain ⟨origin, -, rfl⟩ := Option.map_eq_some_iff.mp hitem
      cases origin
      trivial
    have htext : ∀ value : Option String, ∀ item ∈ value.map Json.str, item.WellFormed := by
      intro value item hitem
      obtain ⟨text, -, rfl⟩ := Option.map_eq_some_iff.mp hitem
      trivial
    simp only [fieldsWellFormed_append, fieldsWellFormed_optional, Json.FieldsWellFormed]
    exact ⟨⟨trivial, trivial, trivial, trivial, trivial⟩, htext _, htext _, hseed, horigin,
      ⟨trivial, trivial⟩, htext _, trivial⟩

end Lossless

end DshKernel.Jsonl
