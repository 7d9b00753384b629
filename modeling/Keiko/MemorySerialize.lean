import Keiko.Library.JsonRoundTrip

/-! Memory records as rows of the vault's table. A record is flattened into the columns of a row, of
which those that carry remembered text are sealed; a row that is read is opened first and rebuilt
under null tests. A record comes back as it was stored, and its text stands nowhere in clear. -/
namespace Keiko.MemorySerialize
open Keiko.Library

section Records

inductive MemoryScope where
  | user (userId : Text)
  | workspace (workspaceId : Text)
  | project (projectId : Text)
  | workflow (workflowDefinitionId : Text)
  | global

structure MemoryModelIdentity where
  (provider modelId : Text)
  modelRevision : Option Text

structure MemoryProvenance where
  sourceKind : Text
  (sourceConversationId sourceWorkflowRunId sourceEvidenceManifestId : Option Text)
  capturedAt : Number
  modelIdentity : Option MemoryModelIdentity
  confidence : Number
  sensitivity : Text
  (captureRationale evidenceSpan : Option Text)
  sourceMessageIds : Option (List Text)

structure MemoryValidityInterval where
  validFrom : Number
  validUntil : Option Number

structure MemoryRetentionHint where
  policyKey : Text
  retainUntil : Option Number
  notes : Option Text

structure MemoryRecord where
  id : Text
  scope : MemoryScope
  (type body : Text)
  payload : Option Json
  provenance : MemoryProvenance
  validity : MemoryValidityInterval
  status : Text
  pinned : Bool
  staleReason : Option Text
  retentionHint : Option MemoryRetentionHint
  tags : List Text
  (createdAt updatedAt : Number)

structure MemoryRow where
  (id schemaVersion type scopeKind scopeCoordinate body : Text)
  payloadJson : Option Text
  (status sensitivity : Text)
  (pinned confidence validFrom : Number)
  validUntil : Option Number
  staleReason : Option Text
  (tagsJson sourceKind : Text)
  (sourceConversationId sourceWorkflowRunId sourceEvidenceManifestId : Option Text)
  capturedAt : Number
  (captureRationale modelProvider modelId modelRevision retentionPolicyKey : Option Text)
  retentionRetainUntil : Option Number
  (retentionNotes evidenceSpan sourceMessageIdsJson : Option Text)
  (createdAt updatedAt : Number)

structure MemoryStorageError where
  (code message : Text)

def schemaMismatch (message : Text) : MemoryStorageError := ⟨"schema-mismatch".toList,message⟩

end Records

section Columns

/-- What a cipher seals depends on its source of random bytes as well as on the text. -/
structure MemoryContentCipher (σ : Type) where
  sealString : Text → StateM σ Text
  openString : Text → Except MemoryStorageError Text
  opens : ∀ plaintext random, openString (sealString plaintext random).1 = .ok plaintext

def mapContentColumns {m : Type → Type} [Monad m] (row : MemoryRow) (map : Text → m Text) : m MemoryRow := do
  let body ← map row.body
  let payloadJson ← row.payloadJson.mapM map
  let tagsJson ← map row.tagsJson
  let captureRationale ← row.captureRationale.mapM map
  let staleReason ← row.staleReason.mapM map
  let evidenceSpan ← row.evidenceSpan.mapM map
  return { row with body, payloadJson, tagsJson, captureRationale, staleReason, evidenceSpan }

def decryptContentColumns {σ : Type} (row : MemoryRow) (cipher : MemoryContentCipher σ) :
    Except MemoryStorageError MemoryRow :=
  mapContentColumns row cipher.openString

def encryptContentColumns {σ : Type} (row : MemoryRow) (cipher : MemoryContentCipher σ) : StateM σ MemoryRow :=
  mapContentColumns row cipher.sealString

def contentColumns (row : MemoryRow) : List (Option Text) :=
  [some row.body,row.payloadJson,some row.tagsJson,row.captureRationale,row.staleReason,row.evidenceSpan]

def blank (row : MemoryRow) : MemoryRow := mapContentColumns (m := Id) row fun _ => ([] : Text)

end Columns

section Reading

def buildScopeFromRow (kind coord : Text) : Except MemoryStorageError MemoryScope :=
  if kind = "user".toList then .ok (.user coord)
  else if kind = "workspace".toList then .ok (.workspace coord)
  else if kind = "project".toList then .ok (.project coord)
  else if kind = "workflow".toList then .ok (.workflow coord)
  else if kind = "global".toList then .ok .global
  else .error (schemaMismatch "Stored memory scope kind is not recognized.".toList)

def parseStrings (name raw : Text) : Except MemoryStorageError (List Text) :=
  match Json.parse raw with
  | none => .error (schemaMismatch ("Stored ".toList ++ name ++ " JSON is invalid.".toList))
  | some parsed =>
    match (Json.items? (some parsed)).bind fun items => items.mapM fun item => Json.text? (some item) with
    | none => .error (schemaMismatch ("Stored ".toList ++ name ++ " JSON must be an array of strings.".toList))
    | some texts => .ok texts

def parsedSourceMessageIds : Option Text → Except MemoryStorageError (Option (List Text))
  | none => .ok none
  | some json => some <$> parseStrings "source message ids".toList json

def parseTagsJson (raw : Text) : Except MemoryStorageError (List Text) := parseStrings "memory tags".toList raw

def hasKind : Json → Bool
  | .object fields => (Json.field fields "kind".toList).isSome
  | _ => false

def parsePayloadJson : Option Text → Except MemoryStorageError (Option Json)
  | none => .ok none
  | some raw =>
    match Json.parse raw with
    | none => .error (schemaMismatch "Stored memory payload JSON is invalid.".toList)
    | some parsed =>
      if hasKind parsed then .ok (some parsed)
      else .error (schemaMismatch "Stored memory payload JSON must be an object payload.".toList)

variable (row : MemoryRow)

def buildModelIdentityFromRow : Option MemoryModelIdentity :=
  match row.modelProvider, row.modelId with
  | some provider, some modelId => some ⟨provider,modelId,row.modelRevision⟩
  | _, _ => none

def buildProvenanceFromRow : Except MemoryStorageError MemoryProvenance := do
  let sourceMessageIds ← parsedSourceMessageIds row.sourceMessageIdsJson
  return { row with sourceMessageIds, modelIdentity := buildModelIdentityFromRow row }

def buildValidityFromRow : MemoryValidityInterval := ⟨row.validFrom,row.validUntil⟩

def buildRetentionHintFromRow : Option MemoryRetentionHint :=
  row.retentionPolicyKey.map fun policyKey => ⟨policyKey,row.retentionRetainUntil,row.retentionNotes⟩

def decryptedRowToMemoryRecord : Except MemoryStorageError MemoryRecord := do
  let payload ← parsePayloadJson row.payloadJson
  let scope ← buildScopeFromRow row.scopeKind row.scopeCoordinate
  let provenance ← buildProvenanceFromRow row
  let tags ← parseTagsJson row.tagsJson
  return { row with
    payload, scope, provenance, tags
    validity := buildValidityFromRow row
    pinned := row.pinned = .finite 1
    retentionHint := buildRetentionHintFromRow row }

def rowToMemoryRecord {σ : Type} (row : MemoryRow) (cipher : MemoryContentCipher σ) :
    Except MemoryStorageError MemoryRecord := do
  let decrypted ← decryptContentColumns row cipher
  decryptedRowToMemoryRecord decrypted

end Reading

section Writing

def scopeKindOf : MemoryScope → Text
  | .user _ => "user".toList
  | .workspace _ => "workspace".toList
  | .project _ => "project".toList
  | .workflow _ => "workflow".toList
  | .global => "global".toList

def scopeCoordinateOf : MemoryScope → Text
  | .user userId => userId
  | .workspace workspaceId => workspaceId
  | .project projectId => projectId
  | .workflow workflowDefinitionId => workflowDefinitionId
  | .global => []

def stringifyStrings (texts : List Text) : Text := Json.stringify (.array (texts.map .string))

def plainRecordToRow (record : MemoryRecord) : MemoryRow :=
  { record, record.validity, record.provenance with
    schemaVersion := "1".toList
    scopeKind := scopeKindOf record.scope
    scopeCoordinate := scopeCoordinateOf record.scope
    payloadJson := record.payload.map Json.stringify
    pinned := if record.pinned then .finite 1 else .finite 0
    tagsJson := stringifyStrings record.tags
    sourceMessageIdsJson := record.provenance.sourceMessageIds.map stringifyStrings
    modelProvider := record.provenance.modelIdentity.map MemoryModelIdentity.provider
    modelId := record.provenance.modelIdentity.map MemoryModelIdentity.modelId
    modelRevision := record.provenance.modelIdentity.bind MemoryModelIdentity.modelRevision
    retentionPolicyKey := record.retentionHint.map MemoryRetentionHint.policyKey
    retentionRetainUntil := record.retentionHint.bind MemoryRetentionHint.retainUntil
    retentionNotes := record.retentionHint.bind MemoryRetentionHint.notes }

def memoryRecordToRow {σ : Type} (record : MemoryRecord) (cipher : MemoryContentCipher σ) : StateM σ MemoryRow :=
  encryptContentColumns (plainRecordToRow record) cipher

end Writing

section RoundTrip

variable {σ : Type} (cipher : MemoryContentCipher σ)

def sealed (value : Text) (random : σ) : Text := (cipher.sealString value random).1

theorem mapM_sealString (v : Option Text) (random : σ) :
    ((v.mapM cipher.sealString) random).1 = v.map fun t => sealed cipher t random := by
  cases v <;> rfl

theorem encryptContentColumns_eq (row : MemoryRow) (random : σ) : ∃ r₁ r₂ r₃ r₄ r₅ r₆,
    (encryptContentColumns row cipher random).1 = { row with
        body := sealed cipher row.body r₁
        payloadJson := row.payloadJson.map fun t => sealed cipher t r₂
        tagsJson := sealed cipher row.tagsJson r₃
        captureRationale := row.captureRationale.map fun t => sealed cipher t r₄
        staleReason := row.staleReason.map fun t => sealed cipher t r₅
        evidenceSpan := row.evidenceSpan.map fun t => sealed cipher t r₆ } := by
  simp only [← mapM_sealString]
  exact ⟨_,_,_,_,_,_,rfl⟩

theorem mapM_openString (v : Option Text) (random : σ) :
    (v.map fun t => sealed cipher t random).mapM cipher.openString = .ok v := by
  cases v with
  | none => rfl
  | some t =>
    change (do let opened ← cipher.openString (sealed cipher t random); pure (some opened)) = _
    rw [sealed,cipher.opens]
    rfl

theorem decrypt_encrypt (row : MemoryRow) (random : σ) :
    decryptContentColumns (encryptContentColumns row cipher random).1 cipher = .ok row := by
  obtain ⟨r₁,r₂,r₃,r₄,r₅,r₆,written⟩ := encryptContentColumns_eq cipher row random
  rw [written,decryptContentColumns,mapContentColumns]
  simp only [mapM_openString]
  simp only [sealed,cipher.opens]
  rfl

theorem mem_contentColumns_encrypt {row : MemoryRow} {random : σ} {t : Text}
    (mem : some t ∈ contentColumns (encryptContentColumns row cipher random).1) :
    ∃ plaintext random, t = sealed cipher plaintext random := by
  obtain ⟨r₁,r₂,r₃,r₄,r₅,r₆,written⟩ := encryptContentColumns_eq cipher row random
  rw [written] at mem
  have column : ∀ {v : Option Text} {random : σ}, some t = v.map (fun t => sealed cipher t random) →
      ∃ plaintext random, t = sealed cipher plaintext random := by
    intro v random same
    obtain ⟨plaintext,_,rfl⟩ := Option.map_eq_some_iff.mp same.symm
    exact ⟨plaintext,random,rfl⟩
  simp only [contentColumns,List.mem_cons,List.not_mem_nil,or_false,Option.some.injEq] at mem
  rcases mem with rfl | here | rfl | here | here | here
  · exact ⟨_,_,rfl⟩
  · exact column here
  · exact ⟨_,_,rfl⟩
  · exact column here
  · exact column here
  · exact column here

theorem mapM_blank (v : Option Text) : v.mapM (m := Id) (fun _ => ([] : Text)) = v.map fun _ => [] := by
  cases v <;> rfl

theorem blank_encrypt (row : MemoryRow) (random : σ) :
    blank (encryptContentColumns row cipher random).1 = blank row := by
  obtain ⟨r₁,r₂,r₃,r₄,r₅,r₆,written⟩ := encryptContentColumns_eq cipher row random
  rw [written]
  simp only [blank,mapContentColumns,mapM_blank,Option.map_map]
  rfl

theorem parseStrings_stringifyStrings (name : Text) (texts : List Text) :
    parseStrings name (stringifyStrings texts) = .ok texts := by
  have read : (texts.map Json.string).mapM (fun item => Json.text? (some item)) = some texts := by
    induction texts with
    | nil => rfl
    | cons t texts ih =>
      rw [List.map_cons,List.mapM_cons,ih]
      · rfl
  have plain : Json.Plain (.array (texts.map .string)) := by
    rw [Json.Plain,Json.Over,Json.overItems_iff]
    intro item mem
    obtain ⟨t,_,rfl⟩ := List.mem_map.mp mem
    trivial
  rw [parseStrings,stringifyStrings,Json.parse_stringify plain]
  simp only [Json.items?,Option.bind_some,read]

structure Storable (record : MemoryRecord) : Prop where
  kind : ∀ payload ∈ record.payload, hasKind payload = true
  plain : ∀ payload ∈ record.payload, Json.Plain payload

theorem parsePayloadJson_stringify {r : MemoryRecord} (storable : Storable r) :
    parsePayloadJson (r.payload.map Json.stringify) = .ok r.payload := by
  cases held : r.payload with
  | none => rfl
  | some payload =>
    rw [Option.map_some,parsePayloadJson,Json.parse_stringify (storable.plain payload held)]
    exact if_pos (storable.kind payload held)

theorem buildScopeFromRow_scopeOf (scope : MemoryScope) :
    buildScopeFromRow (scopeKindOf scope) (scopeCoordinateOf scope) = .ok scope := by
  cases scope <;> rfl

theorem buildModelIdentityFromRow_plainRecordToRow (r : MemoryRecord) :
    buildModelIdentityFromRow (plainRecordToRow r) = r.provenance.modelIdentity := by
  cases held : r.provenance.modelIdentity <;> simp [buildModelIdentityFromRow,plainRecordToRow,held]

theorem buildProvenanceFromRow_plainRecordToRow (r : MemoryRecord) :
    buildProvenanceFromRow (plainRecordToRow r) = .ok r.provenance := by
  have ids : parsedSourceMessageIds (plainRecordToRow r).sourceMessageIdsJson = .ok r.provenance.sourceMessageIds := by
    change parsedSourceMessageIds (r.provenance.sourceMessageIds.map stringifyStrings) = _
    cases r.provenance.sourceMessageIds with
    | none => rfl
    | some texts =>
      rw [Option.map_some,parsedSourceMessageIds,parseStrings_stringifyStrings]
      rfl
  rw [buildProvenanceFromRow,ids,buildModelIdentityFromRow_plainRecordToRow]
  rfl

theorem buildRetentionHintFromRow_plainRecordToRow (r : MemoryRecord) :
    buildRetentionHintFromRow (plainRecordToRow r) = r.retentionHint := by
  cases held : r.retentionHint <;> simp [buildRetentionHintFromRow,plainRecordToRow,held]

theorem decryptedRowToMemoryRecord_plainRecordToRow {r : MemoryRecord} (storable : Storable r) :
    decryptedRowToMemoryRecord (plainRecordToRow r) = .ok r := by
  have payload : parsePayloadJson (plainRecordToRow r).payloadJson = .ok r.payload :=
    parsePayloadJson_stringify storable
  have scope : buildScopeFromRow (plainRecordToRow r).scopeKind (plainRecordToRow r).scopeCoordinate =
      .ok r.scope := buildScopeFromRow_scopeOf r.scope
  have tags : parseTagsJson (plainRecordToRow r).tagsJson = .ok r.tags :=
    parseStrings_stringifyStrings _ _
  have pinned : decide ((plainRecordToRow r).pinned = .finite 1) = r.pinned := by
    cases held : r.pinned <;> simp [plainRecordToRow,held]
  rw [decryptedRowToMemoryRecord,payload,scope,buildProvenanceFromRow_plainRecordToRow,tags]
  simp only [bind,Except.bind,pure,Except.pure,pinned,buildRetentionHintFromRow_plainRecordToRow]
  rfl

def forgotten (record : MemoryRecord) : MemoryRecord :=
  { record with
    body := []
    payload := record.payload.map fun _ => .null
    tags := []
    staleReason := record.staleReason.map fun _ => []
    provenance := { record.provenance with
      captureRationale := record.provenance.captureRationale.map fun _ => []
      evidenceSpan := record.provenance.evidenceSpan.map fun _ => [] } }

theorem blank_plainRecordToRow (r : MemoryRecord) :
    blank (plainRecordToRow r) = blank (plainRecordToRow (forgotten r)) := by
  simp only [blank,mapContentColumns,mapM_blank,plainRecordToRow,forgotten,Option.map_map]
  rfl

theorem rowToMemoryRecord_memoryRecordToRow {record : MemoryRecord} (storable : Storable record) (random : σ) :
    rowToMemoryRecord (memoryRecordToRow record cipher random).1 cipher = .ok record ∧
    (∀ text, some text ∈ contentColumns (memoryRecordToRow record cipher random).1 →
      ∃ plaintext random, text = sealed cipher plaintext random) ∧
    blank (memoryRecordToRow record cipher random).1 = blank (plainRecordToRow (forgotten record)) := by
  refine ⟨?_,fun _ mem => mem_contentColumns_encrypt cipher mem,?_⟩
  · rw [rowToMemoryRecord,memoryRecordToRow,decrypt_encrypt]
    exact decryptedRowToMemoryRecord_plainRecordToRow storable
  · exact (blank_encrypt cipher _ random).trans (blank_plainRecordToRow record)

/-- A cipher that puts a fresh character before the text. -/
def markingCipher : MemoryContentCipher ℕ where
  sealString text random := (Char.ofNat random :: text,random + 1)
  openString sealed := .ok sealed.tail
  opens _ _ := rfl

def sampleRecord : MemoryRecord where
  id := "m-1".toList
  scope := .project "p-1".toList
  type := "preference".toList
  body := []
  payload := some (.object [("kind".toList,.string "string-list".toList),("items".toList,.array [.string []])])
  provenance := ⟨"conversation".toList,some [],none,none,.finite 7,some ⟨"local".toList,[],some []⟩,.finite 1,
    "internal".toList,some [],none,some [[]]⟩
  validity := ⟨.finite 7,some (.finite 0)⟩
  status := "accepted".toList
  pinned := true
  staleReason := some []
  retentionHint := some ⟨[],none,some []⟩
  tags := ["style".toList]
  createdAt := .finite 7
  updatedAt := .finite 8

theorem rowToMemoryRecord_memoryRecordToRow_sample :
    rowToMemoryRecord (memoryRecordToRow sampleRecord markingCipher 65).1 markingCipher = .ok sampleRecord ∧
    (∀ text, some text ∈ contentColumns (memoryRecordToRow sampleRecord markingCipher 65).1 →
      ∃ plaintext random, text = sealed markingCipher plaintext random) ∧
    blank (memoryRecordToRow sampleRecord markingCipher 65).1 = blank (plainRecordToRow (forgotten sampleRecord)) :=
  rowToMemoryRecord_memoryRecordToRow markingCipher
    ⟨by rintro payload ⟨⟩; rfl,by
      rintro payload ⟨⟩
      exact ⟨⟨by decide,by decide⟩,trivial,⟨trivial,trivial⟩,trivial⟩⟩ 65

end RoundTrip

end Keiko.MemorySerialize
