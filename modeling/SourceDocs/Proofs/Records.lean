import SourceDocs.Proofs.Corpus.Snapshot
import SourceDocs.Proofs.Json.Codec
import SourceDocs.Proofs.Metadata
import SourceDocs.Records

set_option autoImplicit false

/-! # Records: what is read back, and from what

Of each record the codec is lawful for the values that it can hold: numbers have the width of their
words, no known language is called like the sentinel, and no instant is a leap second within a
minute. Each is also a function of its fields alone
(`ofFields?`), hence it reads them in any order, and `null` as what is not there. -/

namespace SourceDocs

namespace Language

/-- Labels as JSON. -/
def codec : Json.Codec Language := ⟨toJson, ofJson?⟩

theorem toJson_ne_null (l : Language) : l.toJson ≠ .null := by
  intro h
  cases h

theorem lawful_codec : codec.Lawful (· ≠ .known unknownName) where
  plain_encode l := .string l.name
  decode?_encode _ h := congrArg some (ofName_name h)
  storable_of_decode? _ _ h := by
    obtain ⟨name, -, rfl⟩ := Option.map_eq_some_iff.1 h
    exact ofName_ne name

end Language

namespace SourceFile

/-- Files as JSON. -/
def codec : Json.Codec SourceFile := ⟨toJson, ofJson?⟩

/-- The names of the fields. -/
def fieldNames : List String := ["path", "content"]

/-- The file with the given fields. -/
def ofFields? : List (Option Json) → Option SourceFile
  | [path, content] => do
    let path ← Json.required? Json.text? path
    let content ← Json.required? Json.text? content
    return { path, content }
  | _ => none

theorem readsBy : codec.ReadsBy fieldNames ofFields? where
  nodup := by decide
  decode?_eq j := by
    show ofJson? j = _
    unfold ofJson? fieldNames
    rcases Json.record? _ j with _ | _ | ⟨_ | path, _ | ⟨_ | content, _ | _⟩⟩ <;>
      simp [ofFields?, Json.required?]
  read_dropNull vs := by
    rcases vs with _ | ⟨path, _ | ⟨content, _ | _⟩⟩ <;>
      simp [ofFields?, Json.required?_dropNull Json.text?_null]

theorem lawful_codec : codec.Lawful fun _ => True where
  plain_encode f := by
    refine .object fun field hfield => ?_
    rcases List.mem_pair.1 hfield with rfl | rfl <;> exact .string _
  decode?_encode _ _ := rfl
  storable_of_decode? _ _ _ := trivial

end SourceFile

namespace ElementSet

/-- Elements as JSON. -/
def codec : Json.Codec ElementSet := ⟨toJson, ofJson?⟩

/-- The names of the fields. -/
def fieldNames : List String := ["functions", "classes", "comments", "docstrings"]

/-- The elements with the given fields. -/
def ofFields? : List (Option Json) → Option ElementSet
  | [functions, classes, comments, docstrings] => do
    let functions ← Json.required? (Json.list? Json.text?) functions
    let classes ← Json.optional? (Json.list? Json.text?) classes
    let comments ← Json.required? (Json.list? Json.text?) comments
    let docstrings ← Json.optional? (Json.list? Json.text?) docstrings
    return { functions, classes, comments, docstrings }
  | _ => none

theorem readsBy : codec.ReadsBy fieldNames ofFields? where
  nodup := by decide
  decode?_eq j := by
    show ofJson? j = _
    unfold ofJson? fieldNames
    rcases Json.record? _ j with
        _ | _ | ⟨_ | functions, _ | ⟨classes, _ | ⟨_ | comments, _ | ⟨docstrings, _ | _⟩⟩⟩⟩ <;>
      simp [ofFields?, Json.required?]
  read_dropNull vs := by
    rcases vs with _ | ⟨functions, _ | ⟨classes, _ | ⟨comments, _ | ⟨docstrings, _ | _⟩⟩⟩⟩ <;>
      simp [ofFields?, Json.required?_dropNull (Json.list?_null _),
        Json.optional?_dropNull]

theorem plain_toJson (e : ElementSet) : e.toJson.Plain := by
  refine .object fun field hfield => ?_
  simp only [List.mem_append, List.mem_singleton] at hfield
  rcases hfield with ((rfl | hclasses) | rfl) | hdocstrings
  · exact Json.plain_strings _
  · exact Json.plain_optionalField Json.plain_strings hclasses
  · exact Json.plain_strings _
  · exact Json.plain_optionalField Json.plain_strings hdocstrings

/-- The values of the fields that are written. -/
def fields (e : ElementSet) : List (Option Json) :=
  [some (.strings e.functions), e.classes.map .strings, some (.strings e.comments),
    e.docstrings.map .strings]

theorem record?_toJson (e : ElementSet) : Json.record? fieldNames e.toJson = some e.fields := by
  cases hc : e.classes <;> cases hd : e.docstrings <;>
    simp [toJson, fields, fieldNames, hc, hd, Json.optionalField, Json.record?, Json.field?,
      Json.fieldValues]

theorem ofFields?_fields (e : ElementSet) : ofFields? e.fields = some e := by
  have hoptional : ∀ o : Option (List String),
      Json.optional? (Json.list? Json.text?) (o.map .strings) = some o := fun _ =>
    Json.optional?_map Json.strings_ne_null fun ss _ => Json.list?_strings ss
  rw [fields, ofFields?, hoptional, hoptional]
  simp only [Json.required?, Option.bind_some, Json.list?_strings]
  rfl

theorem lawful_codec : codec.Lawful fun _ => True :=
  readsBy.lawful fields plain_toJson record?_toJson (fun e _ => ofFields?_fields e)
    fun _ _ _ => trivial

end ElementSet

namespace ChunkId

/-- Identities as JSON. -/
def codec : Json.Codec ChunkId := ⟨toJson, ofJson?⟩

/-- The names of the fields. -/
def fieldNames : List String := ["path", "sequence_index"]

/-- The index has 64 bits. -/
def Storable (id : ChunkId) : Prop :=
  id.index ≤ Json.maxWord64

/-- The identity with the given fields. -/
def ofFields? : List (Option Json) → Option ChunkId
  | [path, index] => do
    let path ← Json.required? Json.text? path
    let index ← Json.required? (Json.natUpTo? Json.maxWord64) index
    return { path, index }
  | _ => none

theorem readsBy : codec.ReadsBy fieldNames ofFields? where
  nodup := by decide
  decode?_eq j := by
    show ofJson? j = _
    unfold ofJson? fieldNames
    rcases Json.record? _ j with _ | _ | ⟨_ | path, _ | ⟨_ | index, _ | _⟩⟩ <;>
      simp [ofFields?, Json.required?]
  read_dropNull vs := by
    rcases vs with _ | ⟨path, _ | ⟨index, _ | _⟩⟩ <;>
      simp [ofFields?, Json.required?_dropNull Json.text?_null,
        Json.required?_dropNull (Json.natUpTo?_null _)]

theorem storable_of_ofFields? {vs : List (Option Json)} {id : ChunkId}
    (h : ofFields? vs = some id) : id.Storable := by
  unfold ofFields? at h
  split at h
  · obtain ⟨path, -, hrest⟩ := Option.bind_eq_some_iff.1 h
    obtain ⟨index, hindex, hid⟩ := Option.bind_eq_some_iff.1 hrest
    obtain ⟨v, -, hv⟩ := Option.bind_eq_some_iff.1 hindex
    cases hid
    exact Json.le_of_natUpTo? hv
  · cases h

theorem toJson_ne_null (id : ChunkId) : id.toJson ≠ .null := by
  intro h
  cases h

/-- The values of the fields that are written. -/
def fields (id : ChunkId) : List (Option Json) :=
  [some (.string id.path), some (.nat id.index)]

theorem record?_toJson (id : ChunkId) : Json.record? fieldNames id.toJson = some id.fields := by
  simp [toJson, fields, fieldNames, Json.record?, Json.field?, Json.fieldValues]

theorem plain_toJson (id : ChunkId) : id.toJson.Plain := by
  refine .object fun field hfield => ?_
  rcases List.mem_pair.1 hfield with rfl | rfl
  · exact .string _
  · exact .nat _

theorem ofFields?_fields {id : ChunkId} (h : id.Storable) : ofFields? id.fields = some id := by
  have hindex : Json.natUpTo? Json.maxWord64 (.nat id.index) = some id.index := if_pos h
  rw [fields, ofFields?]
  simp only [Json.required?, Option.bind_some, hindex]
  rfl

theorem lawful_codec : codec.Lawful Storable :=
  readsBy.lawful fields plain_toJson record?_toJson (fun _ => ofFields?_fields)
    fun _ _ => storable_of_ofFields?

end ChunkId

namespace ArtifactKind

/-- Kinds as JSON. -/
def codec : Json.Codec ArtifactKind := ⟨toJson, ofJson?⟩

theorem ofJson?_toJson (k : ArtifactKind) : ofJson? k.toJson = some k := by
  cases k <;> decide

theorem ofJson?_null : ofJson? .null = none := rfl

theorem lawful_codec : codec.Lawful fun _ => True where
  plain_encode k := .string k.label
  decode?_encode k _ := ofJson?_toJson k
  storable_of_decode? _ _ _ := trivial

end ArtifactKind

namespace Artifact

/-- Artifacts as JSON. -/
def codec : Json.Codec Artifact := ⟨toJson, ofJson?⟩

/-- The names of the fields. -/
def fieldNames : List String := ["kind", "chunk", "language", "text"]

/-- The chunk is storable, and the language is not a known one called like the sentinel. -/
structure Storable (a : Artifact) : Prop where
  chunk : ∀ id ∈ a.chunk, id.Storable
  language : ∀ l ∈ a.language, l ≠ .known Language.unknownName

/-- The artifact with the given fields. -/
def ofFields? : List (Option Json) → Option Artifact
  | [kind, chunk, language, text] => do
    let kind ← Json.required? ArtifactKind.ofJson? kind
    let chunk ← Json.optional? ChunkId.ofJson? chunk
    let language ← Json.optional? Language.ofJson? language
    let text ← Json.required? Json.text? text
    return { kind, chunk, language, text }
  | _ => none

theorem readsBy : codec.ReadsBy fieldNames ofFields? where
  nodup := by decide
  decode?_eq j := by
    show ofJson? j = _
    unfold ofJson? fieldNames
    rcases Json.record? _ j with
        _ | _ | ⟨_ | kind, _ | ⟨chunk, _ | ⟨language, _ | ⟨_ | text, _ | _⟩⟩⟩⟩ <;>
      simp [ofFields?, Json.required?]
  read_dropNull vs := by
    rcases vs with _ | ⟨kind, _ | ⟨chunk, _ | ⟨language, _ | ⟨text, _ | _⟩⟩⟩⟩ <;>
      simp [ofFields?, Json.required?_dropNull ArtifactKind.ofJson?_null,
        Json.required?_dropNull Json.text?_null, Json.optional?_dropNull]

theorem storable_of_ofFields? {vs : List (Option Json)} {a : Artifact}
    (h : ofFields? vs = some a) : a.Storable := by
  unfold ofFields? at h
  split at h
  · obtain ⟨kind, -, hrest⟩ := Option.bind_eq_some_iff.1 h
    obtain ⟨chunk, hchunk, hrest⟩ := Option.bind_eq_some_iff.1 hrest
    obtain ⟨language, hlanguage, hrest⟩ := Option.bind_eq_some_iff.1 hrest
    obtain ⟨text, -, ha⟩ := Option.bind_eq_some_iff.1 hrest
    cases ha
    exact ⟨Json.forall_of_optional? hchunk ChunkId.lawful_codec.storable_of_decode?,
      Json.forall_of_optional? hlanguage Language.lawful_codec.storable_of_decode?⟩
  · cases h

theorem plain_toJson (a : Artifact) : a.toJson.Plain := by
  refine .object fun field hfield => ?_
  simp only [List.mem_append, List.mem_singleton] at hfield
  rcases hfield with ((rfl | hchunk) | hlanguage) | rfl
  · exact .string _
  · exact Json.plain_optionalField ChunkId.lawful_codec.plain_encode hchunk
  · exact Json.plain_optionalField Language.lawful_codec.plain_encode hlanguage
  · exact .string _

/-- The values of the fields that are written. -/
def fields (a : Artifact) : List (Option Json) :=
  [some a.kind.toJson, a.chunk.map ChunkId.toJson, a.language.map Language.toJson,
    some (.string a.text)]

theorem record?_toJson (a : Artifact) : Json.record? fieldNames a.toJson = some a.fields := by
  cases hc : a.chunk <;> cases hl : a.language <;>
    simp [toJson, fields, fieldNames, hc, hl, Json.optionalField, Json.record?, Json.field?,
      Json.fieldValues]

theorem ofFields?_fields {a : Artifact} (h : a.Storable) : ofFields? a.fields = some a := by
  have hchunk : Json.optional? ChunkId.ofJson? (a.chunk.map ChunkId.toJson) = some a.chunk :=
    Json.optional?_map ChunkId.toJson_ne_null fun id hid =>
      ChunkId.lawful_codec.decode?_encode id (h.chunk id hid)
  have hlanguage : Json.optional? Language.ofJson? (a.language.map Language.toJson) =
      some a.language :=
    Json.optional?_map Language.toJson_ne_null fun l hl =>
      Language.lawful_codec.decode?_encode l (h.language l hl)
  rw [fields, ofFields?, hchunk, hlanguage]
  simp only [Json.required?, Option.bind_some, ArtifactKind.ofJson?_toJson]
  rfl

theorem lawful_codec : codec.Lawful Storable :=
  readsBy.lawful fields plain_toJson record?_toJson (fun _ => ofFields?_fields)
    fun _ _ => storable_of_ofFields?

end Artifact

namespace Failure

/-- Failures as JSON. -/
def codec : Json.Codec Failure := ⟨toJson, ofJson?⟩

/-- The names of the fields. -/
def fieldNames : List String := ["kind", "chunk", "attempts", "cause"]

/-- The chunk is storable, and the number of attempts has 32 bits. -/
structure Storable (f : Failure) : Prop where
  chunk : ∀ id ∈ f.chunk, id.Storable
  attempts : f.attempts ≤ Json.maxWord32

/-- The failure with the given fields. -/
def ofFields? : List (Option Json) → Option Failure
  | [kind, chunk, attempts, cause] => do
    let kind ← Json.required? ArtifactKind.ofJson? kind
    let chunk ← Json.optional? ChunkId.ofJson? chunk
    let attempts ← Json.required? (Json.natUpTo? Json.maxWord32) attempts
    let cause ← Json.required? Json.text? cause
    return { kind, chunk, attempts, cause }
  | _ => none

theorem readsBy : codec.ReadsBy fieldNames ofFields? where
  nodup := by decide
  decode?_eq j := by
    show ofJson? j = _
    unfold ofJson? fieldNames
    rcases Json.record? _ j with
        _ | _ | ⟨_ | kind, _ | ⟨chunk, _ | ⟨_ | attempts, _ | ⟨_ | cause, _ | _⟩⟩⟩⟩ <;>
      simp [ofFields?, Json.required?]
  read_dropNull vs := by
    rcases vs with _ | ⟨kind, _ | ⟨chunk, _ | ⟨attempts, _ | ⟨cause, _ | _⟩⟩⟩⟩ <;>
      simp [ofFields?, Json.required?_dropNull ArtifactKind.ofJson?_null,
        Json.required?_dropNull (Json.natUpTo?_null _),
        Json.required?_dropNull Json.text?_null, Json.optional?_dropNull]

theorem storable_of_ofFields? {vs : List (Option Json)} {f : Failure}
    (h : ofFields? vs = some f) : f.Storable := by
  unfold ofFields? at h
  split at h
  · obtain ⟨kind, -, hrest⟩ := Option.bind_eq_some_iff.1 h
    obtain ⟨chunk, hchunk, hrest⟩ := Option.bind_eq_some_iff.1 hrest
    obtain ⟨attempts, hattempts, hrest⟩ := Option.bind_eq_some_iff.1 hrest
    obtain ⟨cause, -, hf⟩ := Option.bind_eq_some_iff.1 hrest
    obtain ⟨v, -, hv⟩ := Option.bind_eq_some_iff.1 hattempts
    cases hf
    exact ⟨Json.forall_of_optional? hchunk ChunkId.lawful_codec.storable_of_decode?,
      Json.le_of_natUpTo? hv⟩
  · cases h

theorem plain_toJson (f : Failure) : f.toJson.Plain := by
  refine .object fun field hfield => ?_
  simp only [List.mem_append, List.mem_singleton, List.mem_pair] at hfield
  rcases hfield with (rfl | hchunk) | rfl | rfl
  · exact .string _
  · exact Json.plain_optionalField ChunkId.lawful_codec.plain_encode hchunk
  · exact .nat _
  · exact .string _

/-- The values of the fields that are written. -/
def fields (f : Failure) : List (Option Json) :=
  [some f.kind.toJson, f.chunk.map ChunkId.toJson, some (.nat f.attempts), some (.string f.cause)]

theorem record?_toJson (f : Failure) : Json.record? fieldNames f.toJson = some f.fields := by
  cases hc : f.chunk <;>
    simp [toJson, fields, fieldNames, hc, Json.optionalField, Json.record?, Json.field?,
      Json.fieldValues]

theorem ofFields?_fields {f : Failure} (h : f.Storable) : ofFields? f.fields = some f := by
  have hchunk : Json.optional? ChunkId.ofJson? (f.chunk.map ChunkId.toJson) = some f.chunk :=
    Json.optional?_map ChunkId.toJson_ne_null fun id hid =>
      ChunkId.lawful_codec.decode?_encode id (h.chunk id hid)
  have hattempts : Json.natUpTo? Json.maxWord32 (.nat f.attempts) = some f.attempts :=
    if_pos h.attempts
  rw [fields, ofFields?, hchunk]
  simp only [Json.required?, Option.bind_some, ArtifactKind.ofJson?_toJson, hattempts]
  rfl

theorem lawful_codec : codec.Lawful Storable :=
  readsBy.lawful fields plain_toJson record?_toJson (fun _ => ofFields?_fields)
    fun _ _ => storable_of_ofFields?

end Failure

namespace FileMetadata

/-- Metadata as JSON. -/
def codec : Json.Codec FileMetadata := ⟨toJson, ofJson?⟩

/-- The names of the fields. -/
def fieldNames : List String := ["size", "last_modified"]

/-- An instant that is given by its text. -/
def instant? (j : Json) : Option Instant :=
  j.text?.bind Instant.parse?

theorem instant?_null : instant? .null = none := rfl

/-- The metadata with the given fields. -/
def ofFields? : List (Option Json) → Option FileMetadata
  | [size, lastModified] => do
    let size ← Json.required? (Json.natUpTo? Json.maxWord64) size
    let lastModified ← Json.required? instant? lastModified
    return { size, lastModified }
  | _ => none

theorem readsBy : codec.ReadsBy fieldNames ofFields? where
  nodup := by decide
  decode?_eq j := by
    show ofJson? j = _
    unfold ofJson? fieldNames
    rcases Json.record? _ j with _ | _ | ⟨_ | size, _ | ⟨_ | lastModified, _ | _⟩⟩ <;>
      simp [ofFields?, Json.required?, instant?]
  read_dropNull vs := by
    rcases vs with _ | ⟨size, _ | ⟨lastModified, _ | _⟩⟩ <;>
      simp [ofFields?, Json.required?_dropNull (Json.natUpTo?_null _),
        Json.required?_dropNull instant?_null]

theorem storable_of_ofFields? {vs : List (Option Json)} {m : FileMetadata}
    (h : ofFields? vs = some m) : m.Storable := by
  unfold ofFields? at h
  split at h
  · obtain ⟨size, hsize, hrest⟩ := Option.bind_eq_some_iff.1 h
    obtain ⟨lastModified, hmodified, hm⟩ := Option.bind_eq_some_iff.1 hrest
    obtain ⟨v, -, hv⟩ := Option.bind_eq_some_iff.1 hsize
    obtain ⟨j, -, hj⟩ := Option.bind_eq_some_iff.1 hmodified
    obtain ⟨text, -, htext⟩ := Option.bind_eq_some_iff.1 hj
    cases hm
    exact ⟨Json.le_of_natUpTo? hv, Instant.isRegular_of_parse? htext⟩
  · cases h

theorem lawful_codec : codec.Lawful Storable where
  plain_encode := plain_toJson
  decode?_encode _ := ofJson?_toJson
  storable_of_decode? := readsBy.forall_of_decode? fun _ _ => storable_of_ofFields?

end FileMetadata

/-! ## All of them -/

end SourceDocs
