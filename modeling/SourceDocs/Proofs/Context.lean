import SourceDocs.Context

set_option autoImplicit false

/-! # Context: what a prompt shows

What is present is not shown as what stands for an absent part. -/

namespace SourceDocs

/-- An object with a field is not written as one without fields. -/
theorem Json.indentedText_object_ne (field : String × Json) (rest : List (String × Json)) :
    (Json.object (field :: rest)).indentedText ≠ ChunkContext.absent := by
  intro h
  have hchars := congrArg String.toList h
  rw [Json.indentedText, String.toList_ofList, Json.write] at hchars
  -- an object with a field goes on with a new line
  have hsecond := congrArg (List.head? ∘ List.tail) hchars
  simp [Json.Layout.break, ChunkContext.absent] at hsecond

namespace ChunkContext

variable {context : ChunkContext}

theorem metadataText_ne_absent {m : FileMetadata} (h : context.metadata = some m) :
    context.metadataText ≠ absent := by
  rw [metadataText, h]
  exact Json.indentedText_object_ne _ _

theorem directoryText_ne_absent {d : DirectoryTree} (h : context.directory = some d)
    (hne : d.entries ≠ []) : context.directoryText ≠ absent := by
  obtain ⟨⟨name, e⟩, rest, hentries⟩ := List.exists_cons_of_ne_nil hne
  simp only [directoryText, h, DirectoryTree.text, DirectoryTree.toJson, hentries, TreeEntry.toJson,
    TreeEntry.fieldsOf]
  exact Json.indentedText_object_ne _ _

end ChunkContext

end SourceDocs
