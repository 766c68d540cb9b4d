import SourceDocs.Context
import SourceDocs.Proofs.DirectoryTree
import SourceDocs.Proofs.ObjectStore.Listing
import SourceDocs.Proofs.Path

set_option autoImplicit false

/-! # Listings as context: every object has metadata and a directory

A tree of keys is built from their proper segments, and the directory of a key is looked up by what
stands above its last slash. Both come to the same place (`Path.properSegments_eq`). So wherever
slashes lead or are doubled, the directory of a listed object is found and the object is in it
(`stores_cover`). -/

namespace SourceDocs

namespace StoredObject

open TreeEntry (Holds HoldsDirectory)

variable {objects : List StoredObject} {o : StoredObject} {key : String}

/-- What a listing tells the prompts. -/
def stores (objects : List StoredObject) : ContextStores :=
  { metadata := metadata objects, tree := directoryTree objects }

/-- An object is the last one with its key. -/
def IsLast (objects : List StoredObject) (o : StoredObject) : Prop :=
  ∃ before after, objects = before ++ o :: after ∧ ∀ x ∈ after, x.key ≠ o.key

/-- Some key has the segments of a key and more behind them. -/
def IsExtended (objects : List StoredObject) (key : String) : Prop :=
  ∃ o ∈ objects, ∃ more, more ≠ [] ∧
    Path.properSegments o.key = Path.properSegments key ++ more

/-! ## Metadata -/

theorem exists_isLast (h : key ∈ objects.map StoredObject.key) :
    ∃ last, IsLast objects last ∧ last.key = key := by
  induction objects with
  | nil => simp at h
  | cons first rest ih =>
    by_cases hlater : key ∈ rest.map StoredObject.key
    · obtain ⟨last, ⟨before, after, rfl, hafter⟩, hlast⟩ := ih hlater
      exact ⟨last, ⟨first :: before, after, rfl, hafter⟩, hlast⟩
    · rcases List.mem_cons.1 h with hfirst | hrest
      · refine ⟨first, ⟨[], rest, rfl, ?_⟩, hfirst.symm⟩
        intro x hx heq
        exact hlater (List.mem_map.2 ⟨x, hx, heq.trans hfirst.symm⟩)
      · exact absurd hrest hlater

theorem get?_metadata (h : IsLast objects o) :
    (metadata objects).get? o.key =
      some { size := o.size, lastModified := o.lastModified } := by
  obtain ⟨before, after, rfl, hafter⟩ := h
  rw [metadata, List.map_append, List.map_cons]
  refine SortedMap.get?_ofList_of_last fun e he => ?_
  obtain ⟨x, hx, rfl⟩ := List.mem_map.1 he
  exact hafter x hx

/-! ## Directories -/

/-- The proper segments of a key are those of its directory and the name in it. -/
theorem properSegments_key (h : o.isPlaceholder = false) :
    Path.properSegments o.key =
      Path.properSegments (Path.upToLastSlash o.key) ++ [Path.afterLastSlash o.key] := by
  obtain ⟨hne, hlast⟩ := isPlaceholder_eq_false.1 h
  have hname := Path.afterLastSlash_ne_empty hne hlast
  rw [Path.properSegments_eq, List.filter_singleton]
  simp [hname]

theorem directory_extended_iff {names : List String} (hnames : names ≠ [])
    (heq : names = Path.properSegments key) :
    HoldsDirectory (directoryTree objects).root names ↔ IsExtended objects key := by
  rw [directoryTree, DirectoryTree.holdsDirectory_ofPaths, IsExtended]
  constructor
  · rintro (hnil | ⟨path, hpath, ⟨more, hmore⟩, hne⟩)
    · exact absurd hnil hnames
    · obtain ⟨o, ho, rfl⟩ := List.mem_map.1 hpath
      refine ⟨o, ho, more, ?_, by rw [← hmore, heq]⟩
      rintro rfl
      exact hne (by rw [← hmore, List.append_nil])
  · rintro ⟨o, ho, more, hne, hmore⟩
    refine Or.inr ⟨o.key, List.mem_map_of_mem ho, ⟨more, by rw [hmore, heq]⟩, ?_⟩
    intro hsame
    apply hne
    rw [hmore, ← heq] at hsame
    simpa using hsame

/-- The directory of an object is there and has an entry for the object. -/
theorem exists_directory (ho : o ∈ objects) (hkey : o.isPlaceholder = false) :
    ∃ d e, (directoryTree objects).lookup? (Path.upToLastSlash o.key) = some d ∧
      findEntry? (Path.afterLastSlash o.key) d.entries = some e ∧
      (e = .file ↔ ¬IsExtended objects o.key) := by
  have hsegments := properSegments_key hkey
  have hmem : o.key ∈ objects.map StoredObject.key := List.mem_map_of_mem ho
  -- the tree knows the key by its segments, the lookup starts from the text above its last slash
  have hdirectory : HoldsDirectory (directoryTree objects).root
      (Path.properSegments (Path.upToLastSlash o.key)) := by
    rw [directoryTree, DirectoryTree.holdsDirectory_ofPaths]
    refine Or.inr ⟨o.key, hmem, ?_⟩
    rw [hsegments]
    exact ⟨List.prefix_append _ _, by simp⟩
  have hholds : Holds (directoryTree objects).root
      (Path.properSegments (Path.upToLastSlash o.key) ++ [Path.afterLastSlash o.key]) := by
    rw [directoryTree, DirectoryTree.holds_ofPaths, ← hsegments]
    exact Or.inr ⟨o.key, hmem, List.prefix_refl _⟩
  obtain ⟨d, hd, hentries⟩ := DirectoryTree.exists_lookup? rfl hdirectory
  obtain ⟨e, he, -⟩ := hholds
  refine ⟨d, e, hd, (hentries _).trans he, ?_⟩
  rw [← directory_extended_iff (by simp) hsegments.symm]
  cases e with
  | file =>
    simp [TreeEntry.HoldsDirectory, TreeEntry.Leads, he, TreeEntry.IsDirectory]
  | directory entries =>
    simp [TreeEntry.HoldsDirectory, TreeEntry.Leads, he, TreeEntry.IsDirectory]

/-- **Every chunk of a listed object has the metadata of the last object with its key and a
directory with an entry for the object**, which is a file unless some key goes on below it. -/
theorem stores_cover (objects : List StoredObject) (o : StoredObject) (ho : o ∈ objects)
    (hkey : o.isPlaceholder = false) (chunk : Chunk) (hpath : chunk.path = o.key) :
    ∃ last d e, IsLast objects last ∧ last.key = o.key ∧
      (stores objects).contextOf chunk =
        { metadata := some { size := last.size, lastModified := last.lastModified }
          directory := some d } ∧
      findEntry? (Path.afterLastSlash o.key) d.entries = some e ∧
      (e = .file ↔ ¬IsExtended objects o.key) := by
  obtain ⟨last, hlast, hsame⟩ := exists_isLast (List.mem_map_of_mem ho)
  obtain ⟨d, e, hd, he, hfile⟩ := exists_directory ho hkey
  refine ⟨last, d, e, hlast, hsame, ?_, he, hfile⟩
  rw [ContextStores.contextOf, stores, hpath, hd, ← hsame, get?_metadata hlast]

/-- A key that comes twice, with slashes in front and doubled, and a key that goes on below it. -/
def slashedKeys : List StoredObject :=
  [⟨"/a//b", 1, .epoch⟩, ⟨"a/b/c", 2, .epoch⟩, ⟨"/a//b", 3, .epoch⟩]

theorem slashedKeys_covered :
    ⟨"/a//b", 1, .epoch⟩ ∈ slashedKeys ∧ isPlaceholder ⟨"/a//b", 1, .epoch⟩ = false ∧
    IsExtended slashedKeys "/a//b" ∧
    ∃ d e, (stores slashedKeys).contextOf ⟨"/a//b", .unknown, "x", 0⟩ =
        { metadata := some { size := 3, lastModified := .epoch }, directory := some d } ∧
      findEntry? "b" d.entries = some e ∧ e ≠ .file := by
  have hmem : ⟨"/a//b", 1, .epoch⟩ ∈ slashedKeys := List.mem_cons_self
  have hextended : IsExtended slashedKeys "/a//b" :=
    ⟨⟨"a/b/c", 2, .epoch⟩, by simp [slashedKeys], ["c"], by decide, by decide⟩
  have hsize : ((stores slashedKeys).contextOf ⟨"/a//b", .unknown, "x", 0⟩).metadata =
      some { size := 3, lastModified := .epoch } := by decide
  obtain ⟨last, d, e, -, -, hcontext, he, hfile⟩ :=
    stores_cover slashedKeys ⟨"/a//b", 1, .epoch⟩ hmem (by decide) ⟨"/a//b", .unknown, "x", 0⟩ rfl
  rw [hcontext] at hsize
  refine ⟨hmem, by decide, hextended, d, e, ?_, he, fun h => hfile.1 h hextended⟩
  rw [hcontext]
  exact congrArg (ChunkContext.mk · (some d)) hsize

end StoredObject

end SourceDocs
