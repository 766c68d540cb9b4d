import Mathlib.Data.List.Basic
import SourceDocs.Proofs.Context
import SourceDocs.Proofs.Scan.Structure

set_option autoImplicit false

/-! # Scans for metadata and structure: they know every source file

All three scans come to the same places of a tree (`visitsIn`). The metadata is that of the files
among them (`metadataIn_eq`), and the structure has them as files (`at?_directoryTree`). So a file
that is kept has an entry in both (`kept_covered`), and a prompt about it never has to do
without. -/

namespace SourceDocs

namespace Scan

open WalkTree (WellNamed Reaches NamesNonempty)

variable {c : Classifier} {tree : WalkTree} {v : Visit} {above names : List String}

/-! ## Metadata -/

/-- The metadata that a scan finds at a place. -/
def Visit.metadata? (v : Visit) : Option (String × FileMetadata) :=
  match v.node with
  | .file content modified => some (v.path, { size := content.size, lastModified := modified })
  | _ => none

theorem metadataIn_eq_flatMap :
    metadataIn c names tree =
      tree.flatMap fun e => metadataAt c (names ++ [e.1.shown]) e.1 e.2 := by
  induction tree with
  | nil => rw [metadataIn, List.flatMap_nil]
  | cons e rest ih =>
    obtain ⟨name, node⟩ := e
    rw [metadataIn, ih, List.flatMap_cons]

theorem metadataIn_eq (c : Classifier) (above : List String) (tree : WalkTree) :
    metadataIn c above tree = (visitsIn c above tree).filterMap Visit.metadata? := by
  induction tree using WalkTree.induction generalizing above with
  | step tree ih =>
    rw [metadataIn_eq_flatMap, visitsIn_eq_flatMap, List.filterMap_flatMap]
    refine List.flatMap_congr fun e he => ?_
    obtain ⟨name, node⟩ := e
    cases node with
    | file content modified =>
      simp [metadataAt, visitsAt, Visit.metadata?, Visit.path, Visit.names]
    | directory entries =>
      by_cases hex : excludes c name
      · simp [metadataAt, visitsAt, Visit.metadata?, hex]
      · simp [metadataAt, visitsAt, Visit.metadata?, List.filterMap_cons, hex, ih name entries he]
    | other => simp [metadataAt, visitsAt, Visit.metadata?]
    | broken => simp [metadataAt, visitsAt, Visit.metadata?]

theorem fst_of_metadata? {e : String × FileMetadata} (h : v.metadata? = some e) :
    e.1 = v.path := by
  unfold Visit.metadata? at h
  split at h
  · cases h
    rfl
  · cases h

theorem nodup_keys_metadataIn (hnames : WellNamed tree) :
    ((metadataIn c [] tree).map Prod.fst).Nodup := by
  rw [metadataIn_eq]
  exact (map_filterMap_sublist fun _ _ => fst_of_metadata?).nodup (nodup_path_visits hnames)

/-- A file that a scan comes to has metadata. -/
theorem get?_metadata (hnames : WellNamed tree) {name : String} {content : ByteArray}
    {modified : Instant} (hreach : Reaches tree above name (.file content modified))
    (habove : ∀ n ∈ above, c.excludesDirectory n = false) :
    (metadata c tree).get? (pathOf (above ++ [name])) =
      some { size := content.size, lastModified := modified } := by
  refine SortedMap.get?_ofList_of_nodup (nodup_keys_metadataIn hnames) ?_
  rw [metadataIn_eq]
  refine List.mem_filterMap.2 ⟨⟨above, .text name, .file content modified⟩, ?_, rfl⟩
  exact (mem_visitsIn_iff hnames).2 ⟨name, rfl, hreach, habove⟩

/-! ## What is known about a file -/

/-- What stores tell about a file: its size, and a directory in which it is a file. Every prompt
about a chunk of it shows both. -/
structure Covers (stores : ContextStores) (f : SourceFile) (m : FileMetadata)
    (d : DirectoryTree) : Prop where
  metadata : stores.metadata.get? f.path = some m
  size : m.size = f.content.utf8ByteSize
  entry : findEntry? (Path.afterLastSlash f.path) d.entries = some .file
  context : ∀ chunk : Chunk, chunk.path = f.path →
    stores.contextOf chunk = { metadata := some m, directory := some d }
  shown : ∀ chunk : Chunk, chunk.path = f.path →
    (stores.contextOf chunk).metadataText ≠ ChunkContext.absent ∧
    (stores.contextOf chunk).directoryText ≠ ChunkContext.absent

theorem pathOf_lastSlash {name : String} (hslash : ∀ n ∈ above ++ [name], '/' ∉ n.toList)
    (hempty : ∀ n ∈ above ++ [name], n ≠ "") :
    Path.properSegments (Path.upToLastSlash (pathOf (above ++ [name]))) = above ∧
    Path.afterLastSlash (pathOf (above ++ [name])) = name := by
  have hsegments := segments_pathOf (by simp) hslash
  have hname : Path.afterLastSlash (pathOf (above ++ [name])) = name := by
    have hlast := Path.getLast?_segments (pathOf (above ++ [name]))
    rw [hsegments, List.getLast?_concat, Option.some.injEq] at hlast
    exact hlast.symm
  have hproper := Path.properSegments_eq (pathOf (above ++ [name]))
  have hne : name ≠ "" := hempty name (by simp)
  rw [properSegments_pathOf hslash hempty, hname] at hproper
  simp only [hne, ne_eq, not_false_eq_true, decide_true, List.filter_cons_of_pos,
    List.filter_nil] at hproper
  exact ⟨(List.append_cancel_right hproper).symm, hname⟩

theorem kept_covered (hnames : WellNamed tree) (hempty : tree.NamesNonempty) {f : SourceFile}
    (hf : f ∈ (ingest c tree).1) :
    ∃ m d, Covers { metadata := metadata c tree, tree := directoryTree c tree } f m d := by
  obtain ⟨above, name, content, modified, hreach, hpath, hcheck, hdecode, -⟩ :=
    (mem_files hnames).1 hf
  have hslash := hreach.slash_notMem hnames
  -- the other scans leave directories out by their names alone; none of these has such a name
  have habove : ∀ n ∈ above, c.excludesDirectory n = false := fun n hn =>
    excludesDirectory_of_checkPath? (by simp) hslash (hpath ▸ hcheck) n
      (List.mem_append_left _ hn)
  obtain ⟨hdirectory, hfile⟩ := at?_directoryTree hnames hreach (fun h => nomatch h)
    (fun _ h => nomatch h) habove
  obtain ⟨hsegments, hlast⟩ := pathOf_lastSlash hslash (hreach.ne_empty hempty)
  rw [← hpath] at hsegments hlast
  have hmetadata := get?_metadata hnames hreach habove
  rw [← hpath] at hmetadata
  obtain ⟨d, hlookup, hentries⟩ := DirectoryTree.exists_lookup? hsegments hdirectory
  have hentry : findEntry? (Path.afterLastSlash f.path) d.entries = some .file := by
    rw [hlast, hentries, hfile]
  have hcontext : ∀ chunk : Chunk, chunk.path = f.path →
      ContextStores.contextOf { metadata := metadata c tree, tree := directoryTree c tree } chunk =
        { metadata := some { size := content.size, lastModified := modified }
          directory := some d } := by
    intro chunk hchunk
    rw [ContextStores.contextOf, hchunk, hmetadata, hlookup]
  refine ⟨_, d, hmetadata, ?_, hentry, hcontext, fun chunk hchunk => ?_⟩
  · rw [← toUTF8_of_decode? hdecode]
    rfl
  · have hne : d.entries ≠ [] := by
      intro hnil
      rw [hnil] at hentry
      cases hentry
    rw [hcontext chunk hchunk]
    exact ⟨ChunkContext.metadataText_ne_absent rfl, ChunkContext.directoryText_ne_absent rfl hne⟩

end Scan

namespace LocalSource

variable {m : Type → Type} [Monad m] [LawfulMonad m]

/-- **The three readings of a directory agree**: each is made of the tree that the host finds there
without following links, and the stores of the metadata and the structure tell about every source
file. Repositories are always read so. -/
theorem readings_agree (host : Host m) (c : Classifier) (root : String) :
    (∀ g : GitSource, g.ingest host c = do
      g.prepare host
      ingest host c g.stagingDir false) ∧
    (ingest host c root false).run = (do
      match ← host.walk root false with
      | none => pure (.error (.noDirectory .source root))
      | some tree => pure (.ok
        { files := (Scan.ingest c tree).1, skipped := (Scan.ingest c tree).2
          localRoot := some root })) ∧
    (metadata host c root).run = (do
      match ← host.walk root false with
      | none => pure (.error (.noDirectory .metadata root))
      | some tree => pure (.ok (Scan.metadata c tree))) ∧
    (directoryTree host c root).run = (do
      match ← host.walk root false with
      | none => pure (.error (.noDirectory .tree root))
      | some tree => pure (.ok (Scan.directoryTree c tree))) ∧
    ∀ tree, WalkTree.WellNamed tree → tree.NamesNonempty → ∀ f ∈ (Scan.ingest c tree).1,
      ∃ metadata d, Scan.Covers
        { metadata := Scan.metadata c tree, tree := Scan.directoryTree c tree } f metadata d := by
  refine ⟨fun _ => rfl, ?_, ?_, ?_, ?_⟩
  · exact run_tree host .source root false fun tree => Ingestion.mk
      (Scan.ingest c tree).1 (Scan.ingest c tree).2 (some root)
  · exact run_tree host .metadata root false (Scan.metadata c)
  · exact run_tree host .tree root false (Scan.directoryTree c)
  · exact fun tree hnames hempty f hf => Scan.kept_covered hnames hempty hf

theorem readings_agree_nestedTree :
    WalkTree.WellNamed nestedTree ∧ nestedTree.NamesNonempty ∧
    ⟨"lib/util.rs", "const N: u8 = 1;"⟩ ∈ (Scan.ingest plainRules nestedTree).1 ∧
    ∃ metadata d, Scan.Covers
      { metadata := Scan.metadata plainRules nestedTree
        tree := Scan.directoryTree plainRules nestedTree }
      ⟨"lib/util.rs", "const N: u8 = 1;"⟩ metadata d := by
  have hreach : WalkTree.Reaches nestedTree ["lib"] "util.rs"
      (.file "const N: u8 = 1;".toUTF8 .epoch) :=
    .inside (List.mem_cons_of_mem _ List.mem_cons_self)
      (.here (List.mem_cons_of_mem _ List.mem_cons_self))
  have hkept : ⟨"lib/util.rs", "const N: u8 = 1;"⟩ ∈ (Scan.ingest plainRules nestedTree).1 :=
    (Scan.mem_files nestedTree_wellNamed).2 ⟨_, _, _, _, hreach, rfl, by decide +kernel,
      by decide, by decide⟩
  obtain ⟨-, -, -, -, hagree⟩ := readings_agree MemoryHost.host plainRules "project"
  exact ⟨nestedTree_wellNamed, nestedTree_namesNonempty, hkept,
    hagree nestedTree nestedTree_wellNamed nestedTree_namesNonempty _ hkept⟩

end LocalSource

end SourceDocs
