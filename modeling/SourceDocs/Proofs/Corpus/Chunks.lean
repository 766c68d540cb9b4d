import Mathlib
import SourceDocs.Proofs.Chunk
import SourceDocs.Proofs.Corpus.Grouping

set_option autoImplicit false

/-! # Chunks of a corpus: nothing is lost, altered or doubled

A corpus gives the chunks of one file after the other. So where the paths of the files differ, the
chunks of a file stand together and make up its content (`holds_of_mem`), no two chunks have one
identity (`nodup_id_chunks`), and the chunks are in the order of the files (`chunks_pairwise`). -/

namespace SourceDocs

namespace Corpus

variable {languageOf : SourceFile → Language} {files : List SourceFile} {size : Nat}

/-- A file is in a list of chunks: its chunks stand together, bear its label, are numbered from zero
and make up its content. -/
def Holds (chunks : List Chunk) (language : Language) (f : SourceFile) : Prop :=
  ∃ before pieces after, chunks = before ++ pieces ++ after ∧
    (∀ c ∈ before ++ after, c.path ≠ f.path) ∧
    (∀ c ∈ pieces, c.path = f.path ∧ c.language = language) ∧
    pieces.map Chunk.index = List.range pieces.length ∧
    String.join (pieces.map Chunk.content) = f.content

/-- Which of two chunks comes first: that of the first label, and within a label that of the first
path. -/
def ChunkBefore (paths : List String) (c d : Chunk) : Prop :=
  c.language.Precedes d.language ∨ c.language = d.language ∧ [c.path, d.path].Sublist paths

/-! ## The chunks of one file -/

/-- The chunks of a labelled file. -/
def fileChunks (size : Nat) (a : Language × SourceFile) : List Chunk :=
  (ChunkPlan.ofFile a.2 a.1 size).chunks

theorem chunks_eq (c : Corpus) (size : Nat) :
    c.chunks size = c.labelled.flatMap (fileChunks size) := rfl

theorem path_of_mem_fileChunks {a : Language × SourceFile} {c : Chunk}
    (h : c ∈ fileChunks size a) : c.path = a.2.path ∧ c.language = a.1 :=
  ChunkPlan.path_of_mem_chunks h

theorem length_fileChunks (hsize : 1 ≤ size) (a : Language × SourceFile) :
    (fileChunks size a).length = a.2.content.length ⌈/⌉ size := by
  have hplan : (ChunkPlan.ofFile a.2 a.1 size).size = size := if_neg (Nat.ne_of_gt hsize)
  rw [fileChunks, ChunkPlan.length_chunks, hplan]
  rfl

/-- No two chunks of a file have one number. -/
theorem nodup_index_fileChunks (size : Nat) (a : Language × SourceFile) :
    ((fileChunks size a).map Chunk.index).Nodup := by
  rw [fileChunks, ChunkPlan.map_index_chunks]
  exact List.nodup_range

/-! ## The chunks of all files -/

theorem exists_of_mem_chunks {c : Chunk} (h : c ∈ (organizeBy languageOf files).chunks size) :
    ∃ f ∈ files, c.path = f.path ∧ c.language = languageOf f := by
  rw [chunks_eq] at h
  obtain ⟨a, ha, hc⟩ := List.mem_flatMap.1 h
  obtain ⟨f, hf, rfl⟩ := List.mem_map.1 (labelled_perm.mem_iff.1 ha)
  exact ⟨f, hf, path_of_mem_fileChunks hc⟩

theorem nodup_path_labelled (languageOf : SourceFile → Language)
    (hpaths : (files.map SourceFile.path).Nodup) :
    ((organizeBy languageOf files).labelled.map fun a => a.2.path).Nodup := by
  refine (labelled_perm.map _).nodup_iff.2 ?_
  rw [List.map_map]
  exact hpaths

theorem holds_of_mem (hpaths : (files.map SourceFile.path).Nodup) {f : SourceFile}
    (hf : f ∈ files) : Holds ((organizeBy languageOf files).chunks size) (languageOf f) f := by
  have hmem : (languageOf f, f) ∈ (organizeBy languageOf files).labelled :=
    labelled_perm.mem_iff.2 (List.mem_map_of_mem hf)
  obtain ⟨before, after, hsplit⟩ := List.append_of_mem hmem
  refine ⟨before.flatMap (fileChunks size), fileChunks size (languageOf f, f),
    after.flatMap (fileChunks size), ?_, ?_, ?_, ?_, ?_⟩
  · rw [chunks_eq, hsplit, List.flatMap_append, List.flatMap_cons, List.append_assoc]
  · intro c hc hpath
    rw [← List.flatMap_append] at hc
    obtain ⟨a, ha, hca⟩ := List.mem_flatMap.1 hc
    have hnodup := nodup_path_labelled languageOf hpaths
    rw [hsplit, List.map_append, List.map_cons, List.nodup_middle, List.nodup_cons,
      ← List.map_append] at hnodup
    refine hnodup.1 (List.mem_map.2 ⟨a, ha, ?_⟩)
    rw [← (path_of_mem_fileChunks hca).1, hpath]
  · exact fun c hc => path_of_mem_fileChunks hc
  · exact ChunkPlan.map_index_chunks _
  · exact ChunkPlan.join_content_chunks _

theorem nodup_id_chunks (hpaths : (files.map SourceFile.path).Nodup) :
    (((organizeBy languageOf files).chunks size).map Chunk.id).Nodup := by
  rw [chunks_eq, List.map_flatMap, List.nodup_flatMap]
  refine ⟨fun a _ => ?_, ?_⟩
  · refine List.Nodup.of_map ChunkId.index ?_
    rw [List.map_map]
    exact nodup_index_fileChunks size a
  · -- chunks of two files differ in their paths
    refine (List.pairwise_map.1 (nodup_path_labelled _ hpaths)).imp fun {a b} hne id hida hidb => ?_
    obtain ⟨c, hc, rfl⟩ := List.mem_map.1 hida
    obtain ⟨d, hd, hid⟩ := List.mem_map.1 hidb
    have hpath : d.path = c.path := congrArg ChunkId.path hid
    rw [(path_of_mem_fileChunks hc).1, (path_of_mem_fileChunks hd).1] at hpath
    exact hne hpath.symm

theorem length_chunks (hsize : 1 ≤ size) :
    ((organizeBy languageOf files).chunks size).length =
      (files.map fun f => f.content.length ⌈/⌉ size).sum := by
  rw [chunks_eq, List.length_flatMap, (labelled_perm.map _).sum_nat, List.map_map]
  exact congrArg List.sum (List.map_congr_left fun f _ => length_fileChunks hsize _)

theorem chunks_pairwise :
    ((organizeBy languageOf files).chunks size).Pairwise fun c d =>
      c.path = d.path ∨ ChunkBefore (files.map SourceFile.path) c d := by
  rw [chunks_eq, List.pairwise_flatMap]
  refine ⟨fun a _ => ?_, labelled_pairwise.imp fun {a b} hbefore c hc d hd => Or.inr ?_⟩
  · refine List.pairwise_of_forall_mem_list fun c hc d hd => Or.inl ?_
    rw [(path_of_mem_fileChunks hc).1, (path_of_mem_fileChunks hd).1]
  · obtain ⟨hcpath, hclang⟩ := path_of_mem_fileChunks hc
    obtain ⟨hdpath, hdlang⟩ := path_of_mem_fileChunks hd
    rw [ChunkBefore, hclang, hdlang, hcpath, hdpath]
    exact hbefore.imp_right (And.imp_right fun h => h.map SourceFile.path)

/-- What the chunks of files are: each file is there, nothing else is, no chunk is there twice,
there are as many as the files' characters need, and they are in order. -/
structure AreChunksOf (languageOf : SourceFile → Language) (files : List SourceFile) (size : Nat)
    (chunks : List Chunk) : Prop where
  holds : ∀ f ∈ files, Holds chunks (languageOf f) f
  path_mem : ∀ c ∈ chunks, c.path ∈ files.map SourceFile.path
  nodup_id : (chunks.map Chunk.id).Nodup
  length_eq : chunks.length = (files.map fun f => f.content.length ⌈/⌉ size).sum
  pairwise : chunks.Pairwise fun c d =>
    c.path = d.path ∨ ChunkBefore (files.map SourceFile.path) c d

/-- **From files to chunks nothing is lost, altered or doubled.** -/
theorem areChunksOf_organizeBy (languageOf : SourceFile → Language) (files : List SourceFile)
    (size : Nat) (hpaths : (files.map SourceFile.path).Nodup) (hsize : 1 ≤ size) :
    AreChunksOf languageOf files size ((organizeBy languageOf files).chunks size) where
  holds _ hf := holds_of_mem hpaths hf
  path_mem c hc := by
    obtain ⟨f, hf, hpath, -⟩ := exists_of_mem_chunks hc
    exact List.mem_map.2 ⟨f, hf, hpath.symm⟩
  nodup_id := nodup_id_chunks hpaths
  length_eq := length_chunks hsize
  pairwise := chunks_pairwise

/-- Files of two languages and of none, one of them empty. -/
def mixedFiles : List SourceFile :=
  [⟨"notes", "é→𝄞"⟩, ⟨"src/lib.rs", "fn f() {}"⟩, ⟨"empty.py", ""⟩, ⟨"src/main.rs", "fn main() {}"⟩]

theorem mixedFiles_areChunksOf :
    (mixedFiles.map SourceFile.path).Nodup ∧ 1 ≤ 4 ∧
    AreChunksOf (fun f => Language.detect f.path f.content) mixedFiles 4
      ((organize mixedFiles).chunks 4) :=
  ⟨by decide, by decide, areChunksOf_organizeBy _ mixedFiles 4 (by decide) (by decide)⟩

end Corpus

end SourceDocs
