import SourceDocs.Proofs.Corpus.Grouping

set_option autoImplicit false

/-! # The groups of a corpus: a stable partition

A corpus is told by its groups: there is one for each label that some file has, and it holds just
the files with this label in the order in which they came (`isPartition_organizeBy`). That goes for
any files, equal ones too, and for any way to tell their labels. -/

namespace SourceDocs

namespace Corpus

variable {l : Language} {group : List SourceFile} {languageOf : SourceFile → Language}
  {files : List SourceFile}

/-- The groups of a corpus partition files by their labels and keep their order. -/
structure IsPartition (languageOf : SourceFile → Language) (files : List SourceFile)
    (c : Corpus) : Prop where
  /-- Names in the order of their bytes, then the sentinel. -/
  ascending : c.groups.entries.Pairwise fun g g' => g.1.Precedes g'.1
  /-- What is listed under a label is found under it, and is not empty. -/
  files_of_mem : ∀ g ∈ c.groups.entries, c.files g.1 = g.2 ∧ g.2 ≠ []
  /-- A label that no file has has no group, and nothing is found under it. -/
  files_eq : ∀ l, c.files l = files.filter fun f => languageOf f = l
  perm : (c.groups.entries.flatMap Prod.snd).Perm files
  fileCount_eq : c.fileCount = files.length
  languageCount_eq : c.languageCount = (files.map languageOf).dedup.length
  isEmpty_iff : c.isEmpty = true ↔ files = []

theorem groups_perm : ((organizeBy languageOf files).groups.entries.flatMap Prod.snd).Perm files := by
  have hperm : ((organizeBy languageOf files).labelled.map Prod.snd).Perm
      ((files.map fun f => (languageOf f, f)).map Prod.snd) := labelled_perm.map Prod.snd
  rw [List.map_map] at hperm
  rw [flatMap_snd_entries]
  exact hperm.trans (.of_eq (List.map_id files))

/-- There is a group for each label that some file has. -/
theorem mem_languages_iff :
    l ∈ (organizeBy languageOf files).groups.entries.map Prod.fst ↔ l ∈ files.map languageOf := by
  constructor
  · intro hl
    obtain ⟨⟨l, group⟩, hmem, rfl⟩ := List.mem_map.1 hl
    obtain ⟨f, hf⟩ := List.exists_mem_of_ne_nil _ (ne_nil_of_mem_entries _ hmem)
    rw [← files_of_mem_entries hmem, files_organizeBy, List.mem_filter, decide_eq_true_eq] at hf
    exact List.mem_map.2 ⟨f, hf⟩
  · intro hl
    obtain ⟨f, hf, rfl⟩ := List.mem_map.1 hl
    have hlabelled : (languageOf f, f) ∈ (organizeBy languageOf files).labelled :=
      labelled_perm.mem_iff.2 (List.mem_map_of_mem hf)
    obtain ⟨g, hg, hmem⟩ := List.mem_flatMap.1 hlabelled
    obtain ⟨f', -, heq⟩ := List.mem_map.1 hmem
    exact List.mem_map.2 ⟨g, hg, congrArg Prod.fst heq⟩

theorem languageCount_organizeBy :
    (organizeBy languageOf files).languageCount = (files.map languageOf).dedup.length := by
  have hperm : ((organizeBy languageOf files).groups.entries.map Prod.fst).Perm
      (files.map languageOf).dedup := by
    refine (List.perm_ext_iff_of_nodup (SortedMap.nodup_keys _) (List.nodup_dedup _)).2 fun l => ?_
    rw [mem_languages_iff, List.mem_dedup]
  rw [languageCount, SortedMap.size, ← hperm.length_eq, List.length_map]

theorem isEmpty_organizeBy : (organizeBy languageOf files).isEmpty = true ↔ files = [] := by
  rw [isEmpty, List.isEmpty_iff]
  constructor
  · intro hnil
    have hperm : ((organizeBy languageOf files).groups.entries.flatMap Prod.snd).Perm files :=
      groups_perm
    rw [hnil] at hperm
    exact hperm.symm.eq_nil
  · rintro rfl
    rfl

/-- **Grouping is a stable partition.** -/
theorem isPartition_organizeBy (languageOf : SourceFile → Language) (files : List SourceFile) :
    IsPartition languageOf files (organizeBy languageOf files) where
  ascending := (organizeBy languageOf files).groups.ascending.imp Language.compare_eq_lt_iff.1
  files_of_mem g hg := ⟨files_of_mem_entries hg, ne_nil_of_mem_entries g hg⟩
  files_eq _ := files_organizeBy
  perm := groups_perm
  fileCount_eq := by
    rw [Corpus.fileCount_eq, labelled_perm.length_eq, List.length_map]
  languageCount_eq := languageCount_organizeBy
  isEmpty_iff := isEmpty_organizeBy

end Corpus

end SourceDocs
