import Mathlib.Data.List.Induction
import SourceDocs.Corpus
import SourceDocs.Proofs.SortedMap
import SourceDocs.Proofs.Text.ByteOrder

set_option autoImplicit false

/-! # Grouping: a corpus is a stable partition of its files

The group of a language is the sublist of the files of that language (`files_organizeBy`). So all
groups together are the files again (`labelled_perm`), in label order and, within a language, in the
order in which they came (`labelled_pairwise`). The laws are inductions over the files from the last
one on, from what `push` does. -/

namespace SourceDocs

namespace Corpus

variable {c : Corpus} {l l' : Language} {f : SourceFile} {group : List SourceFile}
  {languageOf : SourceFile → Language} {files : List SourceFile}

/-! ## One more file -/

theorem files_push :
    (c.push l f).files l' = if l' = l then c.files l' ++ [f] else c.files l' := by
  unfold Corpus.files push SortedMap.upsert SortedMap.get?
  split
  · rename_i h
    subst h
    rw [findEntry?_upsertEntry_self _ c.groups.ascending, Option.getD_some]
  · rename_i h
    rw [findEntry?_upsertEntry_of_ne _ h]

/-- A group is what is listed under its language. -/
theorem files_of_mem_entries (h : (l, group) ∈ c.groups.entries) : c.files l = group := by
  rw [Corpus.files, SortedMap.get?, (findEntry?_eq_some_iff c.groups.ascending).2 h,
    Option.getD_some]

theorem fileCount_eq (c : Corpus) : c.fileCount = c.labelled.length := by
  rw [fileCount, SortedMap.total_eq_sum, labelled, List.length_flatMap]
  simp only [List.length_map]

/-- All groups together are all files. -/
theorem flatMap_snd_entries (c : Corpus) :
    c.groups.entries.flatMap Prod.snd = c.labelled.map Prod.snd := by
  rw [labelled, List.map_flatMap]
  refine List.flatMap_congr fun g _ => ?_
  rw [List.map_map]
  exact (List.map_id _).symm

theorem labelled_push_perm : (c.push l f).labelled.Perm ((l, f) :: c.labelled) := by
  suffices h : ∀ entries : List (Language × List SourceFile),
      ((upsertEntry l (fun files => files.getD [] ++ [f]) entries).flatMap
        fun g => g.2.map fun f => (g.1, f)).Perm
      ((l, f) :: entries.flatMap fun g => g.2.map fun f => (g.1, f)) from h _
  intro entries
  induction entries with
  | nil => exact List.Perm.refl _
  | cons e rest ih =>
    obtain ⟨k, group⟩ := e
    rw [upsertEntry]
    split
    · exact List.Perm.refl _
    · rename_i heq
      obtain rfl := Std.LawfulEqCmp.eq_of_compare heq
      simp only [List.flatMap_cons, Option.getD_some, List.map_append, List.map_cons, List.map_nil,
        List.append_assoc]
      exact List.perm_middle
    · simp only [List.flatMap_cons]
      exact (ih.append_left _).trans List.perm_middle

theorem ne_nil_of_mem_entries_push (hne : ∀ e ∈ c.groups.entries, e.2 ≠ []) :
    ∀ e ∈ (c.push l f).groups.entries, e.2 ≠ [] := by
  rintro ⟨k, group⟩ he
  rw [← files_of_mem_entries he, files_push]
  split
  · exact List.append_ne_nil_of_right_ne_nil _ (List.cons_ne_nil _ _)
  · rename_i hkl
    rcases mem_keys_upsertEntry _ _ _ _ he with hk | hmem
    · exact absurd hk hkl
    · rw [files_of_mem_entries hmem]
      exact hne _ hmem

/-! ## All files -/

theorem organizeBy_concat :
    organizeBy languageOf (files ++ [f]) = (organizeBy languageOf files).push (languageOf f) f := by
  rw [organizeBy, List.foldl_concat, organizeBy]

/-- The files of a language are those of the input, in its order. -/
theorem files_organizeBy :
    (organizeBy languageOf files).files l = files.filter fun f => languageOf f = l := by
  induction files using List.reverseRecOn with
  | nil => rfl
  | append_singleton files f ih =>
    rw [organizeBy_concat, files_push, ih, List.filter_append]
    by_cases h : languageOf f = l
    · rw [if_pos h.symm, List.filter_cons_of_pos (by simpa using h), List.filter_nil]
    · rw [if_neg (Ne.symm h), List.filter_cons_of_neg (by simpa using h), List.filter_nil,
        List.append_nil]

/-- No group is empty. -/
theorem ne_nil_of_mem_entries :
    ∀ e ∈ (organizeBy languageOf files).groups.entries, e.2 ≠ [] := by
  induction files using List.reverseRecOn with
  | nil => intro e he; cases he
  | append_singleton files f ih =>
    rw [organizeBy_concat]
    exact ne_nil_of_mem_entries_push ih

/-- No file is lost or doubled. -/
theorem labelled_perm :
    (organizeBy languageOf files).labelled.Perm (files.map fun f => (languageOf f, f)) := by
  induction files using List.reverseRecOn with
  | nil => exact List.Perm.refl _
  | append_singleton files f ih =>
    rw [organizeBy_concat, List.map_append]
    exact labelled_push_perm.trans ((ih.cons _).trans (List.perm_append_singleton _ _).symm)

/-! ## The order of the files -/

/-- Which of two files of a corpus comes first: that of the first language, and within a language
the one that came first. -/
def Before (files : List SourceFile) (a b : Language × SourceFile) : Prop :=
  a.1.Precedes b.1 ∨ a.1 = b.1 ∧ [a.2, b.2].Sublist files

theorem labelled_pairwise :
    (organizeBy languageOf files).labelled.Pairwise (Before files) := by
  unfold labelled
  refine List.pairwise_flatMap.2 ⟨?_, ?_⟩
  · -- a group is a sublist of the files, and so are two of its members
    rintro ⟨l, group⟩ hmem
    have hgroup : group.Sublist files := by
      rw [← files_of_mem_entries hmem, files_organizeBy]
      exact List.filter_sublist
    refine List.pairwise_map.2 (List.pairwise_iff_forall_sublist.2 fun hpair => ?_)
    exact Or.inr ⟨rfl, hpair.trans hgroup⟩
  · -- the languages of the groups ascend
    refine (organizeBy languageOf files).groups.ascending.imp ?_
    rintro ⟨l, group⟩ ⟨l', group'⟩ hlt a ha b hb
    obtain ⟨f, -, rfl⟩ := List.mem_map.1 ha
    obtain ⟨g, -, rfl⟩ := List.mem_map.1 hb
    exact Or.inl (Language.compare_eq_lt_iff.1 hlt)

end Corpus

end SourceDocs
