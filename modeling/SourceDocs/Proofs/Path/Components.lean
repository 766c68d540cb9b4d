import SourceDocs.Classifier
import SourceDocs.Proofs.Path

set_option autoImplicit false

/-! # Paths: components and their texts

The first segment of a path says whether it is absolute, and each later one stands for a component
or for nothing (`components_eq`). A component is read back from its text, so that the texts joined
by slashes have the same components again (`components_toSlash`). The root is a text with a slash in
it; all others are segments, and those of a relative path are all the segments that the joined texts
have (`segments_toSlash`). So a classifier, which looks at segments and at the last component,
decides about the joined texts by the components alone. -/

namespace SourceDocs.Path

open Component (ofSegment?)

variable {path first s : String} {rest : List String} {k : Component}

/-! ## Components of segments -/

theorem Component.text_of_ofSegment? (h : ofSegment? s = some k) : k.text = s := by
  unfold ofSegment? at h
  split at h
  · cases h
  · split at h
    · rename_i hup
      cases h
      exact hup.symm
    · cases h
      rfl

/-- Only two texts stand for no component. -/
theorem Component.ofSegment?_eq_none : ofSegment? s = none ↔ s = "" ∨ s = "." := by
  unfold ofSegment?
  split
  · rename_i h
    simpa using h
  · rename_i h
    split <;> simpa using h

/-- Components are read back from their texts. -/
theorem filterMap_ofSegment?_texts (ss : List String) :
    ((ss.filterMap ofSegment?).map Component.text).filterMap ofSegment? =
      ss.filterMap ofSegment? := by
  induction ss with
  | nil => rfl
  | cons s ss ih =>
    cases hs : ofSegment? s with
    | none => rw [List.filterMap_cons_none hs, ih]
    | some k =>
      rw [List.filterMap_cons_some hs, List.map_cons, Component.text_of_ofSegment? hs,
        List.filterMap_cons_some hs, ih]

/-- The component that the first segment of a path stands for, if it stands for one. -/
def leading (first : String) : List Component :=
  if first = "" then [.root] else if first = "." then [.here] else (ofSegment? first).toList

theorem components_eq (hne : path ≠ "") (h : segments path = first :: rest) :
    components path = leading first ++ rest.filterMap ofSegment? := by
  unfold components
  rw [h]
  split
  · rename_i hnil
    cases hnil
  · rename_i hsingle
    have hpath := intercalate_segments path
    rw [h, hsingle] at hpath
    exact absurd hpath.symm hne
  · rename_i hcons
    cases hcons
    rfl

theorem leading_of_ofSegment? (h : ofSegment? first = some k) : leading first = [k] := by
  have hsome : ¬(first = "" ∨ first = ".") := fun hnone => by
    rw [Component.ofSegment?_eq_none.2 hnone] at h
    cases h
  rw [not_or] at hsome
  rw [leading, if_neg hsome.1, if_neg hsome.2, h]
  rfl

/-- A first segment that is not empty is the text of a component. -/
theorem exists_leading (h : first ≠ "") : ∃ k, leading first = [k] ∧ k.text = first := by
  by_cases hhere : first = "."
  · exact ⟨.here, by rw [leading, if_neg h, if_pos hhere], hhere.symm⟩
  · obtain ⟨k, hk⟩ := Option.ne_none_iff_exists'.1 fun hnone =>
      (Component.ofSegment?_eq_none.1 hnone).elim h hhere
    exact ⟨k, leading_of_ofSegment? hk, Component.text_of_ofSegment? hk⟩

/-- A last segment that stands for a component stands for the last one. -/
theorem getLast?_components (hlast : (segments path).getLast? = some s)
    (hk : ofSegment? s = some k) : (components path).getLast? = some k := by
  have hne : path ≠ "" := by
    rintro rfl
    cases hlast
    cases hk
  obtain ⟨first, rest, h⟩ := exists_segments path
  rw [components_eq hne h]
  rw [h] at hlast
  cases rest with
  | nil =>
    obtain rfl : first = s := Option.some.inj hlast
    rw [leading_of_ofSegment? hk]
    rfl
  | cons next rest =>
    rw [List.getLast?_cons_cons] at hlast
    obtain ⟨before, hbefore⟩ := List.getLast?_eq_some_iff.1 hlast
    rw [hbefore, List.filterMap_append, List.filterMap_cons_some hk, List.filterMap_nil,
      ← List.append_assoc, List.getLast?_concat]

/-! ## Texts of components -/

/-- The texts of later components are segments. -/
theorem slash_notMem_texts (h : segments path = first :: rest) :
    ∀ t ∈ (rest.filterMap ofSegment?).map Component.text, '/' ∉ t.toList := by
  intro t ht
  obtain ⟨k, hk, rfl⟩ := List.mem_map.1 ht
  obtain ⟨s, hs, hsk⟩ := List.mem_filterMap.1 hk
  rw [Component.text_of_ofSegment? hsk]
  exact slash_notMem_of_mem_segments (h ▸ List.mem_cons_of_mem first hs)

/-- Only the empty path and absolute ones begin with an empty segment. -/
theorem first_ne_empty (h : segments path = first :: rest) (hne : path ≠ "")
    (hrelative : path.toList.head? ≠ some '/') : first ≠ "" := by
  rintro rfl
  have hpath := intercalate_segments path
  rw [h] at hpath
  cases rest with
  | nil => exact hne hpath.symm
  | cons next rest =>
    apply hrelative
    rw [← hpath, String.intercalate_cons_cons]
    simp

/-- The texts of a relative path are its first segment and those of what is below. -/
theorem texts_of_relative (hne : path ≠ "") (h : segments path = first :: rest) (hfirst : first ≠ "") :
    (components path).map Component.text =
      first :: (rest.filterMap ofSegment?).map Component.text := by
  obtain ⟨k, hk, rfl⟩ := exists_leading hfirst
  rw [components_eq hne h, hk]
  rfl

/-- The joined texts of a relative path have no other segments than these. -/
theorem segments_toSlash (hne : path ≠ "") (h : segments path = first :: rest)
    (hfirst : first ≠ "") :
    segments (toSlash path) = first :: (rest.filterMap ofSegment?).map Component.text := by
  rw [toSlash, texts_of_relative hne h hfirst]
  refine segments_intercalate (List.cons_ne_nil _ _) (List.forall_mem_cons.2 ⟨?_, ?_⟩)
  · exact slash_notMem_of_mem_segments (h ▸ List.mem_cons_self)
  · exact slash_notMem_texts h

/-- The root is written as a slash and set apart by another. -/
theorem segments_toSlash_of_absolute (hne : path ≠ "") (h : segments path = "" :: rest) :
    segments (toSlash path) =
      "" :: "" :: (rest.filterMap ofSegment?).map Component.text := by
  have hslash := slash_notMem_texts h
  have htexts : (components path).map Component.text =
      "/" :: (rest.filterMap ofSegment?).map Component.text := by
    rw [components_eq hne h]
    rfl
  rw [toSlash, htexts]
  cases hbelow : (rest.filterMap ofSegment?).map Component.text with
  | nil => rfl
  | cons next below =>
    rw [hbelow] at hslash
    have hroot : "/".intercalate ("/" :: next :: below) =
        "/".intercalate ("" :: "" :: next :: below) := by
      simp only [String.intercalate_cons_cons]
      rfl
    rw [hroot]
    refine segments_intercalate (List.cons_ne_nil _ _) ?_
    simpa [List.forall_mem_cons] using hslash

/-- The joined texts of components have the same components. -/
theorem components_toSlash (path : String) : components (toSlash path) = components path := by
  by_cases hne : path = ""
  · rw [hne]
    rfl
  obtain ⟨first, rest, h⟩ := exists_segments path
  by_cases hfirst : first = ""
  · subst hfirst
    have hsegments := segments_toSlash_of_absolute hne h
    have hsome : toSlash path ≠ "" := by
      intro hempty
      rw [hempty] at hsegments
      cases hsegments
    rw [components_eq hsome hsegments, List.filterMap_cons_none rfl, filterMap_ofSegment?_texts,
      components_eq hne h]
  · have hsegments := segments_toSlash hne h hfirst
    have hsome : toSlash path ≠ "" := by
      intro hempty
      rw [hempty] at hsegments
      exact hfirst (List.cons.inj hsegments).1.symm
    rw [components_eq hsome hsegments, filterMap_ofSegment?_texts, components_eq hne h]

theorem toSlash_toSlash (path : String) : toSlash (toSlash path) = toSlash path := by
  rw [toSlash, components_toSlash, toSlash]

/-- No component of a relative path has an empty text. -/
theorem text_ne_empty (hne : path ≠ "") (h : segments path = first :: rest) (hfirst : first ≠ "") :
    ∀ t ∈ (components path).map Component.text, t ≠ "" := by
  rw [texts_of_relative hne h hfirst]
  refine List.forall_mem_cons.2 ⟨hfirst, ?_⟩
  intro t ht hempty
  obtain ⟨k, hk, rfl⟩ := List.mem_map.1 ht
  obtain ⟨s, -, hs⟩ := List.mem_filterMap.1 hk
  rw [← Component.text_of_ofSegment? hs, hempty] at hs
  cases hs

/-! ## Last components -/

/-- The extension of a path is that of its last component. -/
theorem extension?_congr {p q : String}
    (h : (components p).getLast? = (components q).getLast?) : extension? p = extension? q := by
  rw [extension?, extension?, fileName?, fileName?, h]

end SourceDocs.Path

namespace SourceDocs.Classifier

open SourceDocs.Path

variable {c : Classifier} {path : String}

/-! ## Verdicts -/

theorem checkPath?_eq_excludedExtension :
    c.checkPath? path = some .excludedExtension ↔ c.excludesExtension path = true := by
  unfold checkPath?
  split
  · rename_i hext
    simp [hext]
  · rename_i hext
    simp only [hext]
    split
    · simp
    · split <;> simp

theorem checkPath?_eq_excludedDirectory :
    c.checkPath? path = some .excludedDirectory ↔
      c.excludesExtension path = false ∧ ∃ s ∈ segments path, c.excludesDirectory s = true := by
  rw [← List.any_eq_true]
  unfold checkPath?
  split
  · rename_i hext
    simp [hext]
  · rename_i hext
    simp only [hext, true_and]
    split
    · rename_i hany
      simp [hany]
    · rename_i hany
      simp only [hany]
      split <;> simp

/-- Paths whose last components are alike are alike to the rules about extensions. -/
theorem excludesExtension_congr {p q : String}
    (h : (components p).getLast? = (components q).getLast?) :
    c.excludesExtension p = c.excludesExtension q := by
  rw [excludesExtension, excludesExtension, extension?_congr h]

end SourceDocs.Classifier

namespace SourceDocs.Path

/-- **Joined texts keep the components** of every path, so that joining them again changes nothing.
    For a relative path they have no empty segment, and their segments are the components: it is
    these that a directory tree is built from and that a classifier compares with excluded
    directories. -/
theorem toSlash_keeps_components (path : String) :
    components (toSlash path) = components path ∧ toSlash (toSlash path) = toSlash path ∧
      (path ≠ "" → path.toList.head? ≠ some '/' →
        "" ∉ segments (toSlash path) ∧
          segments (toSlash path) = (components path).map Component.text ∧
          properSegments (toSlash path) = (components path).map Component.text ∧
          ∀ c : Classifier, c.checkPath? (toSlash path) = some .excludedDirectory ↔
            c.excludesExtension path = false ∧
              ∃ k ∈ components path, c.excludesDirectory k.text = true) := by
  refine ⟨components_toSlash path, toSlash_toSlash path, fun hne hrelative => ?_⟩
  obtain ⟨first, rest, h⟩ := exists_segments path
  have hfirst := first_ne_empty h hne hrelative
  have htexts := text_ne_empty hne h hfirst
  have hsegments : segments (toSlash path) = (components path).map Component.text := by
    rw [segments_toSlash hne h hfirst, texts_of_relative hne h hfirst]
  refine ⟨?_, hsegments, ?_, fun c => ?_⟩
  · rw [hsegments]
    exact fun hempty => htexts "" hempty rfl
  · rw [properSegments, hsegments]
    exact List.filter_eq_self.2 fun t ht => decide_eq_true (htexts t ht)
  · rw [Classifier.checkPath?_eq_excludedDirectory, hsegments,
      Classifier.excludesExtension_congr (congrArg List.getLast? (components_toSlash path))]
    simp only [List.mem_map, exists_exists_and_eq_and]

/-- A relative path with all that is left out, and an absolute one. -/
theorem toSlash_keeps_components_dotted :
    components (toSlash "//a/./b/") = [.root, .name "a", .name "b"] ∧
      toSlash "./a//b/./../c/" = "./a/b/../c" ∧
      segments (toSlash "./a//b/./../c/") =
        (components "./a//b/./../c/").map Component.text ∧
      "" ∉ segments (toSlash "./a//b/./../c/") := by
  have hkeeps := (toSlash_keeps_components "./a//b/./../c/").2.2 (by decide) (by decide)
  refine ⟨?_, by decide +kernel, hkeeps.2.1, hkeeps.1⟩
  rw [(toSlash_keeps_components "//a/./b/").1]
  decide +kernel

end SourceDocs.Path
