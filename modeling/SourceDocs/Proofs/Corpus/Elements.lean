import SourceDocs.Proofs.Corpus.Snapshot

set_option autoImplicit false

/-! # Elements: which files have some

Whether a file has elements is decided by its language alone. So the files without are those of some
groups, taken as a whole (`unsupported_eq`, `names_unsupported`), and each of the others is found in
the map of elements, provided that no two files have one path (`get?_elements_iff`). -/

namespace SourceDocs

/-- The language has an extractor. -/
def Language.IsSupported (l : Language) : Prop :=
  (Extractor.for? l).isSome = true

instance : DecidablePred Language.IsSupported :=
  fun l => inferInstanceAs (Decidable ((Extractor.for? l).isSome = true))

theorem extractElements?_eq_none_iff {l : Language} {content : String} :
    extractElements? l content = none ↔ ¬ l.IsSupported := by
  unfold extractElements? Language.IsSupported
  cases Extractor.for? l <;> simp

namespace Corpus

variable {c : Corpus}

/-! ## Where corpora come from -/

/-- The corpora that are made from files, or read from a snapshot. -/
def Obtained (c : Corpus) : Prop :=
  (∃ files, c = organize files) ∨ ∃ text, ofSnapshot? text = some c

theorem Obtained.unambiguous (h : c.Obtained) : c.Unambiguous := by
  rcases h with ⟨files, rfl⟩ | ⟨text, htext⟩
  · exact unambiguous_organizeBy fun f => Language.detect_ne f.path f.content
  · exact unambiguous_of_ofSnapshot? htext

/-- No two languages are called alike. -/
theorem Unambiguous.nodup_names (h : c.Unambiguous) :
    (c.groups.entries.map fun g => g.1.name).Nodup := by
  have hlabels : (c.groups.entries.map Prod.fst).Nodup := c.groups.nodup_keys
  refine List.Nodup.map_on (fun g hg g' hg' hname => ?_) hlabels.of_map
  have hlabel : g.1 = g'.1 := by
    rw [← Language.ofName_name (h g hg), hname, Language.ofName_name (h g' hg')]
  exact List.inj_on_of_nodup_map hlabels hg hg' hlabel

/-! ## Files without elements -/

/-- The groups of languages without an extractor. -/
def unsupportedGroups (c : Corpus) : List (Language × List SourceFile) :=
  c.groups.entries.filter fun g => ¬ g.1.IsSupported

theorem mem_unsupportedGroups {g : Language × List SourceFile} :
    g ∈ c.unsupportedGroups ↔ g ∈ c.groups.entries ∧ ¬ g.1.IsSupported := by
  simp [unsupportedGroups]

/-- The files without elements are those whose language has no extractor. -/
theorem unsupported_eq (c : Corpus) :
    c.unsupported = (c.labelled.filter fun x => ¬ x.1.IsSupported).map fun x => (x.2.path, x.1) := by
  unfold unsupported
  induction c.labelled with
  | nil => rfl
  | cons x rest ih =>
    obtain ⟨l, f⟩ := x
    by_cases hl : l.IsSupported
    · obtain ⟨e, he⟩ : ∃ e, extractElements? l f.content = some e :=
        Option.ne_none_iff_exists'.1 fun hnone => extractElements?_eq_none_iff.1 hnone hl
      simp [he, hl, ih]
    · simp [extractElements?_eq_none_iff.2 hl, hl, ih]

/-- The names of their languages are those of whole groups. -/
theorem names_unsupported (c : Corpus) :
    (c.unsupported.map fun u => u.2.name) =
      c.unsupportedGroups.flatMap fun g => List.replicate g.2.length g.1.name := by
  rw [unsupported_eq, List.map_map, labelled, unsupportedGroups]
  induction c.groups.entries with
  | nil => rfl
  | cons g rest ih =>
    obtain ⟨l, files⟩ := g
    rw [List.flatMap_cons, List.filter_append, List.map_append, ih]
    by_cases hl : l.IsSupported
    · simp [hl]
    · have hall : (files.map fun f => (l, f)).filter (fun x => ¬ x.1.IsSupported) =
          files.map fun f => (l, f) := by
        simp [List.filter_eq_self, hl]
      rw [hall, List.filter_cons_of_pos (by simpa using hl), List.flatMap_cons, List.map_map,
        ← List.map_const']
      rfl

/-! ## Files with elements -/

/-- The elements of the files that have some, with their paths. -/
def elementEntries (files : List (Language × SourceFile)) : List (String × ElementSet) :=
  files.filterMap fun x => (extractElements? x.1 x.2.content).map fun e => (x.2.path, e)

theorem mem_elementEntries {files : List (Language × SourceFile)} {path : String} {e : ElementSet} :
    (path, e) ∈ elementEntries files ↔
      ∃ x ∈ files, x.2.path = path ∧ extractElements? x.1 x.2.content = some e := by
  simp [elementEntries, and_comm]

theorem keys_elementEntries_sublist (files : List (Language × SourceFile)) :
    ((elementEntries files).map Prod.fst).Sublist (files.map fun x => x.2.path) := by
  induction files with
  | nil => exact List.Sublist.refl _
  | cons x rest ih =>
    unfold elementEntries
    cases hx : extractElements? x.1 x.2.content with
    | none =>
      rw [List.filterMap_cons_none (by rw [hx]; rfl)]
      exact ih.cons _
    | some e =>
      rw [List.filterMap_cons_some (by rw [hx]; rfl)]
      exact ih.cons_cons _

/-- A file either has elements or is among those without. -/
theorem length_elementEntries (files : List (Language × SourceFile)) :
    (elementEntries files).length + (files.filter fun x => ¬ x.1.IsSupported).length =
      files.length := by
  induction files with
  | nil => rfl
  | cons x rest ih =>
    unfold elementEntries at ih ⊢
    cases hx : extractElements? x.1 x.2.content with
    | none =>
      rw [List.filterMap_cons_none (by rw [hx]; rfl),
        List.filter_cons_of_pos (by simpa using extractElements?_eq_none_iff.1 hx),
        List.length_cons, List.length_cons, ← ih, Nat.add_assoc]
    | some e =>
      have hsupported : x.1.IsSupported := by
        by_contra h
        rw [extractElements?_eq_none_iff.2 h] at hx
        cases hx
      rw [List.filterMap_cons_some (by rw [hx]; rfl),
        List.filter_cons_of_neg (by simpa using hsupported), List.length_cons, List.length_cons,
        ← ih]
      omega

section Distinct

variable (h : (c.labelled.map fun x => x.2.path).Nodup)
include h

/-- Where no two files have one path, the elements found under a path are those of the file
there. -/
theorem get?_elements_iff {path : String} {e : ElementSet} :
    c.elements.get? path = some e ↔
      ∃ x ∈ c.labelled, x.2.path = path ∧ extractElements? x.1 x.2.content = some e := by
  have hkeys := h.sublist (keys_elementEntries_sublist c.labelled)
  rw [← mem_elementEntries]
  constructor
  · intro hfound
    exact SortedMap.mem_of_mem_ofList (SortedMap.mem_entries_iff.2 hfound)
  · exact SortedMap.get?_ofList_of_nodup hkeys

theorem size_elements : c.elements.size + c.unsupported.length = c.labelled.length := by
  have hkeys := h.sublist (keys_elementEntries_sublist c.labelled)
  have hsize : c.elements.size = (elementEntries c.labelled).length :=
    (SortedMap.entries_ofList_perm hkeys).length_eq
  rw [hsize, unsupported_eq, List.length_map, length_elementEntries]

end Distinct

end Corpus

end SourceDocs
