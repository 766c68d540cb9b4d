import SourceDocs.Proofs.DirectoryTree

set_option autoImplicit false

/-! # Trees of paths: nothing but the paths, in whatever order

A tree that is made of paths has a directory wherever some path goes on, an entry wherever some path
leads, and nothing else. A name that one path ends with and another goes through is a directory, so
neither the order of the paths nor their repetition shows (`ofPaths_exact`). -/

namespace SourceDocs

namespace DirectoryTree

open TreeEntry (Leads Holds HoldsDirectory IsDirectory)

variable {paths paths' : List String} {names : List String} {d name : String}

/-- The proper segments of one of the paths, unless it has none. -/
def IsPathOf (paths : List String) (segments : List String) : Prop :=
  segments ≠ [] ∧ ∃ path ∈ paths, Path.properSegments path = segments

/-- Some path leads to names or through them. -/
def Reached (paths : List String) (names : List String) : Prop :=
  ∃ segments, IsPathOf paths segments ∧ names <+: segments

/-- Some path leads through names and goes on. -/
def Passed (paths : List String) (names : List String) : Prop :=
  ∃ segments, IsPathOf paths segments ∧ names <+: segments ∧ names ≠ segments

/-! ## What names lead to -/

theorem holds_iff_reached (hnames : names ≠ []) :
    Holds (ofPaths paths).root names ↔ Reached paths names := by
  rw [holds_ofPaths]
  constructor
  · rintro (hnil | ⟨path, hpath, hle⟩)
    · exact absurd hnil hnames
    · refine ⟨_, ⟨?_, path, hpath, rfl⟩, hle⟩
      intro hnil
      rw [hnil, List.prefix_nil] at hle
      exact hnames hle
  · rintro ⟨_, ⟨-, path, hpath, rfl⟩, hle⟩
    exact Or.inr ⟨path, hpath, hle⟩

theorem holdsDirectory_iff_passed :
    HoldsDirectory (ofPaths paths).root names ↔ names = [] ∨ Passed paths names := by
  rw [holdsDirectory_ofPaths]
  refine or_congr Iff.rfl ⟨?_, ?_⟩
  · rintro ⟨path, hpath, hle, hne⟩
    refine ⟨_, ⟨?_, path, hpath, rfl⟩, hle, hne⟩
    intro hnil
    rw [hnil, List.prefix_nil] at hle
    exact hne (hle.trans hnil.symm)
  · rintro ⟨_, ⟨-, path, hpath, rfl⟩, hle, hne⟩
    exact ⟨path, hpath, hle, hne⟩

/-- Paths with the same segments make the same tree. -/
theorem ofPaths_eq (hsame : ∀ segments, IsPathOf paths segments ↔ IsPathOf paths' segments) :
    ofPaths paths = ofPaths paths' := by
  have hreached : ∀ names, Reached paths names ↔ Reached paths' names := fun names =>
    exists_congr fun segments => and_congr_left' (hsame segments)
  have hpassed : ∀ names, Passed paths names ↔ Passed paths' names := fun names =>
    exists_congr fun segments => and_congr_left' (hsame segments)
  refine eq_of_leads (ordered_ofPaths paths) (ordered_ofPaths paths') (fun names => ?_)
    fun names => ?_
  · by_cases hnames : names = []
    · simp [holds_ofPaths, hnames]
    · rw [holds_iff_reached hnames, holds_iff_reached hnames, hreached]
  · rw [holdsDirectory_iff_passed, holdsDirectory_iff_passed, hpassed]

/-! ## What is looked up -/

theorem lookup?_iff : (∃ node, (ofPaths paths).lookup? d = some node) ↔
    Path.properSegments d = [] ∨ Passed paths (Path.properSegments d) := by
  rw [← holdsDirectory_iff_passed]
  constructor
  · rintro ⟨node, hnode⟩
    exact ⟨node.root, descend?_eq_some.1 hnode, node.entries, rfl⟩
  · intro hdirectory
    obtain ⟨node, hnode, -⟩ := exists_lookup? rfl hdirectory
    exact ⟨node, hnode⟩

/-- What stands under a name of a directory: something if a path leads there. -/
theorem entry_iff {node : DirectoryTree} (hnode : (ofPaths paths).lookup? d = some node) :
    (∃ e, findEntry? name node.entries = some e) ↔
      Reached paths (Path.properSegments d ++ [name]) := by
  rw [← holds_iff_reached (by simp), findEntry?_of_lookup? rfl hnode]
  simp [Leads]

/-- It is a directory if a path goes on there. -/
theorem entry_directory_iff {node : DirectoryTree} {e : TreeEntry}
    (hnode : (ofPaths paths).lookup? d = some node)
    (hentry : findEntry? name node.entries = some e) :
    IsDirectory e ↔ Passed paths (Path.properSegments d ++ [name]) := by
  have hdirectory : HoldsDirectory (ofPaths paths).root (Path.properSegments d ++ [name]) ↔
      Passed paths (Path.properSegments d ++ [name]) := by
    rw [holdsDirectory_iff_passed, or_iff_right (by simp)]
  rw [← hdirectory, HoldsDirectory, Leads, ← findEntry?_of_lookup? rfl hnode, hentry]
  simp

/-- **A tree of paths is exact.** A directory is found where some path goes on; a name in it stands
for something if some path leads to it, for a directory if some path goes on there and for a file
otherwise. Paths with the same proper segments make the same tree, in whatever order and however
often they come. -/
theorem ofPaths_exact (paths : List String) :
    (∀ d, (∃ node, (ofPaths paths).lookup? d = some node) ↔
      Path.properSegments d = [] ∨ Passed paths (Path.properSegments d)) ∧
    (∀ d node name, (ofPaths paths).lookup? d = some node →
      ((∃ e, findEntry? name node.entries = some e) ↔
        Reached paths (Path.properSegments d ++ [name])) ∧
      ∀ e, findEntry? name node.entries = some e →
        (IsDirectory e ↔ Passed paths (Path.properSegments d ++ [name])) ∧
        (e = .file ↔ ¬Passed paths (Path.properSegments d ++ [name]))) ∧
    ∀ paths', (∀ segments, IsPathOf paths segments ↔ IsPathOf paths' segments) →
      ofPaths paths = ofPaths paths' := by
  refine ⟨fun d => lookup?_iff, fun d node name hnode => ⟨entry_iff hnode, fun e hentry => ?_⟩,
    fun paths' hsame => ofPaths_eq hsame⟩
  have hdirectory := entry_directory_iff hnode hentry
  exact ⟨hdirectory, TreeEntry.eq_file_iff.trans (not_congr hdirectory)⟩

/-- A path through a file makes it a directory, before it or after it. -/
example : (ofPaths ["a", "a/b", "c/"]).entries = [("a", .directory [("b", .file)]), ("c", .file)] ∧
    (ofPaths ["/a//b", "c", "a"]).entries = (ofPaths ["a", "a/b", "c/"]).entries :=
  ⟨by rfl, by rfl⟩

end DirectoryTree

end SourceDocs
