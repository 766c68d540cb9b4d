import SourceDocs.Proofs.Json.RoundTrip
import SourceDocs.Proofs.Scan.Structure

set_option autoImplicit false

/-! # Saved structures and what is read of them

Every tree whose names ascend is what its JSON stands for (`TreeEntry.ofJson?_toJson`). A text that
nests deeper than `Json.maxNesting` is refused, though, and writing one is not: a tree with a
directory below 127 others is saved and is not read back (`DirectoryTree.parse?_text`). -/

namespace SourceDocs

namespace TreeEntry

variable {e : TreeEntry} {entries before : List (String × TreeEntry)}

/-! ## From a tree to JSON and back -/

theorem fieldsOf_eq (entries : List (String × TreeEntry)) :
    fieldsOf entries = entries.map fun e => (e.1, e.2.toJson) := by
  induction entries with
  | nil => rw [fieldsOf, List.map_nil]
  | cons e rest ih =>
    obtain ⟨name, e⟩ := e
    rw [fieldsOf, ih, List.map_cons]

theorem plain_toJson (h : Ordered e) : e.toJson.Plain := by
  induction h with
  | file =>
    rw [toJson]
    exact .null
  | directory hasc hbelow ih =>
    rw [toJson, fieldsOf_eq]
    refine .object fun f hf => ?_
    obtain ⟨⟨name, e⟩, he, rfl⟩ := List.mem_map.1 hf
    exact ih name e he

/-- Entries are read on top of entries with smaller names. -/
theorem ofFields?_fieldsOf (hread : ∀ name e, (name, e) ∈ entries → ofJson? e.toJson = some e)
    (hasc : Ascending (before ++ entries)) :
    ofFields? before (fieldsOf entries) = some (before ++ entries) := by
  induction entries generalizing before with
  | nil => rw [fieldsOf, ofFields?, List.append_nil]
  | cons e rest ih =>
    obtain ⟨name, e⟩ := e
    have hlast : upsertEntry name (fun _ => e) before = before ++ [(name, e)] := by
      obtain ⟨-, -, hbefore⟩ := List.pairwise_append.1 hasc
      exact upsertEntry_of_forall_lt _ fun x hx => hbefore x hx _ List.mem_cons_self
    rw [List.append_cons] at hasc ⊢
    rw [fieldsOf, ofFields?, hread name e List.mem_cons_self, Option.bind_eq_bind,
      Option.bind_some, hlast]
    exact ih (fun name' e' he' => hread name' e' (List.mem_cons_of_mem _ he')) hasc

theorem ofJson?_toJson (h : Ordered e) : ofJson? e.toJson = some e := by
  induction h with
  | file => rw [toJson, ofJson?]
  | directory hasc hbelow ih =>
    have hfields := @ofFields?_fieldsOf _ [] ih hasc
    rw [toJson, ofJson?, hfields]
    rfl

/-! ## Nesting -/

theorem nestingFields_le_iff {fields : List (String × Json)} {n : Nat} :
    Json.nestingFields fields ≤ n ↔ ∀ f ∈ fields, f.2.nesting ≤ n := by
  induction fields with
  | nil => simp [Json.nestingFields]
  | cons f rest ih =>
    obtain ⟨name, j⟩ := f
    rw [Json.nestingFields, Nat.max_le, ih, List.forall_mem_cons]

/-- How deep the text of a tree nests is how deep its directories lie. -/
theorem nesting_toJson_le_iff (h : Ordered e) (n : Nat) :
    e.toJson.nesting ≤ n ↔ ∀ names, HoldsDirectory e names → names.length < n := by
  induction h generalizing n with
  | file => simp [toJson, Json.nesting, leads_file, IsDirectory]
  | @directory entries hasc hbelow ih =>
    have hroot : HoldsDirectory (.directory entries) [] := leads_nil.2 ⟨entries, rfl⟩
    rw [toJson, Json.nesting, fieldsOf_eq]
    cases n with
    | zero => exact ⟨fun hle => by omega, fun hall => absurd (hall [] hroot) (by simp)⟩
    | succ n =>
      rw [Nat.add_le_add_iff_right, nestingFields_le_iff]
      constructor
      · intro hle names hnames
        cases names with
        | nil => simp
        | cons name rest =>
          obtain ⟨e, hfound, hrest⟩ := leads_cons.1 hnames
          have hmem := mem_of_findEntry hfound
          have hlt := (ih name e hmem n).1 (hle _ (List.mem_map.2 ⟨_, hmem, rfl⟩)) rest hrest
          simpa using hlt
      · intro hall f hf
        obtain ⟨⟨name, e⟩, hmem, rfl⟩ := List.mem_map.1 hf
        refine (ih name e hmem n).2 fun rest hrest => ?_
        have hlt := hall (name :: rest) (leads_cons.2 ⟨e, hasc.findEntry?_of_mem hmem, hrest⟩)
        simpa using hlt

end TreeEntry

namespace DirectoryTree

open TreeEntry (Ordered HoldsDirectory)

variable {t : DirectoryTree} {paths : List String}

/-! ## Saving and reading -/

theorem parse?_text (h : Ordered t.root) :
    parse? t.text = if t.toJson.nesting ≤ Json.maxNesting then some t else none := by
  have hjson : t.toJson = t.root.toJson := rfl
  rw [parse?, text, hjson, Json.parse?_indentedText (TreeEntry.plain_toJson h), Option.bind_eq_bind,
    Option.bind_some]
  split
  · rw [ofJson?, TreeEntry.ofJson?_toJson h]
    rfl
  · rfl

theorem nesting_ofPaths_le_iff (paths : List String) {n : Nat} (hn : 0 < n) :
    (ofPaths paths).toJson.nesting ≤ n ↔
      ∀ path ∈ paths, (Path.properSegments path).length ≤ n := by
  refine (TreeEntry.nesting_toJson_le_iff (ordered_ofPaths paths) n).trans ?_
  constructor
  · intro hall path hpath
    by_cases hnil : Path.properSegments path = []
    · simp [hnil]
    · -- all but the last segment of a path lead to a directory
      have hpos := List.length_pos_of_ne_nil hnil
      have hne : (Path.properSegments path).dropLast ≠ Path.properSegments path := by
        intro heq
        have hlength := congrArg List.length heq
        rw [List.length_dropLast] at hlength
        omega
      have hlt := hall _ (holdsDirectory_ofPaths.2
        (.inr ⟨path, hpath, List.dropLast_prefix _, hne⟩))
      rw [List.length_dropLast] at hlt
      omega
  · intro hall names hnames
    rcases holdsDirectory_ofPaths.1 hnames with rfl | ⟨path, hpath, hpre, hne⟩
    · exact hn
    · have hle := hall path hpath
      have hshorter := hpre.length_le
      have hlength : names.length ≠ (Path.properSegments path).length :=
        fun heq => hne (hpre.eq_of_length heq)
      omega

/-- **A saved structure is read back unless it nests too deep.** A tree whose names ascend is read
    back as it was if every directory has fewer than `Json.maxNesting` above it, and as nothing at
    all otherwise. Names ascend in trees that are built from paths or by a scan, and a tree of paths
    is read back exactly if no path has more segments than that. -/
theorem read_back_unless_deep (t : DirectoryTree) (h : Ordered t.root) :
    (parse? t.text = some t ∨ parse? t.text = none) ∧
    (parse? t.text = some t ↔
      ∀ names, HoldsDirectory t.root names → names.length < Json.maxNesting) ∧
    (∀ paths, Ordered (ofPaths paths).root ∧ parse? (ofPaths paths).text =
      if ∀ path ∈ paths, (Path.properSegments path).length ≤ Json.maxNesting then
        some (ofPaths paths)
      else none) ∧
    ∀ c tree, Ordered (Scan.directoryTree c tree).root := by
  refine ⟨?_, ?_, fun paths => ⟨ordered_ofPaths paths, ?_⟩, fun c tree => Scan.ordered_directoryTree⟩
  · rw [parse?_text h]
    split
    · exact .inl rfl
    · exact .inr rfl
  · rw [parse?_text h, ← TreeEntry.nesting_toJson_le_iff h]
    show _ ↔ t.toJson.nesting ≤ Json.maxNesting
    split
    · rename_i hle
      exact iff_of_true rfl hle
    · rename_i hdeep
      exact iff_of_false (fun heq => by cases heq) hdeep
  · have hdeep := nesting_ofPaths_le_iff paths (show 0 < Json.maxNesting by decide)
    rw [parse?_text (ordered_ofPaths paths)]
    exact if_congr hdeep rfl rfl

/-- A tree with an empty directory, names that need escapes, and a file and a directory side by
side. -/
def sampleTree : DirectoryTree :=
  (ofPaths ["a\"b/\\", "a\"b/c/d"]).addDirectory ["e"]

theorem sampleTree_read_back :
    Ordered sampleTree.root ∧
      (∀ names, HoldsDirectory sampleTree.root names → names.length < Json.maxNesting) ∧
      parse? sampleTree.text = some sampleTree := by
  have hpaths := ordered_ofPaths ["a\"b/\\", "a\"b/c/d"]
  have hsegments : ∀ path ∈ ["a\"b/\\", "a\"b/c/d"],
      (Path.properSegments path).length < Json.maxNesting := by
    decide
  have hordered : Ordered sampleTree.root := ordered_addDirectory hpaths
  have hdepth : ∀ names, HoldsDirectory sampleTree.root names →
      names.length < Json.maxNesting := by
    intro names hnames
    rcases (leads_addDirectory (fun entries => ⟨entries, rfl⟩) hpaths).1 hnames with hold | hpre
    · rcases holdsDirectory_ofPaths.1 hold with rfl | ⟨path, hpath, hpre, -⟩
      · decide
      · exact Nat.lt_of_le_of_lt hpre.length_le (hsegments path hpath)
    · exact Nat.lt_of_le_of_lt hpre.length_le (by decide)
  exact ⟨hordered, hdepth, (read_back_unless_deep sampleTree hordered).2.1.2 hdepth⟩

/-- A file below 127 directories. -/
def deepPath : String :=
  "/".intercalate (List.replicate 127 "d" ++ ["f"])

/-- The tree with a file below 127 directories is saved and not read back. -/
theorem deepPath_not_read_back :
    Ordered (ofPaths [deepPath]).root ∧
      parse? (ofPaths [deepPath]).text ≠ some (ofPaths [deepPath]) := by
  have hordered := ordered_ofPaths [deepPath]
  have hlength : (Path.properSegments deepPath).length = 128 := by
    decide +kernel
  have hdeep : ¬(ofPaths [deepPath]).toJson.nesting ≤ Json.maxNesting := by
    rw [nesting_ofPaths_le_iff [deepPath] (by decide)]
    intro hall
    have hle := hall deepPath List.mem_cons_self
    rw [hlength] at hle
    exact absurd hle (by decide)
  refine ⟨hordered, fun heq => ?_⟩
  rw [parse?_text hordered, if_neg hdeep] at heq
  cases heq

end DirectoryTree

end SourceDocs
