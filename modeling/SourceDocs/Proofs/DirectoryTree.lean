import SourceDocs.DirectoryTree
import SourceDocs.Proofs.SortedMap

set_option autoImplicit false

/-! # Directory trees: what names lead to

From the top of a tree names lead to an entry or to none (`TreeEntry.at?`). Putting a path into a
tree makes its prefixes lead to something and its proper prefixes to directories. What was there
stays, except that a file on the way becomes a directory (`leads_insertLeaf`). All this is about
trees whose names ascend in every directory (`TreeEntry.Ordered`), as they do in every tree that is
built. -/

namespace SourceDocs

namespace TreeEntry

variable {e : TreeEntry} {entries : List (String × TreeEntry)} {name : String}
  {names segments : List String} {p : TreeEntry → Prop}

/-- The names of every directory in an entry ascend. -/
inductive Ordered : TreeEntry → Prop
  | file : Ordered file
  | directory {entries : List (String × TreeEntry)} (ascending : Ascending entries)
      (below : ∀ name e, (name, e) ∈ entries → Ordered e) : Ordered (directory entries)

/-- What names lead to from an entry. -/
def at? (e : TreeEntry) : List String → Option TreeEntry
  | [] => some e
  | name :: rest => findEntry? name (contents (some e)) |>.bind (at? · rest)

/-- Whether an entry is a directory. -/
def IsDirectory (e : TreeEntry) : Prop :=
  ∃ entries, e = .directory entries

/-- Names lead to something with a property. -/
def Leads (p : TreeEntry → Prop) (e : TreeEntry) (names : List String) : Prop :=
  ∃ e', e.at? names = some e' ∧ p e'

/-- Names lead to something. -/
abbrev Holds : TreeEntry → List String → Prop := Leads fun _ => True

/-- Names lead to a directory. -/
abbrev HoldsDirectory : TreeEntry → List String → Prop := Leads IsDirectory

/-! ## Entries along names -/

theorem at?_append (e : TreeEntry) (names more : List String) :
    e.at? (names ++ more) = (e.at? names).bind (at? · more) := by
  induction names generalizing e with
  | nil => rfl
  | cons name rest ih =>
    rw [List.cons_append, at?, at?, Option.bind_assoc]
    exact congrArg _ (funext fun e' => ih e')

theorem leads_nil : Leads p e [] ↔ p e := by
  simp [Leads, at?]

/-- Below a file there is nothing. -/
theorem leads_file : Leads p file names ↔ names = [] ∧ p file := by
  cases names with
  | nil => simp [leads_nil]
  | cons name rest => simp [Leads, at?, contents, findEntry?]

theorem leads_cons : Leads p (.directory entries) (name :: names) ↔
    ∃ e, findEntry? name entries = some e ∧ Leads p e names := by
  rw [Leads, at?, contents]
  cases findEntry? name entries with
  | none => simp
  | some e => simp [Leads]

/-- What names lead to below a name does not depend on whether that is absent or a file. -/
theorem leads_contents (hne : names ≠ []) :
    Leads p (.directory <| contents <| findEntry? name entries) names ↔
      Leads p (.directory entries) (name :: names) := by
  obtain ⟨first, rest, rfl⟩ := List.exists_cons_of_ne_nil hne
  refine Iff.trans ?_ leads_cons.symm
  cases findEntry? name entries with
  | none => simp [contents, leads_cons, findEntry?]
  | some e =>
    cases e with
    | file => simp [contents, leads_cons, leads_file, findEntry?]
    | directory inner => simp [contents]

theorem eq_file_iff : e = .file ↔ ¬IsDirectory e := by
  cases e with
  | file => simp [IsDirectory]
  | directory entries => simp [IsDirectory]

theorem holdsDirectory_iff : HoldsDirectory e names ↔ ∃ inner, e.at? names = some (.directory inner) := by
  simp [HoldsDirectory, Leads, IsDirectory]

/-- Names that lead to something lead to a file unless they lead to a directory. -/
theorem at?_eq_file_iff : e.at? names = some .file ↔ Holds e names ∧ ¬HoldsDirectory e names := by
  rw [Holds, HoldsDirectory, Leads, Leads]
  cases e.at? names with
  | none => simp
  | some e' => simp [eq_file_iff]

/-! ## Order -/

theorem Ordered.ascending (h : Ordered (.directory entries)) : Ascending entries := by
  cases h with
  | directory hasc hbelow => exact hasc

theorem Ordered.of_find (h : Ordered (.directory entries))
    (hfound : findEntry? name entries = some e) : Ordered e := by
  cases h with
  | directory hasc hbelow => exact hbelow _ _ (mem_of_findEntry hfound)

/-- What names lead to is ordered if what they start from is. -/
theorem Ordered.of_at? {e' : TreeEntry} (h : Ordered e) (hat : e.at? names = some e') :
    Ordered e' := by
  induction names generalizing e with
  | nil =>
    obtain rfl : e = e' := Option.some.inj hat
    exact h
  | cons name rest ih =>
    obtain ⟨inner, hfound, hrest⟩ := Option.bind_eq_some_iff.1 hat
    cases e with
    | file => cases hfound
    | directory entries => exact ih (h.of_find hfound) hrest

theorem ordered_empty : Ordered (.directory []) :=
  .directory List.Pairwise.nil (by simp)

theorem Ordered.contents (h : Ordered (.directory entries)) (name : String) :
    Ordered (.directory <| contents <| findEntry? name entries) := by
  cases hfound : findEntry? name entries with
  | none => exact ordered_empty
  | some e =>
    cases e with
    | file => exact ordered_empty
    | directory inner => exact h.of_find hfound

theorem Ordered.upsert (h : Ordered (.directory entries)) {f : Option TreeEntry → TreeEntry}
    (hf : Ordered (f <| findEntry? name entries)) :
    Ordered (.directory (upsertEntry name f entries)) := by
  have hasc := h.ascending.upsert name f
  refine .directory hasc fun name' e hmem => ?_
  have hfound := hasc.findEntry?_of_mem hmem
  by_cases hname : name' = name
  · subst hname
    rw [findEntry?_upsertEntry_self f h.ascending, Option.some.injEq] at hfound
    rwa [← hfound]
  · rw [findEntry?_upsertEntry_of_ne f hname] at hfound
    exact h.of_find hfound

/-- An ordered entry is determined by the names that lead to something and those that lead to
directories. -/
theorem Ordered.ext {e' : TreeEntry} (h : Ordered e) (h' : Ordered e')
    (hholds : ∀ names, Holds e names ↔ Holds e' names)
    (hdirectory : ∀ names, HoldsDirectory e names ↔ HoldsDirectory e' names) : e = e' := by
  induction h generalizing e' with
  | file =>
    cases e' with
    | file => rfl
    | directory entries' =>
      have hfile := (hdirectory []).2 (leads_nil.2 ⟨entries', rfl⟩)
      simp [leads_file, IsDirectory] at hfile
  | @directory entries hasc hbelow ih =>
    cases e' with
    | file =>
      have hfile := (hdirectory []).1 (leads_nil.2 ⟨entries, rfl⟩)
      simp [leads_file, IsDirectory] at hfile
    | directory entries' =>
      refine congrArg TreeEntry.directory (hasc.ext h'.ascending fun name => ?_)
      cases hfound : findEntry? name entries with
      | none =>
        have hnone := hholds [name]
        simp only [leads_cons, leads_nil, hfound, and_true, reduceCtorEq, exists_false,
          false_iff, not_exists] at hnone
        exact (Option.eq_none_iff_forall_ne_some.2 hnone).symm
      | some e₁ =>
        have hsome := (hholds [name]).1 (leads_cons.2 ⟨e₁, hfound, leads_nil.2 trivial⟩)
        obtain ⟨e₂, hfound', -⟩ := leads_cons.1 hsome
        have hbelow : ∀ {p : TreeEntry → Prop},
            (∀ names, Leads p (.directory entries) names ↔ Leads p (.directory entries') names) →
            ∀ names, Leads p e₁ names ↔ Leads p e₂ names := by
          intro p hsame names
          have hnames := hsame (name :: names)
          simpa [leads_cons, hfound, hfound'] using hnames
        rw [hfound', ih name e₁ (mem_of_findEntry hfound) (h'.of_find hfound') (hbelow hholds)
          (hbelow hdirectory)]

end TreeEntry

namespace DirectoryTree

open TreeEntry (Ordered Leads Holds HoldsDirectory IsDirectory leads_nil leads_cons leads_file
  leads_contents)

variable {entries : List (String × TreeEntry)} {names segments : List String}
  {leaf : Option TreeEntry → TreeEntry} {t : DirectoryTree} {paths : List String}

/-! ## Putting in a path -/

/-- Puts something at the end of segments, with directories on the way. -/
def insertLeaf (leaf : Option TreeEntry → TreeEntry) (entries : List (String × TreeEntry)) :
    List String → List (String × TreeEntry)
  | [] => entries
  | [name] => upsertEntry name leaf entries
  | segment :: rest =>
    upsertEntry segment (fun e => .directory (insertLeaf leaf (TreeEntry.contents e) rest)) entries

theorem insertLeaf_cons (segment : String) {rest : List String} (hrest : rest ≠ []) :
    insertLeaf leaf entries (segment :: rest) = upsertEntry segment
      (fun e => .directory (insertLeaf leaf (TreeEntry.contents e) rest)) entries := by
  cases rest with
  | nil => exact absurd rfl hrest
  | cons name more => rfl

/-- A file stays what it is if there is something already. -/
theorem insertFile_eq :
    insertFile entries segments = insertLeaf (fun e => e.getD .file) entries segments := by
  induction segments generalizing entries with
  | nil => rfl
  | cons segment rest ih =>
    cases rest with
    | nil => rfl
    | cons name more => simp only [insertFile, insertLeaf, ih]

theorem insertDirectory_eq : insertDirectory entries segments =
    insertLeaf (fun e => .directory (TreeEntry.contents e)) entries segments := by
  induction segments generalizing entries with
  | nil => rfl
  | cons segment rest ih =>
    cases rest with
    | nil => rfl
    | cons name more =>
      rw [insertDirectory, insertLeaf_cons segment (by simp)]
      exact congrArg (upsertEntry segment · entries) (funext fun e => congrArg _ ih)

theorem ordered_insertLeaf (hleaf : ∀ o, (∀ e, o = some e → Ordered e) → Ordered (leaf o))
    (h : Ordered (.directory entries)) :
    Ordered (.directory (insertLeaf leaf entries segments)) := by
  induction segments generalizing entries with
  | nil => exact h
  | cons segment rest ih =>
    by_cases hrest : rest = []
    · subst hrest
      exact h.upsert (hleaf _ fun e hfound => h.of_find hfound)
    · rw [insertLeaf_cons segment hrest]
      exact h.upsert (ih (h.contents segment))

/-- What is found after something was put at the end of segments: what was there, directories on the
way, and at the end what was put there. -/
theorem leads_insertLeaf {p : TreeEntry → Prop} (atEnd : Prop)
    (hdirectory : ∀ entries, p (.directory entries))
    (hleaf : ∀ o names, Leads p (leaf o) names ↔
      (∃ e, o = some e ∧ Leads p e names) ∨ names = [] ∧ atEnd)
    (h : Ordered (.directory entries)) :
    Leads p (.directory (insertLeaf leaf entries segments)) names ↔
      Leads p (.directory entries) names ∨ names <+: segments ∧ (names = segments → atEnd) := by
  induction segments generalizing entries names with
  | nil =>
    constructor
    · exact Or.inl
    · rintro (hold | ⟨hnil, -⟩)
      · exact hold
      · rw [List.prefix_nil.1 hnil]
        exact leads_nil.2 (hdirectory _)
  | cons segment rest ih =>
    cases names with
    | nil => simp [leads_nil, hdirectory]
    | cons name names =>
      rw [List.cons_prefix_cons, List.cons.injEq]
      by_cases hrest : rest = []
      · -- the end of the segments: the entry there is replaced
        subst hrest
        rw [insertLeaf, leads_cons, leads_cons]
        by_cases hname : name = segment
        · subst hname
          rw [findEntry?_upsertEntry_self leaf h.ascending]
          simp only [Option.some.injEq, exists_eq_left', hleaf, List.prefix_nil, true_and]
          exact or_congr Iff.rfl
            (and_congr_right fun hnil => ⟨fun hend _ => hend, fun hend => hend hnil⟩)
        · rw [findEntry?_upsertEntry_of_ne leaf hname]
          simp [hname]
      · -- on the way: the entry becomes a directory, and names that end here find just that
        rw [insertLeaf_cons segment hrest]
        by_cases hname : name = segment
        · subst hname
          rw [leads_cons, findEntry?_upsertEntry_self _ h.ascending]
          simp only [Option.some.injEq, exists_eq_left', ih (h.contents name), true_and]
          by_cases hnames : names = []
          · subst hnames
            have hne : [] ≠ rest := fun heq => hrest heq.symm
            simp [leads_nil, hdirectory, hne]
          · rw [leads_contents hnames]
        · rw [leads_cons, leads_cons, findEntry?_upsertEntry_of_ne _ hname]
          simp [hname]

/-- A tree as one entry. -/
def root (t : DirectoryTree) : TreeEntry := .directory t.entries

/-- Two trees are equal if the same names lead to something in both, and the same to directories. -/
theorem eq_of_leads {t' : DirectoryTree} (h : Ordered t.root) (h' : Ordered t'.root)
    (hholds : ∀ names, Holds t.root names ↔ Holds t'.root names)
    (hdirectory : ∀ names, HoldsDirectory t.root names ↔ HoldsDirectory t'.root names) : t = t' :=
  congrArg DirectoryTree.mk (TreeEntry.directory.inj (h.ext h' hholds hdirectory))

theorem leads_root_empty {p : TreeEntry → Prop} (hdirectory : ∀ entries, p (.directory entries)) :
    Leads p empty.root names ↔ names = [] := by
  cases names with
  | nil => simp [leads_nil, root, hdirectory]
  | cons name rest => simp [root, empty, leads_cons, findEntry?]

/-! ### Files -/

theorem ordered_addFile (h : Ordered t.root) : Ordered (t.addFile segments).root := by
  rw [root, addFile, insertFile_eq]
  refine ordered_insertLeaf (fun o ho => ?_) h
  cases o with
  | none => exact .file
  | some e => exact ho e rfl

theorem holds_addFile (h : Ordered t.root) :
    Holds (t.addFile segments).root names ↔ Holds t.root names ∨ names <+: segments := by
  have hleaf : ∀ (o : Option TreeEntry) (names : List String), Holds (o.getD .file) names ↔
      (∃ e, o = some e ∧ Holds e names) ∨ names = [] ∧ True := by
    intro o names
    cases o with
    | none => simp [leads_file]
    | some e =>
      have hnil : names = [] → Holds e names := by
        rintro rfl
        exact leads_nil.2 trivial
      simpa using hnil
  rw [addFile, insertFile_eq]
  refine (leads_insertLeaf True (fun _ => trivial) hleaf h).trans ?_
  simp [root]

theorem holdsDirectory_addFile (h : Ordered t.root) :
    HoldsDirectory (t.addFile segments).root names ↔
      HoldsDirectory t.root names ∨ names <+: segments ∧ names ≠ segments := by
  have hleaf : ∀ (o : Option TreeEntry) (names : List String),
      HoldsDirectory (o.getD .file) names ↔
        (∃ e, o = some e ∧ HoldsDirectory e names) ∨ names = [] ∧ False := by
    intro o names
    cases o with
    | none => simp [leads_file, IsDirectory]
    | some e => simp
  rw [addFile, insertFile_eq]
  exact leads_insertLeaf False (fun entries => ⟨entries, rfl⟩) hleaf h

/-! ### Directories -/

theorem ordered_addDirectory (h : Ordered t.root) : Ordered (t.addDirectory segments).root := by
  rw [root, addDirectory, insertDirectory_eq]
  refine ordered_insertLeaf (fun o ho => ?_) h
  cases o with
  | none => exact TreeEntry.ordered_empty
  | some e =>
    cases e with
    | file => exact TreeEntry.ordered_empty
    | directory inner => exact ho _ rfl

theorem leads_addDirectory {p : TreeEntry → Prop} (hdirectory : ∀ entries, p (.directory entries))
    (h : Ordered t.root) :
    Leads p (t.addDirectory segments).root names ↔ Leads p t.root names ∨ names <+: segments := by
  have hleaf : ∀ (o : Option TreeEntry) (names : List String),
      Leads p (.directory (TreeEntry.contents o)) names ↔
        (∃ e, o = some e ∧ Leads p e names) ∨ names = [] ∧ True := by
    intro o names
    cases names with
    | nil => simp [leads_nil, hdirectory]
    | cons name rest =>
      cases o with
      | none => simp [leads_cons, TreeEntry.contents, findEntry?]
      | some e =>
        cases e with
        | file => simp [leads_cons, leads_file, TreeEntry.contents, findEntry?]
        | directory inner => simp [TreeEntry.contents]
  rw [addDirectory, insertDirectory_eq]
  refine (leads_insertLeaf True hdirectory hleaf h).trans ?_
  simp [root]

/-! ## Many paths -/

theorem ordered_foldl {α : Type} (step : DirectoryTree → α → DirectoryTree) {l : List α}
    (hordered : ∀ t a, Ordered t.root → Ordered (step t a).root) (h : Ordered t.root) :
    Ordered (l.foldl step t).root := by
  induction l generalizing t with
  | nil => exact h
  | cons a rest ih => exact ih (hordered t a h)

theorem ordered_ofPaths (paths : List String) : Ordered (ofPaths paths).root :=
  ordered_foldl (fun t path => t.addFile (Path.properSegments path))
    (fun _ _ => ordered_addFile) TreeEntry.ordered_empty

/-- What is found after many steps, each of which adds something to what is found. -/
theorem leads_foldl {α : Type} (step : DirectoryTree → α → DirectoryTree)
    {p : TreeEntry → Prop} {adds : α → Prop} {l : List α}
    (hdirectory : ∀ entries, p (.directory entries))
    (hordered : ∀ t a, Ordered t.root → Ordered (step t a).root)
    (hstep : ∀ t a, Ordered t.root →
      (Leads p (step t a).root names ↔ Leads p t.root names ∨ adds a)) :
    Leads p (l.foldl step empty).root names ↔ names = [] ∨ ∃ a ∈ l, adds a := by
  -- the induction needs to start from any tree, not from the empty one
  have hfrom : ∀ t : DirectoryTree, Ordered t.root →
      (Leads p (l.foldl step t).root names ↔ Leads p t.root names ∨ ∃ a ∈ l, adds a) := by
    induction l with
    | nil => simp
    | cons a rest ih =>
      intro t h
      rw [List.foldl_cons, ih _ (hordered t a h), hstep t a h, or_assoc]
      simp
  rw [hfrom empty TreeEntry.ordered_empty, leads_root_empty hdirectory]

/-- The prefixes of the paths lead to something. -/
theorem holds_ofPaths : Holds (ofPaths paths).root names ↔
    names = [] ∨ ∃ path ∈ paths, names <+: Path.properSegments path :=
  leads_foldl (fun t path => t.addFile (Path.properSegments path)) (fun _ => trivial)
    (fun _ _ => ordered_addFile) (fun _ _ => holds_addFile)

/-- The proper prefixes of the paths lead to directories. -/
theorem holdsDirectory_ofPaths : HoldsDirectory (ofPaths paths).root names ↔
    names = [] ∨ ∃ path ∈ paths, names <+: Path.properSegments path ∧
      names ≠ Path.properSegments path :=
  leads_foldl (fun t path => t.addFile (Path.properSegments path)) (fun entries => ⟨entries, rfl⟩)
    (fun _ _ => ordered_addFile) (fun _ _ => holdsDirectory_addFile)

/-! ## Lookup -/

theorem descend?_eq_some {d : DirectoryTree} :
    t.descend? names = some d ↔ t.root.at? names = some d.root := by
  induction names generalizing t with
  | nil =>
    obtain ⟨entries⟩ := t
    obtain ⟨entries'⟩ := d
    simp [descend?, TreeEntry.at?, root]
  | cons name rest ih =>
    rw [descend?, TreeEntry.at?, root, TreeEntry.contents]
    cases hfound : findEntry? name t.entries with
    | none => simp
    | some e =>
      cases e with
      | file => cases rest <;> simp [TreeEntry.at?, TreeEntry.contents, findEntry?, root]
      | directory inner => exact ih

/-- What is in the directory with a path is what the path leads on to. -/
theorem findEntry?_of_lookup? {path : String} {d : DirectoryTree}
    (hpath : Path.properSegments path = names) (h : t.lookup? path = some d) (name : String) :
    findEntry? name d.entries = t.root.at? (names ++ [name]) := by
  rw [lookup?, hpath, descend?_eq_some] at h
  rw [TreeEntry.at?_append, h]
  simp [TreeEntry.at?, TreeEntry.contents, root]

/-- The directory that names lead to, with what is below it. -/
theorem exists_lookup? {path : String} (hpath : Path.properSegments path = names)
    (h : HoldsDirectory t.root names) :
    ∃ d, t.lookup? path = some d ∧
      ∀ name, findEntry? name d.entries = t.root.at? (names ++ [name]) := by
  obtain ⟨e, hat, entries, rfl⟩ := h
  have hlookup : t.lookup? path = some ⟨entries⟩ := by
    rw [lookup?, hpath]
    exact descend?_eq_some.2 hat
  exact ⟨⟨entries⟩, hlookup, findEntry?_of_lookup? hpath hlookup⟩

end DirectoryTree

end SourceDocs
