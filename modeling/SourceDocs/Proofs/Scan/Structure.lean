import Mathlib.Data.List.Induction
import SourceDocs.Proofs.DirectoryTree
import SourceDocs.Proofs.Path
import SourceDocs.Proofs.Scan.Partition

set_option autoImplicit false

/-! # Scans for structure: the tree without what is excluded

A scan for structure adds the places that it comes to one after the other (`structureIn_eq`). Each
makes the prefixes of its names lead to something and takes nothing away, so the order of the places
does not show (`foldl_addVisit_congr`). In the end there is a directory for every directory of the
tree that is kept, and a file for every file in one of these (`holdsDirectory_iff_kept`,
`holds_iff_kept`). -/

namespace SourceDocs

/-! ## Names in a tree -/

namespace WalkTree

variable {tree tree' : WalkTree} {above : List String} {name : String} {node : WalkNode}

/-- No name in a tree is empty. -/
def NamesNonempty (tree : WalkTree) : Prop :=
  ∀ above name node, Reaches tree above name node → name ≠ ""

theorem NamesNonempty.intro (here : ∀ e ∈ tree, e.1 ≠ .text "")
    (below : ∀ name entries, (name, WalkNode.directory entries) ∈ tree →
      WalkTree.NamesNonempty entries) : tree.NamesNonempty := by
  intro above name node h
  cases h with
  | here hmem =>
    rintro rfl
    exact here _ hmem rfl
  | inside hmem hreach => exact below _ _ hmem _ _ _ hreach

theorem Reaches.ne_empty (hempty : tree.NamesNonempty) (h : Reaches tree above name node) :
    ∀ n ∈ above ++ [name], n ≠ "" := by
  intro n hn
  rcases List.mem_append.1 hn with hn | hn
  · obtain ⟨before, after, rfl⟩ := List.append_of_mem hn
    obtain ⟨entries, hreach⟩ := h.directory
    exact hempty _ _ _ hreach
  · rw [List.mem_singleton.1 hn]
    exact hempty _ _ _ h

/-- There is a directory under a name, below the directories that lead there. -/
def HasDirectory (tree : WalkTree) (above : List String) (name : String) : Prop :=
  ∃ entries, Reaches tree above name (.directory entries)

/-- There is something under a name that is not a directory. A broken link is nothing. -/
def HasFile (tree : WalkTree) (above : List String) (name : String) : Prop :=
  ∃ node, Reaches tree above name node ∧ node ≠ .broken ∧ ∀ entries, node ≠ .directory entries

theorem HasFile.not_hasDirectory (hnames : WellNamed tree) (h : tree.HasFile above name) :
    ¬tree.HasDirectory above name := by
  obtain ⟨node, hreach, -, hnode⟩ := h
  rintro ⟨entries, hentries⟩
  exact hnode entries (hreach.unique hnames hentries)

/-- Two trees have directories under the same names, and other things under the same names. -/
structure SamePlaces (tree tree' : WalkTree) : Prop where
  directories : ∀ above name, tree.HasDirectory above name ↔ tree'.HasDirectory above name
  files : ∀ above name, tree.HasFile above name ↔ tree'.HasFile above name

theorem WellNamed.perm (hnames : WellNamed tree) (h : tree.Perm tree') : WellNamed tree' := by
  obtain ⟨hdistinct, hsegments, hbelow⟩ := hnames
  refine .intro ((h.map Prod.fst).nodup_iff.1 hdistinct) (fun e he => ?_) fun name entries he => ?_
  · exact hsegments e (h.mem_iff.2 he)
  · exact hbelow name entries (h.mem_iff.2 he)

theorem Reaches.perm (hreach : Reaches tree above name node) (h : tree.Perm tree') :
    Reaches tree' above name node := by
  cases hreach with
  | here hmem => exact .here (h.mem_iff.1 hmem)
  | inside hmem hreach => exact .inside (h.mem_iff.1 hmem) hreach

/-- The order of a directory does not change its places. -/
theorem SamePlaces.of_perm (h : tree.Perm tree') : SamePlaces tree tree' := by
  constructor
  · intro above name
    exact exists_congr fun entries => ⟨(·.perm h), (·.perm h.symm)⟩
  · intro above name
    exact exists_congr fun node => and_congr_left' ⟨(·.perm h), (·.perm h.symm)⟩

theorem SamePlaces.symm (h : SamePlaces tree tree') : SamePlaces tree' tree :=
  ⟨fun above name => (h.directories above name).symm, fun above name => (h.files above name).symm⟩

end WalkTree

namespace Scan

open WalkTree (WellNamed Reaches NamesNonempty SamePlaces)
open TreeEntry (Ordered Holds HoldsDirectory)

variable {c : Classifier} {tree tree' : WalkTree} {v : Visit} {visits visits' : List Visit}
  {above names : List String} {name : String} {node : WalkNode} {t : DirectoryTree}

/-! ## One place after the other -/

/-- Whether a scan does not go past a place and leaves it out of the structure. -/
def Visit.stops (c : Classifier) (v : Visit) : Bool :=
  match v.node with
  | .directory _ => excludes c v.name
  | .broken => true
  | _ => false

/-- Whether there is a directory at a place. -/
def Visit.isDirectory (v : Visit) : Bool :=
  match v.node with
  | .directory _ => true
  | _ => false

/-- A structure with what there is at a place. -/
def addVisit (c : Classifier) (t : DirectoryTree) (v : Visit) : DirectoryTree :=
  if v.stops c then t
  else if v.isDirectory then t.addDirectory v.names
  else t.addFile v.names

theorem structureIn_eq_foldl :
    structureIn c names t tree =
      tree.foldl (fun t e => structureAt c (names ++ [e.1.shown]) e.1 t e.2) t := by
  induction tree generalizing t with
  | nil => rw [structureIn, List.foldl_nil]
  | cons e rest ih =>
    obtain ⟨name, node⟩ := e
    rw [structureIn, ih, List.foldl_cons]

theorem structureIn_eq (c : Classifier) (above : List String) (t : DirectoryTree)
    (tree : WalkTree) :
    structureIn c above t tree = (visitsIn c above tree).foldl (addVisit c) t := by
  induction tree using WalkTree.induction generalizing above t with
  | step tree ih =>
    rw [structureIn_eq_foldl, visitsIn_eq_flatMap, List.foldl_flatMap]
    refine List.foldl_ext _ _ _ fun t e he => ?_
    obtain ⟨name, node⟩ := e
    cases node with
    | file content modified =>
      simp [structureAt, visitsAt, addVisit, Visit.stops, Visit.isDirectory, Visit.names]
    | directory entries =>
      by_cases hex : excludes c name
      · simp [structureAt, visitsAt, addVisit, Visit.stops, hex]
      · simp [structureAt, visitsAt, addVisit, Visit.stops, Visit.isDirectory, Visit.names, hex,
          ih name entries he]
    | other => simp [structureAt, visitsAt, addVisit, Visit.stops, Visit.isDirectory, Visit.names]
    | broken => simp [structureAt, visitsAt, addVisit, Visit.stops]

theorem ordered_addVisit (h : Ordered t.root) : Ordered (addVisit c t v).root := by
  unfold addVisit
  split
  · exact h
  · split
    · exact DirectoryTree.ordered_addDirectory h
    · exact DirectoryTree.ordered_addFile h

theorem holds_addVisit (h : Ordered t.root) : Holds (addVisit c t v).root names ↔
    Holds t.root names ∨ v.stops c = false ∧ names <+: v.names := by
  unfold addVisit
  split
  · simp_all
  · split
    · simp_all [DirectoryTree.leads_addDirectory]
    · simp_all [DirectoryTree.holds_addFile]

theorem holdsDirectory_addVisit (h : Ordered t.root) : HoldsDirectory (addVisit c t v).root names ↔
    HoldsDirectory t.root names ∨
      v.stops c = false ∧ names <+: v.names ∧ (v.isDirectory = true ∨ names ≠ v.names) := by
  have hdirectory : ∀ entries, TreeEntry.IsDirectory (.directory entries) := fun _ => ⟨_, rfl⟩
  unfold addVisit
  split
  · simp_all
  · split
    · simp_all [DirectoryTree.leads_addDirectory hdirectory]
    · simp_all [DirectoryTree.holdsDirectory_addFile]

/-! ## All places -/

theorem ordered_foldl_addVisit : Ordered (visits.foldl (addVisit c) .empty).root :=
  DirectoryTree.ordered_foldl (addVisit c) (fun _ _ => ordered_addVisit) TreeEntry.ordered_empty

theorem holds_foldl_addVisit : Holds (visits.foldl (addVisit c) .empty).root names ↔
    names = [] ∨ ∃ v ∈ visits, v.stops c = false ∧ names <+: v.names :=
  DirectoryTree.leads_foldl (addVisit c) (fun _ => trivial) (fun _ _ => ordered_addVisit)
    (fun _ _ => holds_addVisit)

theorem holdsDirectory_foldl_addVisit :
    HoldsDirectory (visits.foldl (addVisit c) .empty).root names ↔
      names = [] ∨ ∃ v ∈ visits, v.stops c = false ∧ names <+: v.names ∧
        (v.isDirectory = true ∨ names ≠ v.names) :=
  DirectoryTree.leads_foldl (addVisit c) (fun entries => ⟨entries, rfl⟩)
    (fun _ _ => ordered_addVisit) (fun _ _ => holdsDirectory_addVisit)

/-- Which places are added shows in a structure, and not in what order or how often. -/
theorem foldl_addVisit_congr (h : ∀ v, v ∈ visits ↔ v ∈ visits') :
    visits.foldl (addVisit c) .empty = visits'.foldl (addVisit c) .empty := by
  refine DirectoryTree.eq_of_leads ordered_foldl_addVisit ordered_foldl_addVisit (fun names => ?_)
    fun names => ?_
  · rw [holds_foldl_addVisit, holds_foldl_addVisit]
    simp only [h]
  · rw [holdsDirectory_foldl_addVisit, holdsDirectory_foldl_addVisit]
    simp only [h]

theorem directoryTree_eq (c : Classifier) (tree : WalkTree) :
    directoryTree c tree = (visitsIn c [] tree).foldl (addVisit c) .empty :=
  structureIn_eq c [] .empty tree

theorem ordered_directoryTree : Ordered (directoryTree c tree).root := by
  rw [directoryTree_eq]
  exact ordered_foldl_addVisit

/-! ## What is kept -/

/-- Names that lead to a directory, none of them the name of one that is excluded. The directory
that a scan starts at is kept in any case. -/
inductive KeptDirectory (c : Classifier) (tree : WalkTree) : List String → Prop
  | root : KeptDirectory c tree []
  | inside {above : List String} {name : String} :
      KeptDirectory c tree above → tree.HasDirectory above name →
      c.excludesDirectory name = false → KeptDirectory c tree (above ++ [name])

/-- Names that lead to something else than a directory or a broken link, in a directory that is
kept. -/
inductive KeptFile (c : Classifier) (tree : WalkTree) : List String → Prop
  | within {above : List String} {name : String} :
      KeptDirectory c tree above → tree.HasFile above name → KeptFile c tree (above ++ [name])

theorem keptDirectory_concat_iff : KeptDirectory c tree (above ++ [name]) ↔
    KeptDirectory c tree above ∧ tree.HasDirectory above name ∧
      c.excludesDirectory name = false := by
  constructor
  · intro h
    generalize hnames : above ++ [name] = names at h
    cases h with
    | root => simp at hnames
    | inside habove hdirectory hkept =>
      obtain ⟨rfl, hname⟩ := List.append_inj' hnames rfl
      obtain rfl := List.singleton_inj.1 hname
      exact ⟨habove, hdirectory, hkept⟩
  · rintro ⟨habove, hdirectory, hkept⟩
    exact .inside habove hdirectory hkept

theorem keptFile_concat_iff : KeptFile c tree (above ++ [name]) ↔
    KeptDirectory c tree above ∧ tree.HasFile above name := by
  constructor
  · intro h
    generalize hnames : above ++ [name] = names at h
    cases h with
    | within habove hfile =>
      obtain ⟨rfl, hname⟩ := List.append_inj' hnames rfl
      obtain rfl := List.singleton_inj.1 hname
      exact ⟨habove, hfile⟩
  · rintro ⟨habove, hfile⟩
    exact .within habove hfile

/-- What leads to a kept directory is kept. -/
theorem KeptDirectory.of_isPrefix {names' : List String} (h : KeptDirectory c tree names')
    (hle : names <+: names') : KeptDirectory c tree names := by
  induction h with
  | root =>
    rw [List.prefix_nil.1 hle]
    exact .root
  | inside habove hdirectory hkept ih =>
    rcases List.prefix_concat_iff.1 hle with rfl | hle
    · exact .inside habove hdirectory hkept
    · exact ih hle

/-- What leads to something in a kept directory are kept directories. -/
theorem KeptDirectory.on_way (h : KeptDirectory c tree above) (hle : names <+: above ++ [name])
    (hne : names ≠ above ++ [name]) : KeptDirectory c tree names := by
  rcases List.prefix_concat_iff.1 hle with heq | hle
  · exact absurd heq hne
  · exact h.of_isPrefix hle

theorem KeptFile.keptDirectory_on_way {file : List String} (h : KeptFile c tree file)
    (hle : names <+: file) (hne : names ≠ file) : KeptDirectory c tree names := by
  obtain ⟨habove, -⟩ := h
  exact habove.on_way hle hne

theorem KeptDirectory.of_samePlaces (hsame : SamePlaces tree tree')
    (h : KeptDirectory c tree names) : KeptDirectory c tree' names := by
  induction h with
  | root => exact .root
  | inside habove hdirectory hkept ih =>
    exact .inside ih ((hsame.directories _ _).1 hdirectory) hkept

theorem keptDirectory_congr (hsame : SamePlaces tree tree') :
    KeptDirectory c tree names ↔ KeptDirectory c tree' names :=
  ⟨.of_samePlaces hsame, .of_samePlaces hsame.symm⟩

theorem keptFile_congr (hsame : SamePlaces tree tree') :
    KeptFile c tree names ↔ KeptFile c tree' names := by
  constructor
  · rintro ⟨habove, hfile⟩
    exact .within (habove.of_samePlaces hsame) ((hsame.files _ _).1 hfile)
  · rintro ⟨habove, hfile⟩
    exact .within (habove.of_samePlaces hsame.symm) ((hsame.files _ _).2 hfile)

theorem KeptDirectory.not_excluded (h : KeptDirectory c tree names) :
    ∀ n ∈ names, c.excludesDirectory n = false := by
  induction h with
  | root => simp
  | inside habove hdirectory hkept ih =>
    intro n hn
    rcases List.mem_append.1 hn with hn | hn
    · exact ih n hn
    · rw [List.mem_singleton.1 hn]
      exact hkept

theorem KeptDirectory.of_reaches (h : Reaches tree above name node)
    (habove : ∀ n ∈ above, c.excludesDirectory n = false) : KeptDirectory c tree above := by
  -- a directory is kept if the one above it is, so the names are taken off from the last one
  induction above using List.reverseRecOn generalizing name node with
  | nil => exact .root
  | append_singleton above last ih =>
    obtain ⟨entries, hentries⟩ := h.directory
    have hkept := List.forall_mem_append.1 habove
    exact .inside (ih hentries hkept.1) ⟨entries, hentries⟩ (hkept.2 last List.mem_cons_self)

/-- A scan comes to whatever is in the directories that are kept. -/
theorem mem_visitsIn_iff_kept (hnames : WellNamed tree) : v ∈ visitsIn c [] tree ↔
    ∃ last, v.name = .text last ∧ Reaches tree v.above last v.node ∧
      KeptDirectory c tree v.above := by
  rw [mem_visitsIn_iff hnames]
  refine exists_congr fun last => and_congr_right fun _ => and_congr_right fun hreach => ?_
  exact ⟨KeptDirectory.of_reaches hreach, KeptDirectory.not_excluded⟩

theorem keptDirectory_iff (hnames : WellNamed tree) : KeptDirectory c tree names ↔
    names = [] ∨ ∃ v ∈ visitsIn c [] tree,
      v.stops c = false ∧ v.isDirectory = true ∧ v.names = names := by
  constructor
  · intro h
    cases h with
    | root => exact .inl rfl
    | @inside above name habove hdirectory hkept =>
      obtain ⟨entries, hreach⟩ := hdirectory
      have hv : ⟨above, .text name, .directory entries⟩ ∈ visitsIn c [] tree :=
        (mem_visitsIn_iff_kept hnames).2 ⟨name, rfl, hreach, habove⟩
      exact .inr ⟨_, hv, hkept, rfl, rfl⟩
  · rintro (rfl | ⟨⟨above, name, node⟩, hv, hstops, hdirectory, rfl⟩)
    · exact .root
    · obtain ⟨last, rfl, hreach, habove⟩ := (mem_visitsIn_iff_kept hnames).1 hv
      cases node with
      | directory entries => exact .inside habove ⟨entries, hreach⟩ hstops
      | file content modified => cases hdirectory
      | other => cases hdirectory
      | broken => cases hdirectory

theorem keptFile_iff (hnames : WellNamed tree) : KeptFile c tree names ↔
    ∃ v ∈ visitsIn c [] tree,
      v.stops c = false ∧ v.isDirectory = false ∧ v.names = names := by
  constructor
  · rintro ⟨habove, node, hreach, hbroken, hnode⟩
    have hv : ⟨_, .text _, node⟩ ∈ visitsIn c [] tree :=
      (mem_visitsIn_iff_kept hnames).2 ⟨_, rfl, hreach, habove⟩
    cases node with
    | directory entries => exact absurd rfl (hnode entries)
    | file content modified => exact ⟨_, hv, rfl, rfl, rfl⟩
    | other => exact ⟨_, hv, rfl, rfl, rfl⟩
    | broken => exact absurd rfl hbroken
  · rintro ⟨v, hv, hstops, hfile, rfl⟩
    obtain ⟨last, hlast, hreach, habove⟩ := (mem_visitsIn_iff_kept hnames).1 hv
    rw [Visit.names, hlast]
    refine .within habove ⟨v.node, hreach, fun hnode => ?_, fun entries hnode => ?_⟩
    · rw [Visit.stops, hnode] at hstops
      cases hstops
    · rw [Visit.isDirectory, hnode] at hfile
      cases hfile

/-! ## What the structure holds -/

/-- The directories on the way to a place that a scan comes to are kept. -/
theorem keptDirectory_on_way (hnames : WellNamed tree) (hv : v ∈ visitsIn c [] tree)
    (hle : names <+: v.names) (hne : names ≠ v.names) : KeptDirectory c tree names := by
  obtain ⟨last, -, -, habove⟩ := (mem_visitsIn_iff_kept hnames).1 hv
  exact habove.on_way hle hne

/-- **The directories of a structure are those that are kept.** -/
theorem holdsDirectory_iff_kept (hnames : WellNamed tree) :
    HoldsDirectory (directoryTree c tree).root names ↔ KeptDirectory c tree names := by
  rw [directoryTree_eq, holdsDirectory_foldl_addVisit]
  constructor
  · rintro (rfl | ⟨v, hv, hstops, hle, hdirectory⟩)
    · exact .root
    · -- the names lead to the place itself, or to a directory on the way
      by_cases hwhole : names = v.names
      · have hhere : v.isDirectory = true := hdirectory.resolve_right fun hne => hne hwhole
        exact (keptDirectory_iff hnames).2 (.inr ⟨v, hv, hstops, hhere, hwhole.symm⟩)
      · exact keptDirectory_on_way hnames hv hle hwhole
  · intro h
    rcases (keptDirectory_iff hnames).1 h with rfl | ⟨v, hv, hstops, hdirectory, rfl⟩
    · exact .inl rfl
    · exact .inr ⟨v, hv, hstops, List.prefix_refl _, .inl hdirectory⟩

/-- **What else a structure holds are the files in these.** -/
theorem holds_iff_kept (hnames : WellNamed tree) : Holds (directoryTree c tree).root names ↔
    KeptDirectory c tree names ∨ KeptFile c tree names := by
  rw [directoryTree_eq, holds_foldl_addVisit]
  constructor
  · rintro (rfl | ⟨v, hv, hstops, hle⟩)
    · exact .inl .root
    · by_cases hwhole : names = v.names
      · cases hdirectory : v.isDirectory with
        | true =>
          exact .inl ((keptDirectory_iff hnames).2 (.inr ⟨v, hv, hstops, hdirectory, hwhole.symm⟩))
        | false =>
          exact .inr ((keptFile_iff hnames).2 ⟨v, hv, hstops, hdirectory, hwhole.symm⟩)
      · exact .inl (keptDirectory_on_way hnames hv hle hwhole)
  · rintro (h | h)
    · rcases (keptDirectory_iff hnames).1 h with rfl | ⟨v, hv, hstops, -, rfl⟩
      · exact .inl rfl
      · exact .inr ⟨v, hv, hstops, List.prefix_refl _⟩
    · obtain ⟨v, hv, hstops, -, rfl⟩ := (keptFile_iff hnames).1 h
      exact .inr ⟨v, hv, hstops, List.prefix_refl _⟩

theorem KeptFile.not_keptDirectory (hnames : WellNamed tree) (h : KeptFile c tree names) :
    ¬KeptDirectory c tree names := by
  obtain ⟨habove, hfile⟩ := h
  intro hdirectory
  exact hfile.not_hasDirectory hnames (keptDirectory_concat_iff.1 hdirectory).2.1

/-- Names lead to a file of the structure where there is one that is kept. -/
theorem at?_eq_file_iff_kept (hnames : WellNamed tree) :
    (directoryTree c tree).root.at? names = some .file ↔ KeptFile c tree names := by
  rw [TreeEntry.at?_eq_file_iff, holds_iff_kept hnames, holdsDirectory_iff_kept hnames]
  constructor
  · rintro ⟨h, hnot⟩
    exact h.resolve_left hnot
  · intro h
    exact ⟨.inr h, h.not_keptDirectory hnames⟩

/-- A scan has a file where it comes to something else than a directory or a broken link. -/
theorem at?_directoryTree (hnames : WellNamed tree) (hreach : Reaches tree above name node)
    (hbroken : node ≠ .broken) (hnode : ∀ entries, node ≠ .directory entries)
    (habove : ∀ n ∈ above, c.excludesDirectory n = false) :
    HoldsDirectory (directoryTree c tree).root above ∧
    (directoryTree c tree).root.at? (above ++ [name]) = some .file := by
  have hkept : KeptDirectory c tree above := .of_reaches hreach habove
  exact ⟨(holdsDirectory_iff_kept hnames).2 hkept,
    (at?_eq_file_iff_kept hnames).2 (.within hkept ⟨node, hreach, hbroken, hnode⟩)⟩

/-- Trees with the same places have the same structure. -/
theorem directoryTree_congr (hnames : WellNamed tree) (hnames' : WellNamed tree')
    (h : SamePlaces tree tree') : directoryTree c tree = directoryTree c tree' := by
  refine DirectoryTree.eq_of_leads ordered_directoryTree ordered_directoryTree (fun names => ?_)
    fun names => ?_
  · rw [holds_iff_kept hnames, holds_iff_kept hnames', keptDirectory_congr h, keptFile_congr h]
  · rw [holdsDirectory_iff_kept hnames, holdsDirectory_iff_kept hnames', keptDirectory_congr h]

/-! ## What is looked up -/

theorem properSegments_pathOf (hslash : ∀ n ∈ names, '/' ∉ n.toList)
    (hempty : ∀ n ∈ names, n ≠ "") : Path.properSegments (pathOf names) = names := by
  by_cases hne : names = []
  · subst hne
    rfl
  · rw [Path.properSegments, segments_pathOf hne hslash]
    exact List.filter_eq_self.2 fun n hn => decide_eq_true (hempty n hn)

theorem properSegments_of_reaches (hnames : WellNamed tree) (hempty : tree.NamesNonempty)
    (h : Reaches tree above name node) :
    Path.properSegments (pathOf (above ++ [name])) = above ++ [name] :=
  properSegments_pathOf (h.slash_notMem hnames) (h.ne_empty hempty)

theorem KeptDirectory.properSegments (hnames : WellNamed tree) (hempty : tree.NamesNonempty)
    (h : KeptDirectory c tree names) : Path.properSegments (pathOf names) = names := by
  cases h with
  | root => rfl
  | inside habove hdirectory hkept =>
    obtain ⟨entries, hreach⟩ := hdirectory
    exact properSegments_of_reaches hnames hempty hreach

theorem KeptFile.properSegments (hnames : WellNamed tree) (hempty : tree.NamesNonempty)
    (h : KeptFile c tree names) : Path.properSegments (pathOf names) = names := by
  obtain ⟨habove, node, hreach, -⟩ := h
  exact properSegments_of_reaches hnames hempty hreach

/-- A structure is what is left of a tree without the directories that are excluded. -/
structure IsStructureOf (c : Classifier) (tree : WalkTree) (t : DirectoryTree) : Prop where
  /-- Every directory that is kept is found by its path. -/
  found : ∀ names, KeptDirectory c tree names → ∃ d, t.lookup? (pathOf names) = some d
  /-- No other directory is found. -/
  kept : ∀ path d, t.lookup? path = some d → KeptDirectory c tree (Path.properSegments path)
  /-- No name in a directory comes twice. -/
  ascending : ∀ path d, t.lookup? path = some d → Ascending d.entries
  /-- The files in a directory are those of the tree. -/
  files : ∀ names d, KeptDirectory c tree names → t.lookup? (pathOf names) = some d →
    ∀ name, findEntry? name d.entries = some .file ↔ tree.HasFile names name
  /-- The directories in a directory are those of the tree that are not excluded. -/
  directories : ∀ names d, KeptDirectory c tree names → t.lookup? (pathOf names) = some d →
    ∀ name, (∃ inner, findEntry? name d.entries = some (.directory inner)) ↔
      tree.HasDirectory names name ∧ c.excludesDirectory name = false

/-- **A scan for structure prunes.** -/
theorem isStructureOf_directoryTree (hnames : WellNamed tree) (hempty : tree.NamesNonempty) :
    IsStructureOf c tree (directoryTree c tree) where
  found names h := by
    obtain ⟨d, hlookup, -⟩ := DirectoryTree.exists_lookup? (h.properSegments hnames hempty)
      ((holdsDirectory_iff_kept hnames).2 h)
    exact ⟨d, hlookup⟩
  kept path d h := by
    rw [← holdsDirectory_iff_kept hnames]
    exact ⟨d.root, DirectoryTree.descend?_eq_some.1 h, d.entries, rfl⟩
  ascending path d h :=
    (ordered_directoryTree.of_at? (DirectoryTree.descend?_eq_some.1 h)).ascending
  files names d h hlookup name := by
    rw [DirectoryTree.findEntry?_of_lookup? (h.properSegments hnames hempty) hlookup,
      at?_eq_file_iff_kept hnames, keptFile_concat_iff, and_iff_right h]
  directories names d h hlookup name := by
    rw [DirectoryTree.findEntry?_of_lookup? (h.properSegments hnames hempty) hlookup,
      ← TreeEntry.holdsDirectory_iff, holdsDirectory_iff_kept hnames, keptDirectory_concat_iff,
      and_iff_right h]

/-- An empty directory that is kept has an empty structure. -/
theorem IsStructureOf.eq_empty (h : IsStructureOf c tree t) {d : DirectoryTree}
    (hkept : KeptDirectory c tree names) (hlookup : t.lookup? (pathOf names) = some d)
    (hbare : ∀ name, ¬tree.HasFile names name ∧ ¬tree.HasDirectory names name) : d = .empty := by
  have hentries : d.entries = [] := by
    refine List.eq_nil_iff_forall_not_mem.2 ?_
    rintro ⟨name, e⟩ he
    have hfound := (h.ascending _ _ hlookup).findEntry?_of_mem he
    cases e with
    | file => exact (hbare name).1 ((h.files _ _ hkept hlookup name).1 hfound)
    | directory inner =>
      have hhas := ((h.directories _ _ hkept hlookup name).1 ⟨inner, hfound⟩).1
      exact (hbare name).2 hhas
  exact congrArg DirectoryTree.mk hentries

/-- Where every directory has a file below it, a structure is that of the paths of the files. -/
theorem directoryTree_eq_ofPaths (hnames : WellNamed tree) (hempty : tree.NamesNonempty)
    (hbelow : ∀ names, KeptDirectory c tree names → names ≠ [] →
      ∃ file, names <+: file ∧ KeptFile c tree file)
    {paths : List String}
    (hpaths : ∀ path, path ∈ paths ↔ ∃ file, KeptFile c tree file ∧ path = pathOf file) :
    directoryTree c tree = .ofPaths paths := by
  -- the segments of the paths are the names of the files that are kept
  have hfiles : ∀ P : List String → Prop, (∃ path ∈ paths, P (Path.properSegments path)) ↔
      ∃ file, KeptFile c tree file ∧ P file := by
    intro P
    constructor
    · rintro ⟨path, hpath, hP⟩
      obtain ⟨file, hkept, rfl⟩ := (hpaths path).1 hpath
      rw [hkept.properSegments hnames hempty] at hP
      exact ⟨file, hkept, hP⟩
    · rintro ⟨file, hkept, hP⟩
      refine ⟨pathOf file, (hpaths _).2 ⟨file, hkept, rfl⟩, ?_⟩
      rwa [hkept.properSegments hnames hempty]
  refine DirectoryTree.eq_of_leads ordered_directoryTree (DirectoryTree.ordered_ofPaths paths)
    (fun names => ?_) fun names => ?_
  · rw [holds_iff_kept hnames, DirectoryTree.holds_ofPaths, hfiles]
    constructor
    · rintro (hkept | hkept)
      · by_cases hne : names = []
        · exact .inl hne
        · obtain ⟨file, hle, hfile⟩ := hbelow names hkept hne
          exact .inr ⟨file, hfile, hle⟩
      · exact .inr ⟨names, hkept, List.prefix_refl _⟩
    · rintro (rfl | ⟨file, hkept, hle⟩)
      · exact .inl .root
      · by_cases hwhole : names = file
        · exact .inr (hwhole ▸ hkept)
        · exact .inl (hkept.keptDirectory_on_way hle hwhole)
  · rw [holdsDirectory_iff_kept hnames, DirectoryTree.holdsDirectory_ofPaths,
      hfiles fun segments => names <+: segments ∧ names ≠ segments]
    constructor
    · intro hkept
      by_cases hne : names = []
      · exact .inl hne
      · obtain ⟨file, hle, hfile⟩ := hbelow names hkept hne
        refine .inr ⟨file, hfile, hle, ?_⟩
        rintro rfl
        exact hfile.not_keptDirectory hnames hkept
    · rintro (rfl | ⟨file, hkept, hle, hne⟩)
      · exact .root
      · exact hkept.keptDirectory_on_way hle hne

end Scan

namespace LocalSource

variable {m : Type → Type} [Monad m] [LawfulMonad m]

/-- A reading of a directory is what is made of the tree that the host finds there. -/
theorem run_tree {α : Type} (host : Host m) (role : ScanRole) (root : String) (follow : Bool)
    (read : WalkTree → α) :
    (do return read (← tree host role root follow) : Hosted m α).run = (do
      match ← host.walk root follow with
      | none => pure (.error (.noDirectory role root))
      | some tree => pure (.ok (read tree))) := by
  rw [LocalSource.tree]
  simp only [ExceptT.run_bind, ExceptT.run_liftM, bind_assoc, bind_map_left]
  refine bind_congr fun found => ?_
  cases found with
  | none => simp
  | some tree => simp

/-- **A scan for structure keeps what is not excluded, and nothing else.** It is made of the tree
that the host finds without following links, whatever the directory is called that it starts at. The
directories in it are those of the tree that neither are excluded nor lie in one that is, and each
has an entry for what is in it except for the excluded directories; an empty one has none. Neither
the order of the walk nor that of the tree shows. Where every directory that is kept has a file
below it, the paths of the files make the same structure, in whatever order and however often they
come. -/
theorem directoryTree_exact (host : Host m) (c : Classifier) (root : String) :
    (directoryTree host c root).run = (do
      match ← host.walk root false with
      | none => pure (.error (.noDirectory .tree root))
      | some tree => pure (.ok (Scan.directoryTree c tree))) ∧
    ∀ tree, WalkTree.WellNamed tree → tree.NamesNonempty →
      Scan.IsStructureOf c tree (Scan.directoryTree c tree) ∧
      (∀ names d, Scan.KeptDirectory c tree names →
        (Scan.directoryTree c tree).lookup? (Scan.pathOf names) = some d →
        (∀ name, ¬tree.HasFile names name ∧ ¬tree.HasDirectory names name) → d = .empty) ∧
      (∀ visits : List Scan.Visit, visits.Perm (Scan.visitsIn c [] tree) →
        visits.foldl (Scan.addVisit c) .empty = Scan.directoryTree c tree) ∧
      (∀ tree', WalkTree.WellNamed tree' → tree.SamePlaces tree' →
        Scan.directoryTree c tree' = Scan.directoryTree c tree) ∧
      ((∀ names, Scan.KeptDirectory c tree names → names ≠ [] →
          ∃ file, names <+: file ∧ Scan.KeptFile c tree file) →
        ∀ paths, (∀ path, path ∈ paths ↔
            ∃ file, Scan.KeptFile c tree file ∧ path = Scan.pathOf file) →
          Scan.directoryTree c tree = .ofPaths paths) := by
  refine ⟨run_tree host .tree root false (Scan.directoryTree c), fun tree hnames hempty => ?_⟩
  have hstructure : Scan.IsStructureOf c tree (Scan.directoryTree c tree) :=
    Scan.isStructureOf_directoryTree hnames hempty
  refine ⟨hstructure, fun names d hkept hlookup => hstructure.eq_empty hkept hlookup,
    fun visits hperm => ?_, fun tree' hnames' hsame => ?_, fun hbelow paths hpaths => ?_⟩
  · rw [Scan.directoryTree_eq]
    exact Scan.foldl_addVisit_congr fun v => hperm.mem_iff
  · exact (Scan.directoryTree_congr hnames hnames' hsame).symm
  · exact Scan.directoryTree_eq_ofPaths hnames hempty hbelow hpaths

theorem nestedTree_namesNonempty : nestedTree.NamesNonempty := by
  have hempty : WalkTree.NamesNonempty [] := .intro (by simp) (by simp)
  have hvenv : WalkTree.NamesNonempty [(.text "node_modules", .directory [])] := by
    refine .intro (by simp) ?_
    simpa using hempty
  have hlib : WalkTree.NamesNonempty
      [(.text "venv", .directory [(.text "node_modules", .directory [])]),
        (.text "util.rs", .file "const N: u8 = 1;".toUTF8 .epoch)] := by
    refine .intro (by simp) ?_
    simpa using hvenv
  refine .intro (by simp [nestedTree]) ?_
  simpa [nestedTree] using hlib

theorem visitsIn_nestedTree : Scan.visitsIn plainRules [] nestedTree =
    [⟨[], .text ".git", .file "gitdir: ../main".toUTF8 .epoch⟩,
      ⟨[], .text "lib", .directory
        [(.text "venv", .directory [(.text "node_modules", .directory [])]),
          (.text "util.rs", .file "const N: u8 = 1;".toUTF8 .epoch)]⟩,
      ⟨["lib"], .text "venv", .directory [(.text "node_modules", .directory [])]⟩,
      ⟨["lib"], .text "util.rs", .file "const N: u8 = 1;".toUTF8 .epoch⟩] := by
  rfl

theorem directoryTree_exact_nestedTree :
    WalkTree.WellNamed nestedTree ∧ nestedTree.NamesNonempty ∧
    Scan.IsStructureOf plainRules nestedTree (Scan.directoryTree plainRules nestedTree) ∧
    Scan.directoryTree plainRules nestedTree.reverse = Scan.directoryTree plainRules nestedTree ∧
    Scan.directoryTree plainRules nestedTree = .ofPaths ["lib/util.rs", ".git"] := by
  have hfile : ∀ file, Scan.KeptFile plainRules nestedTree file ↔
      [".git"] = file ∨ ["lib", "util.rs"] = file := by
    intro file
    rw [Scan.keptFile_iff nestedTree_wellNamed, visitsIn_nestedTree]
    simp [Scan.Visit.stops, Scan.Visit.isDirectory, Scan.Visit.names, FileName.shown]
  have hbelow : ∀ names, Scan.KeptDirectory plainRules nestedTree names → names ≠ [] →
      ∃ file, names <+: file ∧ Scan.KeptFile plainRules nestedTree file := by
    intro names hkept hne
    rw [Scan.keptDirectory_iff nestedTree_wellNamed, visitsIn_nestedTree] at hkept
    obtain rfl : ["lib"] = names := by
      simpa [Scan.Visit.isDirectory, Scan.Visit.stops, Scan.excludes, plainRules,
        Classifier.excludesDirectory, Classifier.alwaysDirectories, Scan.Visit.names,
        FileName.shown, hne] using hkept
    exact ⟨["lib", "util.rs"], by simp, (hfile _).2 (.inr rfl)⟩
  have hpaths : ∀ path, path ∈ ["lib/util.rs", ".git"] ↔
      ∃ file, Scan.KeptFile plainRules nestedTree file ∧ path = Scan.pathOf file := by
    intro path
    simp only [hfile, or_and_right, exists_or, exists_eq_left', List.mem_cons, List.not_mem_nil,
      or_false]
    exact or_comm
  obtain ⟨hstructure, -, -, horder, hofPaths⟩ :=
    (directoryTree_exact MemoryHost.host plainRules "project").2 nestedTree nestedTree_wellNamed
      nestedTree_namesNonempty
  have hperm : nestedTree.Perm nestedTree.reverse := (List.reverse_perm _).symm
  exact ⟨nestedTree_wellNamed, nestedTree_namesNonempty, hstructure,
    horder _ (nestedTree_wellNamed.perm hperm) (.of_perm hperm), hofPaths hbelow _ hpaths⟩

end LocalSource

end SourceDocs
