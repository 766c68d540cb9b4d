import Mathlib.Data.List.Nodup
import SourceDocs.Proofs.Path
import SourceDocs.Scan

set_option autoImplicit false

/-! # Walks: where a scan comes to in a tree

A scan goes through a tree and stops at the directories that are excluded. `visitsIn` lists where it
comes to, and the findings of a scan are what it finds there (`findingsIn_eq`). In a tree with
proper names these are the places above which no directory is excluded (`mem_visitsIn_iff`), each of
them once (`nodup_names_visitsIn`). -/

namespace SourceDocs

variable {c : Classifier} {tree : WalkTree} {name : FileName} {node : WalkNode}

/-! ## Trees -/

/-- What holds of a tree if it holds of the directories in it holds of all trees. -/
theorem WalkTree.induction {P : WalkTree → Prop}
    (step : ∀ tree : WalkTree,
      (∀ name entries, (name, WalkNode.directory entries) ∈ tree → P entries) → P tree)
    (tree : WalkTree) : P tree := by
  apply step
  intro name entries hmem
  have hlt : sizeOf entries < sizeOf tree := by
    have hentry := List.sizeOf_lt_of_mem hmem
    simp only [Prod.mk.sizeOf_spec, WalkNode.directory.sizeOf_spec] at hentry
    omega
  exact WalkTree.induction step entries
termination_by sizeOf tree

/-- A name that is one segment of a path. -/
def FileName.IsSegment (name : FileName) : Prop :=
  ∃ s, name = .text s ∧ '/' ∉ s.toList

theorem FileName.IsSegment.shown_inj {name name' : FileName} (h : name.IsSegment)
    (h' : name'.IsSegment) (hshown : name.shown = name'.shown) : name = name' := by
  obtain ⟨s, rfl, -⟩ := h
  obtain ⟨s', rfl, -⟩ := h'
  exact congrArg FileName.text hshown

/-- In every directory of a tree the names are segments, and no two are the same. -/
inductive WalkTree.WellNamed : WalkTree → Prop
  | intro {tree : WalkTree} (distinct : (tree.map Prod.fst).Nodup)
      (segments : ∀ e ∈ tree, e.1.IsSegment)
      (below : ∀ name entries, (name, WalkNode.directory entries) ∈ tree →
        WalkTree.WellNamed entries) :
      WalkTree.WellNamed tree

/-- What a tree holds under a name, below the directories that lead there. -/
inductive WalkTree.Reaches : WalkTree → List String → String → WalkNode → Prop
  | here {tree : WalkTree} {name : String} {node : WalkNode} :
      (.text name, node) ∈ tree → WalkTree.Reaches tree [] name node
  | inside {tree entries : WalkTree} {first name : String} {above : List String} {node : WalkNode} :
      (.text first, .directory entries) ∈ tree → WalkTree.Reaches entries above name node →
      WalkTree.Reaches tree (first :: above) name node

namespace WalkTree

theorem WellNamed.node_unique (hnames : WellNamed tree) {e e' : FileName × WalkNode} (he : e ∈ tree)
    (he' : e' ∈ tree) (h : e.1 = e'.1) : e = e' := by
  obtain ⟨hdistinct, -, -⟩ := hnames
  exact List.inj_on_of_nodup_map hdistinct he he' h

/-- There is one thing under a name. -/
theorem Reaches.unique (hnames : WellNamed tree) {above : List String} {name : String}
    {node' : WalkNode} (h : Reaches tree above name node) (h' : Reaches tree above name node') :
    node = node' := by
  induction h with
  | here hmem =>
    cases h' with
    | here hmem' =>
      have heq := hnames.node_unique hmem hmem' rfl
      exact congrArg Prod.snd heq
  | inside hmem hreach ih =>
    cases h' with
    | inside hmem' hreach' =>
      have heq := hnames.node_unique hmem hmem' rfl
      cases heq
      obtain ⟨-, -, hbelow⟩ := hnames
      exact ih (hbelow _ _ hmem) hreach'

/-- The names on the way are segments. -/
theorem Reaches.slash_notMem (hnames : WellNamed tree) {above : List String} {name : String}
    (h : Reaches tree above name node) : ∀ n ∈ above ++ [name], '/' ∉ n.toList := by
  induction h with
  | here hmem =>
    obtain ⟨-, hsegments, -⟩ := hnames
    obtain ⟨s, hs, hslash⟩ := hsegments _ hmem
    cases hs
    intro n hn
    obtain rfl : n = _ := by simpa using hn
    exact hslash
  | inside hmem hreach ih =>
    obtain ⟨-, hsegments, hbelow⟩ := hnames
    obtain ⟨s, hs, hslash⟩ := hsegments _ hmem
    cases hs
    intro n hn
    rcases List.mem_cons.1 hn with rfl | hn
    · exact hslash
    · exact ih (hbelow _ _ hmem) n hn

/-- What leads to a place are directories. -/
theorem Reaches.directory {above after : List String} {d name : String}
    (h : Reaches tree (above ++ d :: after) name node) :
    ∃ entries, Reaches tree above d (.directory entries) := by
  induction above generalizing tree with
  | nil =>
    cases h with
    | inside hmem hreach => exact ⟨_, .here hmem⟩
  | cons first above ih =>
    cases h with
    | inside hmem hreach =>
      obtain ⟨entries, hentries⟩ := ih hreach
      exact ⟨entries, .inside hmem hentries⟩

end WalkTree

/-! ## Paths -/

namespace Scan

theorem segments_pathOf {names : List String} (hne : names ≠ [])
    (hslash : ∀ n ∈ names, '/' ∉ n.toList) : Path.segments (pathOf names) = names :=
  Path.segments_intercalate hne hslash

/-- Names that are segments are told from their path. -/
theorem pathOf_inj {names names' : List String} (hne : names ≠ []) (hne' : names' ≠ [])
    (hslash : ∀ n ∈ names, '/' ∉ n.toList) (hslash' : ∀ n ∈ names', '/' ∉ n.toList)
    (h : pathOf names = pathOf names') : names = names' := by
  rw [← segments_pathOf hne hslash, h, segments_pathOf hne' hslash']

/-! ## Visits -/

open WalkTree (WellNamed Reaches)

/-- A place that a scan comes to: the directories that lead there, a name, and what is found. -/
structure Visit where
  above : List String
  name : FileName
  node : WalkNode

namespace Visit

/-- The names that lead to a place. -/
def names (v : Visit) : List String := v.above ++ [v.name.shown]

/-- The path of a place. -/
def path (v : Visit) : String := pathOf v.names

/-- What a scan for source files finds at a place. -/
def finding? (c : Classifier) (v : Visit) : Option (Except SkippedFile SourceFile) :=
  match v.node with
  | .file content _ => some (examine c v.path content)
  | .directory _ =>
    if excludes c v.name then some (.error { path := v.path, reason := .excludedDirectory })
    else none
  | .other => none
  | .broken => some (.error { path := v.path, reason := .unreadable })

end Visit

mutual

/-- The places that a scan comes to from a name in the directory `above`. -/
def visitsAt (c : Classifier) (above : List String) (name : FileName) : WalkNode → List Visit
  | .directory entries =>
    ⟨above, name, .directory entries⟩ ::
      if excludes c name then [] else visitsIn c (above ++ [name.shown]) entries
  | .file content modified => [⟨above, name, .file content modified⟩]
  | .other => [⟨above, name, .other⟩]
  | .broken => [⟨above, name, .broken⟩]

/-- The places that a scan comes to in the directory `above`. -/
def visitsIn (c : Classifier) (above : List String) :
    List (FileName × WalkNode) → List Visit
  | [] => []
  | (name, node) :: rest => visitsAt c above name node ++ visitsIn c above rest

end

variable {above : List String} {v : Visit}

theorem visitsIn_eq_flatMap :
    visitsIn c above tree = tree.flatMap fun e => visitsAt c above e.1 e.2 := by
  induction tree with
  | nil => rw [visitsIn, List.flatMap_nil]
  | cons e rest ih =>
    obtain ⟨name, node⟩ := e
    rw [visitsIn, ih, List.flatMap_cons]

theorem findingsIn_eq_flatMap {names : List String} :
    findingsIn c names tree =
      tree.flatMap fun e => findingsAt c (names ++ [e.1.shown]) e.1 e.2 := by
  induction tree with
  | nil => rw [findingsIn, List.flatMap_nil]
  | cons e rest ih =>
    obtain ⟨name, node⟩ := e
    rw [findingsIn, ih, List.flatMap_cons]

/-- **A scan finds what there is at the places that it comes to.** -/
theorem findingsIn_eq (c : Classifier) (above : List String) (tree : WalkTree) :
    findingsIn c above tree = (visitsIn c above tree).filterMap (Visit.finding? c) := by
  induction tree using WalkTree.induction generalizing above with
  | step tree ih =>
    rw [findingsIn_eq_flatMap, visitsIn_eq_flatMap, List.filterMap_flatMap]
    refine List.flatMap_congr fun e he => ?_
    obtain ⟨name, node⟩ := e
    cases node with
    | file content modified => simp [findingsAt, visitsAt, Visit.finding?, Visit.path, Visit.names]
    | directory entries =>
      by_cases hex : excludes c name
      · simp [findingsAt, visitsAt, Visit.finding?, Visit.path, Visit.names, hex]
      · simp [findingsAt, visitsAt, Visit.finding?, hex, ih name entries he]
    | other => simp [findingsAt, visitsAt, Visit.finding?]
    | broken => simp [findingsAt, visitsAt, Visit.finding?, Visit.path, Visit.names]

/-! ## Membership -/

theorem mem_visitsAt :
    v ∈ visitsAt c above name node ↔
      v = ⟨above, name, node⟩ ∨ ∃ entries, node = .directory entries ∧ excludes c name = false ∧
        v ∈ visitsIn c (above ++ [name.shown]) entries := by
  cases node with
  | directory entries =>
    by_cases hex : excludes c name
    · simp [visitsAt, hex]
    · simp [visitsAt, hex]
  | file content modified => simp [visitsAt]
  | other => simp [visitsAt]
  | broken => simp [visitsAt]

theorem mem_visitsIn :
    v ∈ visitsIn c above tree ↔ ∃ e ∈ tree, v ∈ visitsAt c above e.1 e.2 := by
  rw [visitsIn_eq_flatMap, List.mem_flatMap]

/-- A place below a directory is reached through it. -/
theorem mem_visitsIn_of_reaches (above : List String) {inner : List String} {last : String}
    (h : Reaches tree inner last node) (hinner : ∀ n ∈ inner, c.excludesDirectory n = false) :
    ⟨above ++ inner, .text last, node⟩ ∈ visitsIn c above tree := by
  induction h generalizing above with
  | here hmem =>
    rw [List.append_nil]
    exact mem_visitsIn.2 ⟨_, hmem, mem_visitsAt.2 (Or.inl rfl)⟩
  | @inside tree entries first last inner node hmem hreach ih =>
    have hrest := ih (above ++ [first]) fun n hn => hinner n (List.mem_cons_of_mem _ hn)
    rw [List.append_assoc, List.singleton_append] at hrest
    refine mem_visitsIn.2 ⟨_, hmem, mem_visitsAt.2 (Or.inr ⟨entries, rfl, ?_, hrest⟩)⟩
    exact hinner first List.mem_cons_self

theorem reaches_of_mem_visitsIn (hnames : WellNamed tree) (h : v ∈ visitsIn c above tree) :
    ∃ inner last, v.above = above ++ inner ∧ v.name = .text last ∧ Reaches tree inner last v.node ∧
      ∀ n ∈ inner, c.excludesDirectory n = false := by
  induction tree using WalkTree.induction generalizing above with
  | step tree ih =>
    obtain ⟨-, hsegments, hbelow⟩ := hnames
    obtain ⟨⟨name, node⟩, he, hv⟩ := mem_visitsIn.1 h
    obtain ⟨s, rfl, -⟩ := hsegments _ he
    rcases mem_visitsAt.1 hv with rfl | ⟨entries, rfl, hex, hv⟩
    · exact ⟨[], s, (List.append_nil _).symm, rfl, .here he, by simp⟩
    · obtain ⟨inner, last, habove, hname, hreach, hinner⟩ := ih _ _ he (hbelow _ _ he) hv
      refine ⟨s :: inner, last, ?_, hname, .inside he hreach, ?_⟩
      · rw [habove]
        exact List.append_assoc _ _ _
      · exact List.forall_mem_cons.2 ⟨hex, hinner⟩

/-- **A scan comes to the places above which no directory is excluded.** -/
theorem mem_visitsIn_iff (hnames : WellNamed tree) :
    v ∈ visitsIn c [] tree ↔ ∃ last, v.name = .text last ∧ Reaches tree v.above last v.node ∧
      ∀ n ∈ v.above, c.excludesDirectory n = false := by
  constructor
  · intro h
    obtain ⟨inner, last, habove, hname, hreach, hinner⟩ := reaches_of_mem_visitsIn hnames h
    rw [List.nil_append] at habove
    rw [habove]
    exact ⟨last, hname, hreach, hinner⟩
  · obtain ⟨above, name, node⟩ := v
    rintro ⟨last, rfl, hreach, habove⟩
    exact mem_visitsIn_of_reaches [] hreach habove

/-! ## No place twice -/

/-- What is gathered at some of the places, each under the path of its place, has no path that the
places have not, and none more often. -/
theorem map_filterMap_sublist {α : Type} {find? : Visit → Option α} {key : α → String}
    (h : ∀ v a, find? v = some a → key a = v.path) {visits : List Visit} :
    ((visits.filterMap find?).map key).Sublist (visits.map Visit.path) := by
  induction visits with
  | nil => exact List.Sublist.refl _
  | cons v rest ih =>
    cases hfound : find? v with
    | none =>
      rw [List.filterMap_cons_none hfound]
      exact ih.cons _
    | some a =>
      rw [List.filterMap_cons_some hfound, List.map_cons, h v a hfound]
      exact ih.cons_cons _

theorem above_prefix_of_mem_visitsIn (h : v ∈ visitsIn c above tree) : above <+: v.above := by
  induction tree using WalkTree.induction generalizing above with
  | step tree ih =>
    obtain ⟨⟨name, node⟩, he, hv⟩ := mem_visitsIn.1 h
    rcases mem_visitsAt.1 hv with rfl | ⟨entries, rfl, -, hv⟩
    · exact List.prefix_refl _
    · exact (List.prefix_append _ _).trans (ih _ _ he hv)

theorem names_prefix_of_mem_visitsAt (h : v ∈ visitsAt c above name node) :
    above ++ [name.shown] <+: v.names := by
  rcases mem_visitsAt.1 h with rfl | ⟨entries, -, -, hv⟩
  · exact List.prefix_refl _
  · exact (above_prefix_of_mem_visitsIn hv).trans (List.prefix_append _ _)

theorem nodup_names_visitsIn (hnames : WellNamed tree) :
    ((visitsIn c above tree).map Visit.names).Nodup := by
  induction tree using WalkTree.induction generalizing above with
  | step tree ih =>
    obtain ⟨hdistinct, hsegments, hbelow⟩ := hnames
    rw [visitsIn_eq_flatMap, List.map_flatMap, List.nodup_flatMap]
    constructor
    · rintro ⟨name, node⟩ he
      cases node with
      | file content modified => simp [visitsAt]
      | other => simp [visitsAt]
      | broken => simp [visitsAt]
      | directory entries =>
        by_cases hex : excludes c name
        · simp [visitsAt, hex]
        · have hentries : ((visitsIn c (above ++ [name.shown]) entries).map Visit.names).Nodup :=
            ih _ _ he (hbelow _ _ he)
          simp only [visitsAt, hex, Bool.false_eq_true, if_false, List.map_cons, List.nodup_cons]
          refine ⟨?_, hentries⟩
          -- what is below a directory has more names than the directory
          intro hmem
          obtain ⟨v, hv, heq⟩ := List.mem_map.1 hmem
          have hlen := (above_prefix_of_mem_visitsIn hv).length_le
          have hsame := congrArg List.length heq
          simp only [Visit.names, List.length_append, List.length_singleton] at hlen hsame
          omega
    · -- what is under two names differs where these do
      have hpairs : tree.Pairwise fun e e' => e.1 ≠ e'.1 := List.pairwise_map.1 hdistinct
      refine hpairs.imp_of_mem fun {e e'} he he' hne names hn hn' => hne ?_
      obtain ⟨v, hv, rfl⟩ := List.mem_map.1 hn
      obtain ⟨v', hv', heq⟩ := List.mem_map.1 hn'
      have hprefix := names_prefix_of_mem_visitsAt hv
      have hprefix' := names_prefix_of_mem_visitsAt hv'
      rw [heq] at hprefix'
      have hsame := (List.prefix_of_prefix_length_le hprefix hprefix' (by simp)).eq_of_length (by simp)
      have hshown : e.1.shown = e'.1.shown := by simpa using hsame
      exact (hsegments _ he).shown_inj (hsegments _ he') hshown

end Scan

end SourceDocs
