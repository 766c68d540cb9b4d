import Mathlib.Data.List.Forall2
import SourceDocs.Proofs.Command.Document

set_option autoImplicit false

/-! # Links: what is known about files behind them

A walk that does not follow links finds what one that does finds, except behind links
(`FileSystem.walk?_unfollowed`). Source files may be read with links followed, while the metadata
and the structure are always read without. So prompts know about a source file what they know about
any if no name on its way is a link. Otherwise there is no metadata of it, and nothing about its
directory unless it is itself the link (`LocalSource.links_hide_context`). -/

namespace SourceDocs

namespace WalkTree

/-- The first entry is what a walk finds without following links where one that follows them finds
    the second. -/
inductive Unfollowed : FileName × WalkNode → FileName × WalkNode → Prop
  | file {name : FileName} {content : ByteArray} {modified : Instant} :
      Unfollowed (name, .file content modified) (name, .file content modified)
  | directory {name : FileName} {entries entries' : List (FileName × WalkNode)}
      (h : List.Forall₂ Unfollowed entries entries') :
      Unfollowed (name, .directory entries) (name, .directory entries')
  | broken {name : FileName} : Unfollowed (name, .broken) (name, .broken)
  | link {name : FileName} {node : WalkNode} : Unfollowed (name, .other) (name, node)

/-- One of the names on a way through a tree is that of a link. -/
def Linked (tree : WalkTree) (names : List String) : Prop :=
  ∃ before name after, names = before ++ name :: after ∧ Reaches tree before name .other

variable {plain followed : WalkTree} {above : List String} {name : String} {node : WalkNode}

/-! ## Names -/

theorem Unfollowed.fst {e e' : FileName × WalkNode} (h : Unfollowed e e') : e.1 = e'.1 := by
  cases h <;> rfl

theorem map_fst_of_unfollowed (h : List.Forall₂ Unfollowed plain followed) :
    plain.map Prod.fst = followed.map Prod.fst := by
  induction h with
  | nil => rfl
  | cons hentry _ ih => rw [List.map_cons, List.map_cons, hentry.fst, ih]

theorem exists_unfollowed (h : List.Forall₂ Unfollowed plain followed) {e' : FileName × WalkNode}
    (he' : e' ∈ followed) : ∃ e ∈ plain, Unfollowed e e' := by
  induction h with
  | nil => cases he'
  | cons hentry _ ih =>
    rcases List.mem_cons.1 he' with rfl | he'
    · exact ⟨_, List.mem_cons_self, hentry⟩
    · obtain ⟨e, he, hentry⟩ := ih he'
      exact ⟨e, List.mem_cons_of_mem _ he, hentry⟩

theorem exists_followed (h : List.Forall₂ Unfollowed plain followed) {e : FileName × WalkNode}
    (he : e ∈ plain) : ∃ e' ∈ followed, Unfollowed e e' := by
  induction h with
  | nil => cases he
  | cons hentry _ ih =>
    rcases List.mem_cons.1 he with rfl | he
    · exact ⟨_, List.mem_cons_self, hentry⟩
    · obtain ⟨e', he', hentry⟩ := ih he
      exact ⟨e', List.mem_cons_of_mem _ he', hentry⟩

theorem WellNamed.of_unfollowed (h : List.Forall₂ Unfollowed plain followed)
    (hnames : WellNamed followed) : WellNamed plain := by
  induction plain using WalkTree.induction generalizing followed with
  | step plain ih =>
    obtain ⟨hdistinct, hsegments, hbelow⟩ := hnames
    refine .intro (map_fst_of_unfollowed h ▸ hdistinct) (fun e he => ?_) fun name entries he => ?_
    · obtain ⟨e', he', hentry⟩ := exists_followed h he
      exact hentry.fst ▸ hsegments e' he'
    · obtain ⟨e', he', hentry⟩ := exists_followed h he
      cases hentry with
      | directory hentries => exact ih name entries he hentries (hbelow _ _ he')

/-- Without following links nothing more is found. -/
theorem Reaches.exists_followed (h : List.Forall₂ Unfollowed plain followed)
    (hreach : Reaches plain above name node) : ∃ node', Reaches followed above name node' := by
  induction hreach generalizing followed with
  | here hmem =>
    obtain ⟨⟨name', node'⟩, he', hentry⟩ := WalkTree.exists_followed h hmem
    obtain rfl := hentry.fst
    exact ⟨node', .here he'⟩
  | inside hmem _ ih =>
    obtain ⟨e', he', hentry⟩ := WalkTree.exists_followed h hmem
    cases hentry with
    | directory hentries =>
      obtain ⟨node', hnode'⟩ := ih hentries
      exact ⟨node', .inside he' hnode'⟩

theorem NamesNonempty.of_unfollowed (h : List.Forall₂ Unfollowed plain followed)
    (hempty : followed.NamesNonempty) : plain.NamesNonempty := by
  intro above name node hreach
  obtain ⟨node', hnode'⟩ := hreach.exists_followed h
  exact hempty _ _ _ hnode'

/-! ## What is behind links -/

/-- What is found by following links is found without, unless there is a link on the way. -/
theorem Reaches.linked_or_unfollowed (h : List.Forall₂ Unfollowed plain followed)
    (hreach : Reaches followed above name node) :
    plain.Linked above ∨
      ∃ node', Reaches plain above name node' ∧ Unfollowed (.text name, node') (.text name, node) := by
  induction hreach generalizing plain with
  | here hmem =>
    obtain ⟨⟨name', node'⟩, he, hentry⟩ := exists_unfollowed h hmem
    obtain rfl := hentry.fst
    exact .inr ⟨node', .here he, hentry⟩
  | @inside _ _ first _ _ _ hmem _ ih =>
    obtain ⟨⟨name', node'⟩, he, hentry⟩ := exists_unfollowed h hmem
    cases hentry with
    | link => exact .inl ⟨[], first, _, rfl, .here he⟩
    | directory hentries =>
      rcases ih hentries with ⟨before, link, after, rfl, hlink⟩ | ⟨node', hnode', hentry⟩
      · exact .inl ⟨first :: before, link, after, rfl, .inside he hlink⟩
      · exact .inr ⟨node', .inside he hnode', hentry⟩

/-- Nothing is found behind a link that is not followed. -/
theorem Reaches.not_linked (hnames : WellNamed plain) (hreach : Reaches plain above name node) :
    ¬ plain.Linked above := by
  rintro ⟨before, link, after, rfl, hlink⟩
  obtain ⟨entries, hentries⟩ := hreach.directory
  cases hlink.unique hnames hentries

theorem Linked.append (h : plain.Linked above) (more : List String) :
    plain.Linked (above ++ more) := by
  obtain ⟨before, link, after, rfl, hlink⟩ := h
  exact ⟨before, link, after ++ more, by rw [List.append_assoc, List.cons_append], hlink⟩

/-- A way ends at a link if there is one on it. -/
theorem linked_concat_iff (hnames : WellNamed plain) (hreach : Reaches plain above name node) :
    plain.Linked (above ++ [name]) ↔ node = .other := by
  constructor
  · rintro ⟨before, link, after, hsplit, hlink⟩
    rcases List.eq_nil_or_concat after with rfl | ⟨rest, last, rfl⟩
    · obtain ⟨rfl, hname⟩ := List.append_inj' hsplit rfl
      cases hname
      exact hreach.unique hnames hlink
    · rw [List.concat_eq_append, ← List.cons_append, ← List.append_assoc] at hsplit
      obtain ⟨rfl, -⟩ := List.append_inj' hsplit rfl
      exact absurd ⟨before, link, rest, rfl, hlink⟩ (hreach.not_linked hnames)
  · rintro rfl
    exact ⟨above, name, [], rfl, hreach⟩

/-- A file without links on its way is found without following any. -/
theorem Reaches.file_of_not_linked (h : List.Forall₂ Unfollowed plain followed)
    (hnames : WellNamed plain) {content : ByteArray} {modified : Instant}
    (hfile : Reaches followed above name (.file content modified))
    (hclear : ¬ plain.Linked (above ++ [name])) :
    Reaches plain above name (.file content modified) := by
  rcases hfile.linked_or_unfollowed h with hlinked | ⟨node, hnode, hentry⟩
  · exact absurd (hlinked.append [name]) hclear
  · cases hentry with
    | link => exact absurd ((linked_concat_iff hnames hnode).2 rfl) hclear
    | file => exact hnode

end WalkTree

/-! ## Walks of one directory -/

namespace FileSystem

open WalkTree (Unfollowed)

/-- The two walks stay together until there is a link. -/
theorem walkNode_unfollowed (fs : FileSystem) (depth : Nat) (above : List (List FileName))
    (here : List FileName) (name : FileName) (node : FileNode) :
    Unfollowed (name, fs.walkNode false depth above here node)
      (name, fs.walkNode true depth above here node) := by
  induction depth generalizing above here name node with
  | zero =>
    cases node with
    | file content modified => exact .file
    | directory entries => exact .broken
    | link target => exact .broken
  | succ depth ih =>
    cases node with
    | file content modified => exact .file
    | link target => exact .link
    | directory entries =>
      rw [walkNode, walkNode]
      refine .directory ?_
      rw [List.forall₂_map_left_iff, List.forall₂_map_right_iff, List.forall₂_same]
      exact fun e _ => ih _ _ _ _

theorem walk?_unfollowed {fs : FileSystem} {path : String} {followed : WalkTree}
    (h : fs.walk? true path = some followed) :
    ∃ plain, fs.walk? false path = some plain ∧ List.Forall₂ Unfollowed plain followed := by
  obtain ⟨here, hhere, hrest⟩ := Option.bind_eq_some_iff.1 h
  split at hrest
  · rename_i entries hentries
    cases hrest
    have hplain : fs.walk? false path = some (entries.map fun e =>
        (e.1, fs.walkNode false fs.depthBound [here] (here ++ [e.1]) e.2)) := by
      unfold walk?
      rw [hhere, Option.bind_eq_bind, Option.bind_some, hentries]
      rfl
    refine ⟨_, hplain, ?_⟩
    rw [List.forall₂_map_left_iff, List.forall₂_map_right_iff, List.forall₂_same]
    exact fun e _ => walkNode_unfollowed fs _ _ _ _ _
  · cases hrest

end FileSystem

/-! ## What is known -/

namespace Scan

open WalkTree (WellNamed Reaches NamesNonempty Unfollowed)
open TreeEntry (Holds HoldsDirectory)

variable {c : Classifier} {plain followed tree : WalkTree} {above : List String} {name : String}
  {node : WalkNode}

/-- What has metadata is a file that the scan comes to. -/
theorem reaches_of_get?_metadata (hnames : WellNamed tree) {m : FileMetadata}
    (hslash : ∀ n ∈ above ++ [name], '/' ∉ n.toList)
    (h : (metadata c tree).get? (pathOf (above ++ [name])) = some m) :
    ∃ content modified, Reaches tree above name (.file content modified) := by
  have hmem := SortedMap.mem_of_mem_ofList (SortedMap.mem_entries_iff.2 h)
  rw [metadataIn_eq] at hmem
  obtain ⟨v, hv, hfound⟩ := List.mem_filterMap.1 hmem
  obtain ⟨last, hlast, hreach, -⟩ := (mem_visitsIn_iff hnames).1 hv
  have hpath : pathOf (v.above ++ [last]) = pathOf (above ++ [name]) := by
    have hkey := fst_of_metadata? hfound
    rw [Visit.path, Visit.names, hlast] at hkey
    exact hkey.symm
  obtain ⟨habove, hname⟩ := List.append_inj' (pathOf_inj (by simp) (by simp)
    (hreach.slash_notMem hnames) hslash hpath) rfl
  rw [habove, List.singleton_inj.1 hname] at hreach
  unfold Visit.metadata? at hfound
  split at hfound
  · rename_i content modified hnode
    exact ⟨content, modified, hnode ▸ hreach⟩
  · cases hfound

/-- What is held by a structure was found by the walk. -/
theorem reaches_of_holds_directoryTree (hnames : WellNamed tree)
    (h : Holds (directoryTree c tree).root (above ++ [name])) :
    ∃ node, Reaches tree above name node := by
  rcases (holds_iff_kept hnames).1 h with hkept | hkept
  · obtain ⟨-, ⟨entries, hreach⟩, -⟩ := keptDirectory_concat_iff.1 hkept
    exact ⟨_, hreach⟩
  · obtain ⟨-, node, hreach, -⟩ := keptFile_concat_iff.1 hkept
    exact ⟨node, hreach⟩

/-- A structure that was read without following links has a file by its name, even where the file is
    a link, if there is no link above it. -/
theorem at?_directoryTree_of_not_linked (h : List.Forall₂ Unfollowed plain followed)
    (hnames : WellNamed plain) {content : ByteArray} {modified : Instant}
    (hfile : Reaches followed above name (.file content modified))
    (habove : ∀ n ∈ above, c.excludesDirectory n = false) (hclear : ¬ plain.Linked above) :
    HoldsDirectory (directoryTree c plain).root above ∧
      (directoryTree c plain).root.at? (above ++ [name]) = some .file := by
  rcases hfile.linked_or_unfollowed h with hlinked | ⟨node, hnode, hentry⟩
  · exact absurd hlinked hclear
  · have hbroken : node ≠ .broken := by
      rintro rfl
      cases hentry
    have hnot : ∀ entries, node ≠ .directory entries := by
      rintro entries rfl
      cases hentry
    exact at?_directoryTree hnames hnode hbroken hnot habove

/-- What stores that were read without following links tell about a file that was found by following
    them. `above` and `name` are the names in its path. -/
structure KnownPast (plain : WalkTree) (stores : ContextStores) (f : SourceFile)
    (above : List String) (name : String) : Prop where
  path_eq : f.path = pathOf (above ++ [name])
  /-- As much as about any file, if there is no link on its way. -/
  covered : ¬ plain.Linked (above ++ [name]) → ∃ m d, Covers stores f m d
  /-- There is metadata in no other case. -/
  metadata_iff : (∃ m, stores.metadata.get? f.path = some m) ↔ ¬ plain.Linked (above ++ [name])
  /-- Its name is in its directory if there is no link on the way to that. -/
  entry_iff : (∃ d, stores.tree.lookup? (Path.upToLastSlash f.path) = some d ∧
    findEntry? (Path.afterLastSlash f.path) d.entries ≠ none) ↔ ¬ plain.Linked above

theorem kept_knownPast (h : List.Forall₂ Unfollowed plain followed) (hnames : WellNamed followed)
    (hempty : followed.NamesNonempty) {f : SourceFile} (hf : f ∈ (ingest c followed).1) :
    ∃ above name, KnownPast plain
      { metadata := metadata c plain, tree := directoryTree c plain } f above name := by
  have hplain : WellNamed plain := .of_unfollowed h hnames
  obtain ⟨above, name, content, modified, hfile, hpath, hcheck, hdecode, hsniff⟩ :=
    (mem_files hnames).1 hf
  have hslash := hfile.slash_notMem hnames
  have habove : ∀ n ∈ above, c.excludesDirectory n = false := fun n hn =>
    excludesDirectory_of_checkPath? (by simp) hslash (hpath ▸ hcheck) n
      (List.mem_append_left _ hn)
  obtain ⟨hsegments, hlast⟩ := pathOf_lastSlash hslash (hfile.ne_empty hempty)
  rw [← hpath] at hsegments hlast
  -- without links, the file is found by both walks, and so it is a source file for both
  have hdirect : ¬ plain.Linked (above ++ [name]) → ∃ m d, Covers
      { metadata := metadata c plain, tree := directoryTree c plain } f m d := fun hclear =>
    kept_covered hplain (hempty.of_unfollowed h) ((mem_files hplain).2 ⟨above, name, content,
      modified, hfile.file_of_not_linked h hplain hclear, hpath, hcheck, hdecode, hsniff⟩)
  refine ⟨above, name, hpath, hdirect, ⟨?_, fun hclear => ?_⟩, ?_, fun hclear => ?_⟩
  · rintro ⟨m, hm⟩ hlinked
    rw [hpath] at hm
    obtain ⟨content, modified, hreach⟩ := reaches_of_get?_metadata hplain hslash hm
    cases (WalkTree.linked_concat_iff hplain hreach).1 hlinked
  · obtain ⟨m, d, hcovers⟩ := hdirect hclear
    exact ⟨m, hcovers.metadata⟩
  · rintro ⟨d, hlookup, hentry⟩
    rw [DirectoryTree.findEntry?_of_lookup? hsegments hlookup, hlast] at hentry
    obtain ⟨e, he⟩ := Option.ne_none_iff_exists'.1 hentry
    obtain ⟨node, hnode⟩ := reaches_of_holds_directoryTree hplain ⟨e, he, trivial⟩
    exact hnode.not_linked hplain
  · obtain ⟨hdirectory, hat⟩ := at?_directoryTree_of_not_linked h hplain hfile habove hclear
    obtain ⟨d, hlookup, hentries⟩ := DirectoryTree.exists_lookup? hsegments hdirectory
    refine ⟨d, hlookup, ?_⟩
    rw [hlast, hentries, hat]
    exact Option.some_ne_none _

end Scan

namespace LocalSource

open MemoryHost (answering)

/-- **Links hide what is known about files.** When a directory is read with links followed, the
    stores of its metadata and its structure tell about a source file what they tell about any, if
    no name in its path is that of a link. Otherwise there is no metadata of it, and its directory
    is not found or does not have it, unless the link is the file itself. -/
theorem links_hide_context (answer : HttpRequest → HttpReply) (c : Classifier) (root : String)
    (s : MemoryHost) {followed : WalkTree} (hwalk : s.files.walk? true root = some followed)
    (hnames : WalkTree.WellNamed followed) (hempty : followed.NamesNonempty) :
    ∃ plain ingestion, s.files.walk? false root = some plain ∧
      (ingest (answering answer) c root true).run.run s = (.ok ingestion, s) ∧
      (metadata (answering answer) c root).run.run s = (.ok (Scan.metadata c plain), s) ∧
      (directoryTree (answering answer) c root).run.run s =
        (.ok (Scan.directoryTree c plain), s) ∧
      ∀ f ∈ ingestion.files, ∃ above name, Scan.KnownPast plain
        { metadata := Scan.metadata c plain, tree := Scan.directoryTree c plain } f above name := by
  obtain ⟨plain, hplain, hunfollowed⟩ := FileSystem.walk?_unfollowed hwalk
  have hingest : (ingest (answering answer) c root true).run.run s = _ :=
    run_read .source root true (Ingestion.ofTree c root) s
  have hmetadata : (metadata (answering answer) c root).run.run s = _ :=
    run_read .metadata root false (Scan.metadata c) s
  have htree : (directoryTree (answering answer) c root).run.run s = _ :=
    run_read .tree root false (Scan.directoryTree c) s
  rw [hwalk] at hingest
  rw [hplain] at hmetadata htree
  exact ⟨plain, _, hplain, hingest, hmetadata, htree, fun f hf =>
    Scan.kept_knownPast hunfollowed hnames hempty hf⟩

/-- A directory with a file, and a link to it from beside. -/
def linkedSource : List (FileName × FileNode) :=
  [(.text "lib", .directory [(.text "m.py", .file "x = 1".toUTF8 .epoch)]),
    (.text "d", .link "lib")]

/-- A host with that directory. -/
def linkedHost : MemoryHost :=
  { files := ⟨[(.text "p", .directory linkedSource)]⟩ }

/-- What a walk finds there that follows links. -/
def linkedTree : WalkTree :=
  [(.text "lib", .directory [(.text "m.py", .file "x = 1".toUTF8 .epoch)]),
    (.text "d", .directory [(.text "m.py", .file "x = 1".toUTF8 .epoch)])]

theorem walk?_linkedHost : linkedHost.files.walk? true "p" = some linkedTree := by
  have hsegments : FileName.segments "p" = [.text "p"] := by decide +kernel
  have htarget : FileName.segments "lib" = [.text "lib"] := by decide +kernel
  have hrelative : FileSystem.isRelative "p" = true := by decide +kernel
  have hlink : FileSystem.isRelative "lib" = true := by decide +kernel
  simp [FileSystem.walk?, FileSystem.resolve?, hsegments, hrelative, FileSystem.resolveFrom?,
    FileSystem.at?, FileNode.at?, List.lookup, linkedHost, linkedSource, linkedTree,
    FileSystem.depthBound, FileSystem.walkNode, FileNode.directoriesIn, FileNode.directories,
    hlink, htarget]

theorem walk?_linkedHost_plain :
    linkedHost.files.walk? false "p" = some (FileNode.shownIn linkedSource) := by
  have hsegments : FileName.segments "p" = [.text "p"] := by decide +kernel
  have hrelative : FileSystem.isRelative "p" = true := by decide +kernel
  rw [FileSystem.walk?_eq_shownIn]
  simp [FileSystem.find?, FileSystem.resolve?, hsegments, hrelative, FileSystem.resolveFrom?,
    FileSystem.at?, FileNode.at?, List.lookup, linkedHost]

theorem entries_of_mem_linkedTree {name : FileName} {entries : WalkTree}
    (hmem : (name, .directory entries) ∈ linkedTree) :
    entries = [(.text "m.py", .file "x = 1".toUTF8 .epoch)] := by
  simp only [linkedTree, List.mem_cons, Prod.mk.injEq, WalkNode.directory.injEq,
    List.not_mem_nil, or_false] at hmem
  obtain ⟨-, hentries⟩ | ⟨-, hentries⟩ := hmem <;> exact hentries

theorem linkedTree_wellNamed : WalkTree.WellNamed linkedTree := by
  have hfile : WalkTree.WellNamed [(.text "m.py", .file "x = 1".toUTF8 .epoch)] := by
    refine .intro (by simp) ?_ (by simp)
    simp [FileName.IsSegment]
  refine .intro (by simp [linkedTree]) ?_ ?_
  · simp [linkedTree, FileName.IsSegment]
  · exact fun _ _ hmem => entries_of_mem_linkedTree hmem ▸ hfile

theorem linkedTree_namesNonempty : linkedTree.NamesNonempty := by
  have hfile : WalkTree.NamesNonempty [(.text "m.py", .file "x = 1".toUTF8 .epoch)] :=
    .intro (by simp) (by simp)
  refine .intro (by simp [linkedTree]) ?_
  exact fun _ _ hmem => entries_of_mem_linkedTree hmem ▸ hfile

theorem links_hide_context_linkedHost :
    linkedHost.files.walk? true "p" = some linkedTree ∧ WalkTree.WellNamed linkedTree ∧
    linkedTree.NamesNonempty ∧
    ∃ plain ingestion, linkedHost.files.walk? false "p" = some plain ∧
      (ingest (answering fun _ => .noConnection) plainRules "p" true).run.run linkedHost =
        (.ok ingestion, linkedHost) ∧
      ∀ f ∈ ingestion.files, ∃ above name, Scan.KnownPast plain
        { metadata := Scan.metadata plainRules plain, tree := Scan.directoryTree plainRules plain }
        f above name := by
  obtain ⟨plain, ingestion, hplain, hingest, -, -, hknown⟩ :=
    links_hide_context (fun _ => .noConnection) plainRules "p" linkedHost walk?_linkedHost
      linkedTree_wellNamed linkedTree_namesNonempty
  exact ⟨walk?_linkedHost, linkedTree_wellNamed, linkedTree_namesNonempty, plain, ingestion, hplain,
    hingest, hknown⟩

/-- A source file behind a link, of which the other two readings of its directory know nothing. -/
theorem link_hides_source_file :
    ∃ ingestion store tree,
      (ingest (answering fun _ => .noConnection) plainRules "p" true).run.run linkedHost =
        (.ok ingestion, linkedHost) ∧
      (metadata (answering fun _ => .noConnection) plainRules "p").run.run linkedHost =
        (.ok store, linkedHost) ∧
      (directoryTree (answering fun _ => .noConnection) plainRules "p").run.run linkedHost =
        (.ok tree, linkedHost) ∧
      ⟨"d/m.py", "x = 1"⟩ ∈ ingestion.files ∧ store.get? "d/m.py" = none ∧
      (tree.lookup? (Path.upToLastSlash "d/m.py")).isNone = true := by
  have hingest : (ingest (answering fun _ => .noConnection) plainRules "p" true).run.run
      linkedHost = _ := run_read .source "p" true (Ingestion.ofTree plainRules "p") linkedHost
  have hmetadata : (metadata (answering fun _ => .noConnection) plainRules "p").run.run
      linkedHost = _ := run_read .metadata "p" false (Scan.metadata plainRules) linkedHost
  have htree : (directoryTree (answering fun _ => .noConnection) plainRules "p").run.run
      linkedHost = _ := run_read .tree "p" false (Scan.directoryTree plainRules) linkedHost
  rw [walk?_linkedHost] at hingest
  rw [walk?_linkedHost_plain] at hmetadata htree
  have hreach : WalkTree.Reaches linkedTree ["d"] "m.py" (.file "x = 1".toUTF8 .epoch) :=
    .inside (List.mem_cons_of_mem _ List.mem_cons_self) (.here List.mem_cons_self)
  refine ⟨_, _, _, hingest, hmetadata, htree, ?_, by decide +kernel, by decide +kernel⟩
  exact (Scan.mem_files linkedTree_wellNamed).2
    ⟨_, _, _, _, hreach, rfl, by decide +kernel, by decide, by decide⟩

end LocalSource

end SourceDocs
