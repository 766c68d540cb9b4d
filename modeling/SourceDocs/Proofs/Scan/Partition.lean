import Mathlib.Tactic.ByContra
import SourceDocs.Proofs.Scan.Walk
import SourceDocs.MemoryHost
import SourceDocs.Source

set_option autoImplicit false

/-! # Scans for source files: every file of a tree is accounted for

A directory is left out by its name while a scan goes through the tree, a file by its path and by
its content. The two agree: a path with an excluded directory on it is rejected as well
(`checkPath?_ne_none`). So a scan keeps the files that the classifier keeps, wherever they are
(`mem_files`), and lists everything else once (`mem_skipped`, `nodup_path_findings`). -/

namespace SourceDocs

namespace Scan

open WalkTree (WellNamed Reaches)

variable {c : Classifier} {tree : WalkTree} {v : Visit}

/-! ## Findings -/

/-- The path of a finding. -/
def findingPath : Except SkippedFile SourceFile → String
  | .ok f => f.path
  | .error s => s.path

/-- Why what a scan comes to is left out, given its path and its name. -/
inductive LeftOut (c : Classifier) (path name : String) : WalkNode → SkipReason → Prop
  | path {content : ByteArray} {modified : Instant} {reason : SkipReason} :
      c.checkPath? path = some reason → LeftOut c path name (.file content modified) reason
  | content {content : ByteArray} {modified : Instant} {reason : SkipReason} :
      c.checkPath? path = none → Classifier.classify path content = .error reason →
      LeftOut c path name (.file content modified) reason
  | directory {entries : WalkTree} :
      c.excludesDirectory name = true → LeftOut c path name (.directory entries) .excludedDirectory
  | unreadable : LeftOut c path name .broken .unreadable

theorem classify_eq_ok {path : String} {content : ByteArray} {f : SourceFile} :
    Classifier.classify path content = .ok f ↔
      f.path = path ∧ Text.decode? content = some f.content ∧
        Classifier.sniff? f.content = none := by
  unfold Classifier.classify
  cases hdecode : Text.decode? content with
  | none => simp
  | some text =>
    dsimp only
    cases hsniff : Classifier.sniff? text with
    | some reason =>
      simp only [reduceCtorEq, Option.some.injEq, false_iff]
      rintro ⟨-, rfl, hnone⟩
      rw [hsniff] at hnone
      cases hnone
    | none =>
      simp only [Except.ok.injEq, Option.some.injEq]
      constructor
      · rintro rfl
        exact ⟨rfl, rfl, hsniff⟩
      · rintro ⟨rfl, rfl, -⟩
        rfl

theorem examine_eq_ok {path : String} {content : ByteArray} {f : SourceFile} :
    examine c path content = .ok f ↔ f.path = path ∧ c.checkPath? f.path = none ∧
      Text.decode? content = some f.content ∧ Classifier.sniff? f.content = none := by
  unfold examine
  cases hcheck : c.checkPath? path with
  | some reason =>
    simp only [reduceCtorEq, false_iff]
    rintro ⟨rfl, hnone, -⟩
    rw [hcheck] at hnone
    cases hnone
  | none =>
    have hkeep : Classifier.classify path content = .ok f ↔ f.path = path ∧
        c.checkPath? f.path = none ∧ Text.decode? content = some f.content ∧
        Classifier.sniff? f.content = none := by
      rw [classify_eq_ok]
      constructor
      · rintro ⟨rfl, hrest⟩
        exact ⟨rfl, hcheck, hrest⟩
      · rintro ⟨rfl, -, hrest⟩
        exact ⟨rfl, hrest⟩
    rw [← hkeep]
    cases Classifier.classify path content with
    | ok g => simp only [Except.ok.injEq]
    | error reason => simp only [reduceCtorEq]

theorem examine_eq_error {path : String} {content : ByteArray} {s : SkippedFile} :
    examine c path content = .error s ↔ s.path = path ∧ (c.checkPath? path = some s.reason ∨
      c.checkPath? path = none ∧ Classifier.classify path content = .error s.reason) := by
  unfold examine
  cases hcheck : c.checkPath? path with
  | some reason =>
    simp only [Except.error.injEq, Option.some.injEq]
    constructor
    · rintro rfl
      exact ⟨rfl, Or.inl rfl⟩
    · rintro ⟨rfl, rfl | ⟨hnone, -⟩⟩
      · rfl
      · cases hnone
  | none =>
    cases hresult : Classifier.classify path content with
    | ok g => simp
    | error reason =>
      simp only [Except.error.injEq]
      constructor
      · rintro rfl
        exact ⟨rfl, Or.inr ⟨trivial, rfl⟩⟩
      · rintro ⟨rfl, hnone | ⟨-, rfl⟩⟩
        · cases hnone
        · rfl

theorem findingPath_examine {path : String} {content : ByteArray} :
    findingPath (examine c path content) = path := by
  cases h : examine c path content with
  | ok f => exact (examine_eq_ok.1 h).1
  | error s => exact (examine_eq_error.1 h).1

theorem findingPath_of_finding? {r : Except SkippedFile SourceFile} (h : v.finding? c = some r) :
    findingPath r = v.path := by
  obtain ⟨above, name, node⟩ := v
  cases node with
  | file content modified =>
    cases h
    exact findingPath_examine
  | directory entries =>
    by_cases hex : excludes c name
    · simp only [Visit.finding?, hex, if_true, Option.some.injEq] at h
      rw [← h]
      rfl
    · simp [Visit.finding?, hex] at h
  | other => cases h
  | broken =>
    cases h
    rfl

theorem finding?_eq_ok {f : SourceFile} :
    v.finding? c = some (.ok f) ↔ ∃ content modified, v.node = .file content modified ∧
      f.path = v.path ∧ c.checkPath? f.path = none ∧
      Text.decode? content = some f.content ∧ Classifier.sniff? f.content = none := by
  obtain ⟨above, name, node⟩ := v
  cases node with
  | file content modified => simp [Visit.finding?, examine_eq_ok]
  | directory entries => by_cases hex : excludes c name <;> simp [Visit.finding?, hex]
  | other => simp [Visit.finding?]
  | broken => simp [Visit.finding?]

theorem finding?_eq_error {s : SkippedFile} {name : String} (hname : v.name = .text name) :
    v.finding? c = some (.error s) ↔ s.path = v.path ∧ LeftOut c s.path name v.node s.reason := by
  obtain ⟨above, name', node⟩ := v
  obtain ⟨path, reason⟩ := s
  cases hname
  cases node with
  | file content modified =>
    simp only [Visit.finding?, Option.some.injEq, examine_eq_error]
    constructor
    · rintro ⟨rfl, hpath | ⟨hpath, hcontent⟩⟩
      · exact ⟨rfl, .path hpath⟩
      · exact ⟨rfl, .content hpath hcontent⟩
    · rintro ⟨rfl, hpath | ⟨hpath, hcontent⟩⟩
      · exact ⟨rfl, Or.inl hpath⟩
      · exact ⟨rfl, Or.inr ⟨hpath, hcontent⟩⟩
  | directory entries =>
    by_cases hex : excludes c (.text name)
    · simp only [Visit.finding?, hex, if_true, Option.some.injEq, Except.error.injEq,
        SkippedFile.mk.injEq]
      constructor
      · rintro ⟨rfl, rfl⟩
        exact ⟨rfl, .directory hex⟩
      · rintro ⟨rfl, hleft⟩
        cases hleft
        exact ⟨rfl, rfl⟩
    · simp only [Visit.finding?, hex, Bool.false_eq_true, if_false, reduceCtorEq, false_iff]
      rintro ⟨-, hleft⟩
      cases hleft with
      | directory hex' => exact hex hex'
  | other =>
    simp only [Visit.finding?, reduceCtorEq, false_iff]
    rintro ⟨-, hleft⟩
    cases hleft
  | broken =>
    simp only [Visit.finding?, Option.some.injEq, Except.error.injEq, SkippedFile.mk.injEq]
    constructor
    · rintro ⟨rfl, rfl⟩
      exact ⟨rfl, .unreadable⟩
    · rintro ⟨rfl, hleft⟩
      cases hleft
      exact ⟨rfl, rfl⟩

/-! ## Kept and left out -/

variable {findings : List (Except SkippedFile SourceFile)}

theorem mem_kept {f : SourceFile} : f ∈ kept findings ↔ .ok f ∈ findings := by
  rw [kept, List.mem_filterMap]
  constructor
  · rintro ⟨r, hr, heq⟩
    cases r with
    | ok g =>
      cases heq
      exact hr
    | error s => cases heq
  · intro h
    exact ⟨_, h, rfl⟩

theorem mem_left {s : SkippedFile} : s ∈ left findings ↔ .error s ∈ findings := by
  rw [left, List.mem_filterMap]
  constructor
  · rintro ⟨r, hr, heq⟩
    cases r with
    | ok g => cases heq
    | error s' =>
      cases heq
      exact hr
  · intro h
    exact ⟨_, h, rfl⟩

/-- No finding is in neither list or in both. -/
theorem kept_left_perm : ((kept findings).map SourceFile.path ++
    (left findings).map SkippedFile.path).Perm (findings.map findingPath) := by
  induction findings with
  | nil => exact List.Perm.refl _
  | cons r rest ih =>
    cases r with
    | ok f =>
      show ((f.path :: (kept rest).map SourceFile.path) ++ (left rest).map SkippedFile.path).Perm
        (f.path :: rest.map findingPath)
      exact ih.cons _
    | error s =>
      show ((kept rest).map SourceFile.path ++ (s.path :: (left rest).map SkippedFile.path)).Perm
        (s.path :: rest.map findingPath)
      exact List.perm_middle.trans (ih.cons _)

/-! ## Paths -/

/-- A path with an excluded directory on it is rejected. -/
theorem checkPath?_ne_none {names : List String} (hne : names ≠ [])
    (hslash : ∀ n ∈ names, '/' ∉ n.toList) {d : String} (hd : d ∈ names)
    (hex : c.excludesDirectory d = true) : c.checkPath? (pathOf names) ≠ none := by
  have hany : names.any c.excludesDirectory = true := List.any_eq_true.2 ⟨d, hd, hex⟩
  unfold Classifier.checkPath?
  rw [segments_pathOf hne hslash, hany]
  by_cases hext : c.excludesExtension (pathOf names)
  · simp [hext]
  · simp [hext]

/-- There is no excluded directory on a path that passes. -/
theorem excludesDirectory_of_checkPath? {names : List String} (hne : names ≠ [])
    (hslash : ∀ n ∈ names, '/' ∉ n.toList) (hcheck : c.checkPath? (pathOf names) = none) :
    ∀ n ∈ names, c.excludesDirectory n = false := by
  intro n hn
  by_contra hex
  rw [Bool.not_eq_false] at hex
  exact checkPath?_ne_none hne hslash hn hex hcheck

theorem nodup_path_visits (hnames : WellNamed tree) :
    ((visitsIn c [] tree).map Visit.path).Nodup := by
  have hpath : (visitsIn c [] tree).map Visit.path =
      ((visitsIn c [] tree).map Visit.names).map pathOf := by
    rw [List.map_map]
    rfl
  rw [hpath]
  have hslash : ∀ names ∈ (visitsIn c [] tree).map Visit.names,
      names ≠ [] ∧ ∀ n ∈ names, '/' ∉ n.toList := by
    intro names hmem
    obtain ⟨v, hv, rfl⟩ := List.mem_map.1 hmem
    obtain ⟨last, hname, hreach, -⟩ := (mem_visitsIn_iff hnames).1 hv
    rw [Visit.names, hname]
    exact ⟨by simp, hreach.slash_notMem hnames⟩
  refine (nodup_names_visitsIn hnames).map_on fun names hmem names' hmem' heq => ?_
  obtain ⟨hne, hs⟩ := hslash names hmem
  obtain ⟨hne', hs'⟩ := hslash names' hmem'
  exact pathOf_inj hne hne' hs hs' heq

/-- No path is found twice. -/
theorem nodup_path_findings (hnames : WellNamed tree) :
    ((findingsIn c [] tree).map findingPath).Nodup := by
  rw [findingsIn_eq]
  exact (map_filterMap_sublist fun _ _ => findingPath_of_finding?).nodup (nodup_path_visits hnames)

theorem pairwise_le_mergeSort {α : Type} (path : α → String) (l : List α) :
    (l.mergeSort fun a b => path a ≤ path b).Pairwise fun a b => path a ≤ path b := by
  have hle : (l.mergeSort fun a b => path a ≤ path b).Pairwise
      fun a b => decide (path a ≤ path b) = true := by
    apply List.pairwise_mergeSort
    · intro a b c hab hbc
      simp only [decide_eq_true_eq] at *
      exact String.le_trans hab hbc
    · intro a b
      simp only [Bool.or_eq_true, decide_eq_true_eq]
      exact String.le_total _ _
  exact hle.imp of_decide_eq_true

theorem pairwise_lt_mergeSort {α : Type} (path : α → String) {l : List α}
    (h : (l.map path).Nodup) :
    (l.mergeSort fun a b => path a ≤ path b).Pairwise fun a b => path a < path b := by
  have hne : (l.mergeSort fun a b => path a ≤ path b).Pairwise fun a b => path a ≠ path b :=
    List.pairwise_map.1 (((List.mergeSort_perm l _).map path).nodup_iff.2 h)
  refine (pairwise_le_mergeSort path l).imp₂ (fun a b hab hne => ?_) hne
  exact Std.lt_of_le_of_ne hab hne

/-! ## The whole scan -/

theorem mem_files (hnames : WellNamed tree) {f : SourceFile} :
    f ∈ (ingest c tree).1 ↔ ∃ above name content modified,
      Reaches tree above name (.file content modified) ∧ f.path = pathOf (above ++ [name]) ∧
      c.checkPath? f.path = none ∧ Text.decode? content = some f.content ∧
      Classifier.sniff? f.content = none := by
  have hmem : f ∈ (ingest c tree).1 ↔ ∃ v ∈ visitsIn c [] tree, v.finding? c = some (.ok f) := by
    rw [ingest, List.mem_mergeSort, mem_kept, findingsIn_eq, List.mem_filterMap]
  rw [hmem]
  constructor
  · rintro ⟨v, hv, hfound⟩
    obtain ⟨last, hname, hreach, -⟩ := (mem_visitsIn_iff hnames).1 hv
    obtain ⟨content, modified, hnode, hpath, hrest⟩ := finding?_eq_ok.1 hfound
    rw [hnode] at hreach
    rw [Visit.path, Visit.names, hname] at hpath
    exact ⟨v.above, last, content, modified, hreach, hpath, hrest⟩
  · rintro ⟨above, name, content, modified, hreach, hpath, hcheck, hrest⟩
    -- the path would be rejected if the scan did not come to the file
    have habove : ∀ n ∈ above, c.excludesDirectory n = false := fun n hn =>
      excludesDirectory_of_checkPath? (by simp) (hreach.slash_notMem hnames) (hpath ▸ hcheck) n
        (List.mem_append_left _ hn)
    refine ⟨⟨above, .text name, .file content modified⟩, ?_, ?_⟩
    · exact (mem_visitsIn_iff hnames).2 ⟨name, rfl, hreach, habove⟩
    · exact finding?_eq_ok.2 ⟨content, modified, rfl, hpath, hcheck, hrest⟩

theorem mem_skipped (hnames : WellNamed tree) {s : SkippedFile} :
    s ∈ (ingest c tree).2 ↔ ∃ above name node, Reaches tree above name node ∧
      (∀ n ∈ above, c.excludesDirectory n = false) ∧ s.path = pathOf (above ++ [name]) ∧
      LeftOut c s.path name node s.reason := by
  have hmem : s ∈ (ingest c tree).2 ↔
      ∃ v ∈ visitsIn c [] tree, v.finding? c = some (.error s) := by
    rw [ingest, List.mem_mergeSort, mem_left, findingsIn_eq, List.mem_filterMap]
  rw [hmem]
  constructor
  · rintro ⟨v, hv, hfound⟩
    obtain ⟨last, hname, hreach, habove⟩ := (mem_visitsIn_iff hnames).1 hv
    obtain ⟨hpath, hleft⟩ := (finding?_eq_error hname).1 hfound
    rw [Visit.path, Visit.names, hname] at hpath
    exact ⟨v.above, last, v.node, hreach, habove, hpath, hleft⟩
  · rintro ⟨above, name, node, hreach, habove, hpath, hleft⟩
    refine ⟨⟨above, .text name, node⟩, ?_, ?_⟩
    · exact (mem_visitsIn_iff hnames).2 ⟨name, rfl, hreach, habove⟩
    · exact (finding?_eq_error rfl).2 ⟨hpath, hleft⟩

theorem nodup_paths (hnames : WellNamed tree) :
    ((kept (findingsIn c [] tree)).map SourceFile.path ++
      (left (findingsIn c [] tree)).map SkippedFile.path).Nodup :=
  kept_left_perm.nodup_iff.2 (nodup_path_findings hnames)

/-! ## The three situations of a file -/

/-- Exactly one of three propositions holds. -/
def ExactlyOne (p q r : Prop) : Prop :=
  p ∧ ¬q ∧ ¬r ∨ ¬p ∧ q ∧ ¬r ∨ ¬p ∧ ¬q ∧ r

/-- A file is kept with its exact content. -/
def IsKept (files : List SourceFile) (path : String) (content : ByteArray) : Prop :=
  ∃ f ∈ files, f.path = path ∧ f.content.toUTF8 = content

/-- A path is listed as left out. -/
def IsSkipped (skipped : List SkippedFile) (path : String) : Prop :=
  ∃ s ∈ skipped, s.path = path

/-- The outermost excluded directory of those on the way is listed as such. -/
def IsPruned (c : Classifier) (skipped : List SkippedFile) (above : List String) : Prop :=
  ∃ before d after, above = before ++ d :: after ∧ c.excludesDirectory d = true ∧
    (∀ n ∈ before, c.excludesDirectory n = false) ∧
    { path := pathOf (before ++ [d]), reason := .excludedDirectory } ∈ skipped

theorem disjoint_paths (hnames : WellNamed tree) {f : SourceFile} {s : SkippedFile}
    (hf : f ∈ (ingest c tree).1) (hs : s ∈ (ingest c tree).2) : f.path ≠ s.path := by
  have hdisjoint := (List.nodup_append.1 (nodup_paths (c := c) hnames)).2.2
  rw [ingest, List.mem_mergeSort] at hf hs
  exact hdisjoint _ (List.mem_map_of_mem hf) _ (List.mem_map_of_mem hs)

theorem toUTF8_of_decode? {content : ByteArray} {text : String}
    (h : Text.decode? content = some text) : text.toUTF8 = content := by
  unfold Text.decode? String.fromUTF8? at h
  split at h
  · cases h
    rfl
  · cases h

/-- A file below an excluded directory is covered by the outermost one, and by nothing else. -/
theorem isPruned_of_excluded (hnames : WellNamed tree) {above : List String} {name : String}
    {content : ByteArray} {modified : Instant}
    (hreach : Reaches tree above name (.file content modified))
    (hex : ∃ d ∈ above, c.excludesDirectory d = true) :
    ¬IsKept (ingest c tree).1 (pathOf (above ++ [name])) content ∧
    ¬IsSkipped (ingest c tree).2 (pathOf (above ++ [name])) ∧
    IsPruned c (ingest c tree).2 above := by
  have hslash := hreach.slash_notMem hnames
  obtain ⟨d, hd, hdex⟩ := hex
  refine ⟨?_, ?_, ?_⟩
  · -- the path of a file that is kept passes the check
    rintro ⟨f, hf, hpath, -⟩
    obtain ⟨-, -, -, -, -, -, hcheck, -⟩ := (mem_files hnames).1 hf
    rw [hpath] at hcheck
    exact checkPath?_ne_none (by simp) hslash (List.mem_append_left _ hd) hdex hcheck
  · -- what is listed has no excluded directory above it, and its path tells where it is
    rintro ⟨s, hs, hpath⟩
    obtain ⟨above', name', node, hreach', habove', hpath', -⟩ := (mem_skipped hnames).1 hs
    have heq := pathOf_inj (by simp) (by simp) (hreach'.slash_notMem hnames) hslash
      (hpath'.symm.trans hpath)
    obtain ⟨rfl, -⟩ := List.append_inj' heq rfl
    rw [habove' d hd] at hdex
    cases hdex
  · -- the scan comes to the first excluded directory on the way and stops there
    obtain ⟨first, hfirst⟩ : ∃ first, above.find? c.excludesDirectory = some first := by
      rw [← Option.isSome_iff_exists, List.find?_isSome]
      exact ⟨d, hd, hdex⟩
    obtain ⟨hfirstex, before, after, rfl, hbefore⟩ := List.find?_eq_some_iff_append.1 hfirst
    have hbefore' : ∀ n ∈ before, c.excludesDirectory n = false := by simpa using hbefore
    obtain ⟨entries, hentries⟩ := hreach.directory
    refine ⟨before, first, after, rfl, hfirstex, hbefore', ?_⟩
    exact (mem_skipped hnames).2
      ⟨before, first, .directory entries, hentries, hbefore', rfl, .directory hfirstex⟩

/-- Any other file is kept or left out by itself. -/
theorem isKept_or_isSkipped (hnames : WellNamed tree) {above : List String} {name : String}
    {content : ByteArray} {modified : Instant}
    (hreach : Reaches tree above name (.file content modified))
    (habove : ∀ n ∈ above, c.excludesDirectory n = false) :
    IsKept (ingest c tree).1 (pathOf (above ++ [name])) content ∨
    IsSkipped (ingest c tree).2 (pathOf (above ++ [name])) := by
  cases hresult : examine c (pathOf (above ++ [name])) content with
  | ok f =>
    obtain ⟨hpath, hcheck, hdecode, hsniff⟩ := examine_eq_ok.1 hresult
    refine Or.inl ⟨f, ?_, hpath, toUTF8_of_decode? hdecode⟩
    exact (mem_files hnames).2
      ⟨above, name, content, modified, hreach, hpath, hcheck, hdecode, hsniff⟩
  | error s =>
    obtain ⟨hpath, hreason⟩ := examine_eq_error.1 hresult
    rw [← hpath] at hreason
    refine Or.inr ⟨s, (mem_skipped hnames).2 ⟨above, name, _, hreach, habove, hpath, ?_⟩, hpath⟩
    rcases hreason with hcheck | ⟨hcheck, hcontent⟩
    · exact .path hcheck
    · exact .content hcheck hcontent

theorem exactlyOne_situation (hnames : WellNamed tree) {above : List String} {name : String}
    {content : ByteArray} {modified : Instant}
    (hreach : Reaches tree above name (.file content modified)) :
    ExactlyOne (IsKept (ingest c tree).1 (pathOf (above ++ [name])) content)
      (IsSkipped (ingest c tree).2 (pathOf (above ++ [name])))
      (IsPruned c (ingest c tree).2 above) := by
  by_cases hex : ∃ d ∈ above, c.excludesDirectory d = true
  · exact Or.inr (Or.inr (isPruned_of_excluded hnames hreach hex))
  · have habove : ∀ n ∈ above, c.excludesDirectory n = false := by simpa using hex
    have hnotPruned : ¬IsPruned c (ingest c tree).2 above := by
      rintro ⟨before, d, after, rfl, hd, -⟩
      exact hex ⟨d, by simp, hd⟩
    have hnotBoth : IsKept (ingest c tree).1 (pathOf (above ++ [name])) content →
        ¬IsSkipped (ingest c tree).2 (pathOf (above ++ [name])) := by
      rintro ⟨f, hf, hpath, -⟩ ⟨s, hs, hpath'⟩
      exact disjoint_paths hnames hf hs (hpath.trans hpath'.symm)
    rcases isKept_or_isSkipped hnames hreach habove with hkept | hskipped
    · exact Or.inl ⟨hkept, hnotBoth hkept, hnotPruned⟩
    · exact Or.inr (Or.inl ⟨fun hkept => hnotBoth hkept hskipped, hskipped, hnotPruned⟩)

/-- What the result of a scan has to be: the files that the classifier keeps, whatever else is come
to with the reason why it is left out, both lists strictly ascending and without a common path, and
each file of the tree in one of three situations. -/
structure Partitions (c : Classifier) (tree : WalkTree) (files : List SourceFile)
    (skipped : List SkippedFile) : Prop where
  files_iff : ∀ f, f ∈ files ↔ ∃ above name content modified,
    Reaches tree above name (.file content modified) ∧ f.path = pathOf (above ++ [name]) ∧
    c.checkPath? f.path = none ∧ Text.decode? content = some f.content ∧
    Classifier.sniff? f.content = none
  skipped_iff : ∀ s, s ∈ skipped ↔ ∃ above name node, Reaches tree above name node ∧
    (∀ n ∈ above, c.excludesDirectory n = false) ∧ s.path = pathOf (above ++ [name]) ∧
    LeftOut c s.path name node s.reason
  files_ascending : files.Pairwise fun a b => a.path < b.path
  skipped_ascending : skipped.Pairwise fun a b => a.path < b.path
  disjoint : ∀ f ∈ files, ∀ s ∈ skipped, f.path ≠ s.path
  situation : ∀ above name content modified, Reaches tree above name (.file content modified) →
    ExactlyOne (IsKept files (pathOf (above ++ [name])) content)
      (IsSkipped skipped (pathOf (above ++ [name]))) (IsPruned c skipped above)

theorem ingest_partitions (c : Classifier) (tree : WalkTree) (hnames : WellNamed tree) :
    Partitions c tree (ingest c tree).1 (ingest c tree).2 where
  files_iff _ := mem_files hnames
  skipped_iff _ := mem_skipped hnames
  files_ascending :=
    pairwise_lt_mergeSort SourceFile.path (List.nodup_append.1 (nodup_paths hnames)).1
  skipped_ascending :=
    pairwise_lt_mergeSort SkippedFile.path (List.nodup_append.1 (nodup_paths hnames)).2.1
  disjoint _ hf _ hs := disjoint_paths hnames hf hs
  situation _ _ _ _ hreach := exactlyOne_situation hnames hreach

end Scan

namespace LocalSource

/-- **A scan of a directory partitions the tree that the host finds there**, whatever the
directory's own name: the result depends on the tree alone. -/
theorem ingest_scans {m : Type → Type} [Monad m] [LawfulMonad m] (host : Host m) (c : Classifier)
    (root : String) (follow : Bool) :
    (ingest host c root follow).run = (do
      match ← host.walk root follow with
      | none => pure (.error (.noDirectory .source root))
      | some tree =>
        let (files, skipped) := Scan.ingest c tree
        pure (.ok { files, skipped, localRoot := some root })) ∧
    ∀ tree, WalkTree.WellNamed tree →
      Scan.Partitions c tree (Scan.ingest c tree).1 (Scan.ingest c tree).2 := by
  constructor
  · rw [ingest, LocalSource.tree]
    simp only [ExceptT.run_bind, ExceptT.run_liftM, bind_assoc, bind_map_left]
    refine bind_congr fun found => ?_
    cases found with
    | none => simp
    | some tree => simp
  · exact Scan.ingest_partitions c

/-- A tree with an excluded directory inside another one, and a file named like one. -/
def nestedTree : WalkTree :=
  [(.text ".git", .file "gitdir: ../main".toUTF8 .epoch),
    (.text "lib", .directory
      [(.text "venv", .directory [(.text "node_modules", .directory [])]),
        (.text "util.rs", .file "const N: u8 = 1;".toUTF8 .epoch)])]

theorem nestedTree_wellNamed : WalkTree.WellNamed nestedTree := by
  have hempty : WalkTree.WellNamed [] := .intro (by decide) (by simp) (by simp)
  have hvenv : WalkTree.WellNamed [(.text "node_modules", .directory [])] := by
    refine .intro (by decide) ?_ ?_
    · simp [FileName.IsSegment]
    · simpa using hempty
  have hlib : WalkTree.WellNamed [(.text "venv", .directory [(.text "node_modules", .directory [])]),
      (.text "util.rs", .file "const N: u8 = 1;".toUTF8 .epoch)] := by
    refine .intro (by decide) ?_ ?_
    · simp [FileName.IsSegment]
    · simpa using hvenv
  refine .intro (by decide) ?_ ?_
  · simp [nestedTree, FileName.IsSegment]
  · simpa [nestedTree] using hlib

/-- The classifier without rules of one's own. -/
def plainRules : Classifier :=
  { extensions := Classifier.alwaysExtensions, directories := Classifier.alwaysDirectories
    globs := [] }

theorem ingest_scans_nestedTree :
    WalkTree.WellNamed nestedTree ∧
    Scan.Partitions plainRules nestedTree (Scan.ingest plainRules nestedTree).1
      (Scan.ingest plainRules nestedTree).2 ∧
    { path := "lib/venv", reason := .excludedDirectory } ∈ (Scan.ingest plainRules nestedTree).2 := by
  have hscan := (ingest_scans MemoryHost.host plainRules "node_modules" false).2 nestedTree
    nestedTree_wellNamed
  refine ⟨nestedTree_wellNamed, hscan, (hscan.skipped_iff _).2 ?_⟩
  have hreach : WalkTree.Reaches nestedTree ["lib"] "venv"
      (.directory [(.text "node_modules", .directory [])]) :=
    .inside (List.mem_cons_of_mem _ List.mem_cons_self) (.here List.mem_cons_self)
  exact ⟨["lib"], "venv", _, hreach, by decide, rfl, .directory (by decide)⟩

end LocalSource

end SourceDocs
