import SourceDocs.Proofs.Corpus.Elements
import SourceDocs.Proofs.Synthesis.Output
import SourceDocs.Report

set_option autoImplicit false

/-! # The report: its counts add up

Languages are counted under their names, and reasons under their labels, so a count is right because
no two languages of a corpus, and no two reasons, are called alike. Each table is described by what
stands under which key (`RunReport.Tallies`); the entries of a table together are the number that
the report gives as a whole. -/

namespace SourceDocs

/-! ## Counting under names -/

/-- Of things whose names differ, each is counted under its own. -/
theorem count_flatMap_replicate {α κ : Type} [BEq κ] [LawfulBEq κ] {xs : List α} {x : α}
    {name : α → κ} (number : α → Nat) (hnodup : (xs.map name).Nodup) (hx : x ∈ xs) :
    (xs.flatMap fun y => List.replicate (number y) (name y)).count (name x) = number x := by
  induction xs with
  | nil => cases hx
  | cons y rest ih =>
    rw [List.map_cons, List.nodup_cons] at hnodup
    rw [List.flatMap_cons, List.count_append]
    rcases List.mem_cons.1 hx with rfl | hrest
    · have hnone : (rest.flatMap fun y => List.replicate (number y) (name y)).count (name x) = 0 := by
        refine List.count_eq_zero.2 fun hmem => hnodup.1 ?_
        obtain ⟨y, hy, hname⟩ := List.mem_flatMap.1 hmem
        exact List.mem_map.2 ⟨y, hy, (List.eq_of_mem_replicate hname).symm⟩
      rw [List.count_replicate_self, hnone, Nat.add_zero]
    · have hne : name y ≠ name x := fun heq => hnodup.1 (heq ▸ List.mem_map_of_mem hrest)
      rw [List.count_replicate, if_neg (by simpa using hne), ih hnodup.2 hrest, Nat.zero_add]

namespace SkipReason

theorem label_injective : Function.Injective label := by
  intro r r' h
  cases r <;> cases r' <;> first | rfl | exact absurd h (by decide)

end SkipReason

namespace RunReport

variable {c : Corpus} {skipped : List SkippedFile} {chunks : Nat}

/-- The tables of a report count the files of a corpus and those left out of it. -/
structure Tallies (r : RunReport) (c : Corpus) (skipped : List SkippedFile) : Prop where
  /-- All files of the corpus. -/
  filesIngested_eq : r.filesIngested = c.labelled.length
  /-- Each group under the name of its language, also if it is empty. -/
  get?_languages_iff : ∀ name n, r.languages.get? name = some n ↔
    ∃ g ∈ c.groups.entries, g.1.name = name ∧ g.2.length = n
  size_languages : r.languages.size = c.groups.size
  total_languages : r.languages.total id = r.filesIngested
  /-- Each reason that a file was left out for. -/
  get?_skipped_iff : ∀ label n, r.skipped.get? label = some n ↔
    ∃ reason ∈ skipped.map SkippedFile.reason, reason.label = label ∧
      (skipped.map SkippedFile.reason).count reason = n
  skippedTotal_eq : r.skippedTotal = skipped.length
  /-- Each group of a language without an extractor, unless it is empty. -/
  get?_noExtractor_iff : ∀ name n, r.noExtractor.get? name = some n ↔
    ∃ g ∈ c.groups.entries, ¬ g.1.IsSupported ∧ g.2 ≠ [] ∧ g.1.name = name ∧ g.2.length = n
  total_noExtractor : r.noExtractor.total id = c.unsupported.length

/-! ## Its tables -/

theorem languages_perm (h : c.Unambiguous) :
    (ofCorpus c skipped chunks).languages.entries.Perm
      (c.groups.entries.map fun g => (g.1.name, g.2.length)) := by
  refine SortedMap.entries_ofList_perm ?_
  rw [List.map_map]
  exact h.nodup_names

theorem total_languages (h : c.Unambiguous) :
    (ofCorpus c skipped chunks).languages.total id = c.fileCount := by
  rw [SortedMap.total_eq_sum, ((languages_perm h).map _).sum_eq, Corpus.fileCount,
    SortedMap.total_eq_sum, List.map_map]
  rfl

theorem get?_languages_iff (h : c.Unambiguous) (name : String) (n : Nat) :
    (ofCorpus c skipped chunks).languages.get? name = some n ↔
      ∃ g ∈ c.groups.entries, g.1.name = name ∧ g.2.length = n := by
  rw [← SortedMap.mem_entries_iff, (languages_perm h).mem_iff]
  simp

theorem get?_skipped_iff (label : String) (n : Nat) :
    (ofCorpus c skipped chunks).skipped.get? label = some n ↔
      ∃ reason ∈ skipped.map SkippedFile.reason, reason.label = label ∧
        (skipped.map SkippedFile.reason).count reason = n := by
  have hlabels : (skipped.map fun f => f.reason.label) =
      (skipped.map SkippedFile.reason).map SkipReason.label := by
    rw [List.map_map]
    rfl
  show (SortedMap.tally (skipped.map fun f => f.reason.label)).get? label = some n ↔ _
  rw [SortedMap.get?_tally_eq_some_iff, hlabels]
  constructor
  · rintro ⟨hmem, hcount⟩
    obtain ⟨reason, hreason, rfl⟩ := List.mem_map.1 hmem
    rw [List.count_map_of_injective _ _ SkipReason.label_injective] at hcount
    exact ⟨reason, hreason, rfl, hcount⟩
  · rintro ⟨reason, hreason, rfl, hcount⟩
    rw [List.count_map_of_injective _ _ SkipReason.label_injective]
    exact ⟨List.mem_map_of_mem hreason, hcount⟩

theorem get?_noExtractor_iff (h : c.Unambiguous) (name : String) (n : Nat) :
    (ofCorpus c skipped chunks).noExtractor.get? name = some n ↔
      ∃ g ∈ c.groups.entries, ¬ g.1.IsSupported ∧ g.2 ≠ [] ∧ g.1.name = name ∧
        g.2.length = n := by
  have hnames : (c.unsupportedGroups.map fun g => g.1.name).Nodup :=
    h.nodup_names.sublist (List.filter_sublist.map _)
  have hcount : ∀ g ∈ c.unsupportedGroups, (c.unsupported.map fun u => u.2.name).count g.1.name =
      g.2.length := by
    intro g hg
    rw [Corpus.names_unsupported]
    exact count_flatMap_replicate (fun g => g.2.length) hnames hg
  show (SortedMap.tally (c.unsupported.map fun u => u.2.name)).get? name = some n ↔ _
  rw [SortedMap.get?_tally_eq_some_iff]
  constructor
  · rintro ⟨hmem, hn⟩
    rw [Corpus.names_unsupported] at hmem
    obtain ⟨g, hg, hname⟩ := List.mem_flatMap.1 hmem
    obtain ⟨hne, rfl⟩ := List.mem_replicate.1 hname
    obtain ⟨hgroup, hsupported⟩ := Corpus.mem_unsupportedGroups.1 hg
    rw [hcount g hg] at hn
    exact ⟨g, hgroup, hsupported, fun hnil => hne (hnil ▸ rfl), rfl, hn⟩
  · rintro ⟨g, hgroup, hsupported, hne, rfl, hn⟩
    have hg := Corpus.mem_unsupportedGroups.2 ⟨hgroup, hsupported⟩
    refine ⟨?_, (hcount g hg).trans hn⟩
    rw [Corpus.names_unsupported]
    exact List.mem_flatMap.2
      ⟨g, hg, List.mem_replicate.2 ⟨fun h => hne (List.length_eq_zero_iff.1 h), rfl⟩⟩

theorem tallies_ofCorpus (h : c.Unambiguous) (skipped : List SkippedFile) (chunks : Nat) :
    (ofCorpus c skipped chunks).Tallies c skipped where
  filesIngested_eq := c.fileCount_eq
  get?_languages_iff := get?_languages_iff h
  size_languages := (languages_perm h).length_eq.trans (List.length_map ..)
  total_languages := total_languages h
  get?_skipped_iff := get?_skipped_iff
  skippedTotal_eq := (SortedMap.total_tally _).trans (List.length_map ..)
  get?_noExtractor_iff := get?_noExtractor_iff h
  total_noExtractor := (SortedMap.total_tally _).trans (List.length_map ..)

/-! ## The report as a whole -/

/-- **The report adds up.** For a corpus made from files or read from a snapshot, whatever was left
    out of it and whatever the size of its chunks: the tables of the report count its groups and the
    reasons (`Tallies`), before the run and after; the files without elements are those of languages
    without an extractor; where no two files have one path, a file either has elements, under its
    path, or is among those; and after a complete run the artifacts and failures are as many as the
    chunks, or in a hierarchical run twice as many and one or two about the corpus. -/
theorem report_adds_up {c : Corpus} (h : c.Obtained) (skipped : List SkippedFile) (size : Nat) :
    let report := ofCorpus c skipped (c.chunks size).length
    report.Tallies c skipped ∧
    c.unsupported = (c.labelled.filter fun x => ¬ x.1.IsSupported).map (fun x => (x.2.path, x.1)) ∧
    ((c.labelled.map fun x => x.2.path).Nodup →
      c.elements.size + c.unsupported.length = report.filesIngested ∧
      ∀ path e, c.elements.get? path = some e ↔
        ∃ x ∈ c.labelled, x.2.path = path ∧ extractElements? x.1 x.2.content = some e) ∧
    ∀ options stores es r, (Run.start options (c.chunks size) stores).after? es = some r →
      r.isComplete = true →
      let final := report.withOutcome r.artifacts r.failures
      final.Tallies c skipped ∧ final.chunks = (c.chunks size).length ∧
      (options.hierarchical = false → final.artifacts + final.failures = final.chunks) ∧
      (options.hierarchical = true →
        final.artifacts + final.failures = 2 * final.chunks + 1 ∨
        final.artifacts + final.failures = 2 * final.chunks + 2) := by
  intro report
  have htallies : report.Tallies c skipped := tallies_ofCorpus h.unambiguous skipped _
  refine ⟨htallies, c.unsupported_eq, fun hpaths => ⟨?_, fun path e => ?_⟩, ?_⟩
  · rw [htallies.filesIngested_eq]
    exact Corpus.size_elements hpaths
  · exact Corpus.get?_elements_iff hpaths
  · intro options stores es r hr hdone
    obtain ⟨outcome, haccounts⟩ := Run.accounts_of_start hr hdone
    -- the outcome is entered into fields that no table depends on
    exact ⟨{ htallies with }, rfl, haccounts.length⟩

/-- Files of a language with an extractor, of one without and of none that is known, and two groups
    without files. -/
def sampleCorpus : Corpus :=
  ⟨.ofList [(.known "Go", []), (.known "Python", [⟨"a.py", "x"⟩]), (.known "TOML", []),
    (.known "YAML", [⟨"b.yml", "k: v"⟩, ⟨"c.yml", ""⟩]), (.unknown, [⟨"n", "?"⟩])]⟩

/-- Two files left out for one reason, and one for another in between. -/
def sampleSkipped : List SkippedFile :=
  [⟨"a.log", .excludedExtension⟩, ⟨"run", .shebang⟩, ⟨"b.log", .excludedExtension⟩]

/-- Three requests are answered one after the other. -/
def promptEvents : List Run.Event :=
  [0, 1, 2].flatMap fun n => [.begin, .resume n, .reply n (.ok "")]

theorem report_adds_up_sampleCorpus :
    sampleCorpus.Obtained ∧
    (sampleCorpus.labelled.map fun x => x.2.path).Nodup ∧
    let report := ofCorpus sampleCorpus sampleSkipped (sampleCorpus.chunks 0).length
    report.skipped.get? "excluded_extension" = some 2 ∧
    report.languages.get? "Go" = some 0 ∧ report.languages.size = 5 ∧
    report.noExtractor.get? "YAML" = some 2 ∧ report.noExtractor.get? "TOML" = none ∧
    sampleCorpus.elements.size + sampleCorpus.unsupported.length = report.filesIngested ∧
    ∃ r, (Run.start { Run.pairOptions with hierarchical := false } (sampleCorpus.chunks 0) {}).after?
        promptEvents = some r ∧ r.isComplete = true ∧
      (report.withOutcome r.artifacts r.failures).artifacts +
        (report.withOutcome r.artifacts r.failures).failures = report.chunks := by
  have hunambiguous : sampleCorpus.Unambiguous := by
    unfold Corpus.Unambiguous
    decide +kernel
  have hobtained : sampleCorpus.Obtained := .inr ⟨_, Corpus.ofSnapshot?_snapshot hunambiguous⟩
  have hpaths : (sampleCorpus.labelled.map fun x => x.2.path).Nodup := by
    decide +kernel
  have hrun : ((Run.start { Run.pairOptions with hierarchical := false }
      (sampleCorpus.chunks 0) {}).after? promptEvents).any Run.isComplete = true := by
    decide +kernel
  obtain ⟨r, hr, hdone⟩ := (Option.any_eq_true _ _).1 hrun
  obtain ⟨htallies, -, helements, hfinal⟩ := report_adds_up hobtained sampleSkipped 0
  refine ⟨hobtained, hpaths, ?_, ?_, ?_, ?_, ?_, (helements hpaths).1, r, hr, hdone, ?_⟩
  · exact (htallies.get?_skipped_iff _ _).2 ⟨.excludedExtension, by decide, rfl, by decide⟩
  · exact (htallies.get?_languages_iff _ _).2 ⟨(.known "Go", []), by decide +kernel, rfl, rfl⟩
  · exact htallies.size_languages
  · exact (htallies.get?_noExtractor_iff _ _).2
      ⟨(.known "YAML", [⟨"b.yml", "k: v"⟩, ⟨"c.yml", ""⟩]), by decide +kernel, by decide,
        by decide, rfl, rfl⟩
  · refine Option.eq_none_iff_forall_ne_some.2 fun n hn => ?_
    obtain ⟨g, hg, -, hne, hname, -⟩ := (htallies.get?_noExtractor_iff _ _).1 hn
    clear hn
    revert g
    decide +kernel
  · exact (hfinal _ _ _ r hr hdone).2.2.1 rfl

end RunReport

end SourceDocs
