import SourceDocs.Proofs.Corpus.Grouping
import SourceDocs.Proofs.Json.Decode

set_option autoImplicit false

/-! # Snapshots: a corpus survives being saved

A snapshot gives a label by its name alone, so what is read back is the corpus itself wherever each
label is that of its name (`Corpus.Unambiguous`). That rules out one label only: a known language
that is called like the sentinel. No corpus of detected languages and no corpus that was read has
it. -/

namespace SourceDocs

/-! ## Labels and their names -/

namespace Language

theorem ofName_name {l : Language} (h : l ≠ known unknownName) : ofName l.name = l := by
  cases l with
  | unknown => exact if_pos rfl
  | known name =>
    have hname : name ≠ unknownName := fun heq => h (heq ▸ rfl)
    exact if_neg hname

theorem ofName_ne (name : String) : ofName name ≠ known unknownName := by
  unfold ofName
  split
  · exact fun h => by cases h
  · rename_i hname
    exact fun h => hname (known.inj h)

theorem catalogue_name_ne : ∀ e ∈ catalogue, e.name ≠ unknownName := by
  decide

theorem mem_catalogue {path content : String} {e : Entry}
    (h : entry? path content = some e) : e ∈ catalogue := by
  have hextension : ∀ ext, byExtension? ext = some e → e ∈ catalogue := by
    intro ext hfound
    exact List.mem_reverse.1 (List.mem_of_find?_eq_some hfound)
  have hline : ∀ line, byFirstLine? line = some e → e ∈ catalogue := by
    intro line hfound
    unfold byFirstLine? at hfound
    exact List.mem_reverse.1 (List.mem_of_find?_eq_some hfound)
  unfold entry? at h
  rw [Option.or_eq_some_iff, Option.or_eq_some_iff] at h
  rcases h with h | ⟨-, h | ⟨-, h⟩⟩
  · obtain ⟨ext, -, hfound⟩ := Option.bind_eq_some_iff.1 h
    exact hextension ext hfound
  · obtain ⟨name, -, hfound⟩ := Option.bind_eq_some_iff.1 h
    exact hextension name hfound
  · obtain ⟨line, -, hfound⟩ := Option.bind_eq_some_iff.1 h
    exact hline line hfound

theorem detect_ne (path content : String) : detect path content ≠ known unknownName := by
  unfold detect
  split
  · rename_i e he
    split
    · exact fun h => by cases h
    · exact fun h => catalogue_name_ne e (mem_catalogue he) (known.inj h)
  · exact fun h => by cases h

end Language

namespace Corpus

variable {c : Corpus} {t : String} {files : List SourceFile} {languageOf : SourceFile → Language}

/-- No language is known by the name of the sentinel. -/
def Unambiguous (c : Corpus) : Prop :=
  ∀ g ∈ c.groups.entries, g.1 ≠ .known Language.unknownName

/-! ## Corpora without that label -/

theorem unambiguous_organizeBy (h : ∀ f, languageOf f ≠ .known Language.unknownName) :
    (organizeBy languageOf files).Unambiguous := by
  induction files using List.reverseRecOn with
  | nil =>
    intro g hg
    cases hg
  | append_singleton files f ih =>
    intro g hg
    rw [organizeBy_concat] at hg
    rcases mem_keys_upsertEntry _ _ _ _ hg with hlabel | hg
    · rw [hlabel]
      exact h f
    · exact ih g hg

theorem unambiguous_of_ofJson? {j : Json} (h : ofJson? j = some c) : c.Unambiguous := by
  obtain ⟨groups, -, hc⟩ := Option.bind_eq_some_iff.1 h
  cases hc
  intro g hg
  obtain ⟨field, -, rfl⟩ := List.mem_map.1 (SortedMap.mem_of_mem_ofList hg)
  exact Language.ofName_ne field.1

/-! ## Saving and reading -/

/-- The files of a language as JSON. -/
def groupJson (files : List SourceFile) : Json :=
  .array (files.map pairJson)

theorem plain_toJson (c : Corpus) : c.toJson.Plain := by
  have hpair : ∀ f, (pairJson f).Plain := by
    intro f
    refine .array fun v hv => ?_
    rcases List.mem_pair.1 hv with rfl | rfl
    · exact .string _
    · exact .string _
  exact Json.plain_object_map Language.name groupJson
    fun g _ => Json.plain_array_map pairJson fun f _ => hpair f

theorem ofJson?_toJson (h : c.Unambiguous) : ofJson? c.toJson = some c := by
  have hgroups : c.toJson.entries? (Json.list? ofPairJson?) =
      some (c.groups.entries.map fun g => (g.1.name, g.2)) :=
    Json.entries?_object_map Language.name groupJson
      fun g _ => Json.list?_array_map pairJson fun f _ => rfl
  have hlabels : (c.groups.entries.map fun g => (g.1.name, g.2)).map
      (fun g => (Language.ofName g.1, g.2)) = c.groups.entries := by
    rw [List.map_map]
    conv_rhs => rw [← List.map_id c.groups.entries]
    exact List.map_congr_left fun g hg => Prod.ext (Language.ofName_name (h g hg)) rfl
  rw [ofJson?, hgroups, Option.bind_eq_bind, Option.bind_some, hlabels, SortedMap.ofList_entries]
  rfl

theorem ofSnapshot?_snapshot (h : c.Unambiguous) : ofSnapshot? c.snapshot = some c := by
  rw [ofSnapshot?, snapshot, Json.parse?_indentedText c.plain_toJson]
  exact ofJson?_toJson h

theorem unambiguous_of_ofSnapshot? (h : ofSnapshot? t = some c) : c.Unambiguous := by
  obtain ⟨j, -, hc⟩ := Option.bind_eq_some_iff.1 h
  exact unambiguous_of_ofJson? hc

/-- **Snapshots are lossless.** A corpus without a known language called like the sentinel is what
    its snapshot is read as, and a corpus of files whose languages are detected has no such
    language. Whatever text is read as a corpus, that corpus is what its own snapshot is read as,
    and what is read there has the same snapshot again. -/
theorem snapshots_lossless :
    (∀ c : Corpus, c.Unambiguous → ofSnapshot? c.snapshot = some c) ∧
    (∀ files, (organize files).Unambiguous) ∧
    ∀ t c, ofSnapshot? t = some c →
      ofSnapshot? c.snapshot = some c ∧ (ofSnapshot? c.snapshot).map snapshot = some c.snapshot := by
  refine ⟨fun c h => ofSnapshot?_snapshot h, fun files => ?_, fun t c h => ?_⟩
  · exact unambiguous_organizeBy fun f => Language.detect_ne f.path f.content
  · have hread := ofSnapshot?_snapshot (unambiguous_of_ofSnapshot? h)
    exact ⟨hread, by rw [hread, Option.map_some]⟩

/-- Two files with one path, quotes and control characters in texts, a language without files and
    one whose name needs escapes. -/
def mixedCorpus : Corpus :=
  ⟨.ofList [(.unknown, [⟨"\"\\", "\x01\u2028"⟩, ⟨"\"\\", ""⟩]), (.known "a\nb", []),
    (.known "C", [⟨"", "\x7f"⟩])]⟩

/-- A text with the sentinel first and one language twice, the second time without files. -/
def repeatedText : String :=
  "\x7b\"Unknown\": [[\"x\", \"\\u0041\"]], \"C\": [[\"y\", \"1\"]], \"C\": []\x7d"

theorem snapshots_lossless_mixedCorpus :
    (mixedCorpus.Unambiguous ∧ ofSnapshot? mixedCorpus.snapshot = some mixedCorpus) ∧
    ∃ c, ofSnapshot? repeatedText = some c ∧
      c.groups.entries = [(.known "C", []), (.unknown, [⟨"x", "A"⟩])] ∧
      ofSnapshot? c.snapshot = some c := by
  have hmixed : mixedCorpus.Unambiguous := by
    unfold Unambiguous
    decide +kernel
  have hrepeated : (ofSnapshot? repeatedText).map (fun c => c.groups.entries) =
      some [(.known "C", []), (.unknown, [⟨"x", "A"⟩])] := by
    decide +kernel
  obtain ⟨c, hc, hentries⟩ := Option.map_eq_some_iff.1 hrepeated
  exact ⟨⟨hmixed, snapshots_lossless.1 _ hmixed⟩, c, hc, hentries,
    (snapshots_lossless.2.2 _ _ hc).1⟩

end Corpus

end SourceDocs
