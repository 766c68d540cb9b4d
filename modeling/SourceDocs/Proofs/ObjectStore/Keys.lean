import Mathlib.Data.List.Basic
import SourceDocs.ObjectStore.Endpoint
import SourceDocs.Proofs.Path.Components

set_option autoImplicit false

/-! # Keys without a prefix: what the rules say about them

A prefix is taken off a key together with the slash that it ends at (`slashed`), so that the
segments of a key are those of the prefix and then those of what is left (`segments_of_slashed`).
The last segment stays, and with it the verdict on the extension; directories are excluded by their
segments, which may only become fewer. -/

namespace SourceDocs.BucketSource

open SourceDocs.Path

variable {keyPrefix key rest : String}

/-- A prefix with the slash that it ends at. -/
def slashed (keyPrefix : String) : String :=
  if keyPrefix.toList.getLast? = some '/' then keyPrefix else keyPrefix ++ "/"

/-! ## What is taken off -/

theorem exists_above_slash (keyPrefix : String) : ∃ above, slashed keyPrefix = above ++ "/" := by
  unfold slashed
  split
  · rename_i hlast
    obtain ⟨above, habove⟩ := List.getLast?_eq_some_iff.1 hlast
    refine ⟨String.ofList above, ?_⟩
    rw [← String.toList_inj, habove, String.toList_append, String.toList_ofList]
    rfl
  · exact ⟨keyPrefix, rfl⟩

theorem belowPrefix?_eq_some {rest : List Char} :
    belowPrefix? keyPrefix.toList key.toList = some rest ↔
      key = slashed keyPrefix ++ String.ofList rest := by
  rw [← String.toList_inj, String.toList_append, String.toList_ofList]
  unfold belowPrefix? slashed
  split
  · rw [List.isPrefixOf?_eq_some_iff_append_eq]
    exact eq_comm
  · have hslash : "/".toList = ['/'] := rfl
    rw [Option.bind_eq_some_iff, String.toList_append, hslash, List.append_assoc]
    simp only [List.isPrefixOf?_eq_some_iff_append_eq]
    constructor
    · rintro ⟨after, hkey, rfl⟩
      exact hkey.symm
    · exact fun hkey => ⟨['/'] ++ rest, hkey.symm, rfl⟩

/-- A prefix is taken off wherever it can be. -/
theorem relativeKey_slashed (hsome : keyPrefix ≠ "") (rest : String) :
    relativeKey keyPrefix (slashed keyPrefix ++ rest) = rest := by
  have hbelow : belowPrefix? keyPrefix.toList (slashed keyPrefix ++ rest).toList =
      some rest.toList := by
    rw [belowPrefix?_eq_some, String.ofList_toList]
  rw [relativeKey, if_neg hsome, hbelow, Option.map_some, Option.getD_some, String.ofList_toList]

theorem relativeKey_eq_or (keyPrefix key : String) :
    relativeKey keyPrefix key = key ∨ key = slashed keyPrefix ++ relativeKey keyPrefix key := by
  unfold relativeKey
  split
  · exact .inl rfl
  · cases hbelow : belowPrefix? keyPrefix.toList key.toList with
    | none => exact .inl rfl
    | some rest => exact .inr (belowPrefix?_eq_some.1 hbelow)

/-! ## Segments of what is left -/

/-- What is left of a key that does not end in a slash is not empty. -/
theorem relativeKey_ne_empty (hne : key ≠ "") (hend : key.toList.getLast? ≠ some '/') :
    relativeKey keyPrefix key ≠ "" := by
  intro hempty
  rcases relativeKey_eq_or keyPrefix key with hkey | hkey
  · exact hne (hkey.symm.trans hempty)
  · obtain ⟨above, habove⟩ := exists_above_slash keyPrefix
    apply hend
    rw [hkey, hempty, habove, String.append_empty, String.toList_append]
    exact List.getLast?_concat

/-- The segments of a key are those of what is taken off, and then those of what is left. -/
theorem exists_segments_above (keyPrefix key : String) :
    ∃ above, segments key = above ++ segments (relativeKey keyPrefix key) := by
  rcases relativeKey_eq_or keyPrefix key with hkey | hkey
  · exact ⟨[], by rw [hkey, List.nil_append]⟩
  · obtain ⟨above, habove⟩ := exists_above_slash keyPrefix
    refine ⟨segments above, ?_⟩
    rw [← segments_append_slash, ← habove, ← hkey]

theorem getLast?_segments_relativeKey (keyPrefix key : String) :
    (segments (relativeKey keyPrefix key)).getLast? = (segments key).getLast? := by
  obtain ⟨above, hsegments⟩ := exists_segments_above keyPrefix key
  obtain ⟨first, rest, hrest⟩ := exists_segments (relativeKey keyPrefix key)
  rw [hsegments, hrest, List.getLast?_append_of_ne_nil _ (List.cons_ne_nil _ _)]

/-- The last component stays. -/
theorem getLast?_components_relativeKey (hne : key ≠ "") (hend : key.toList.getLast? ≠ some '/')
    (hdot : (segments key).getLast? ≠ some ".") :
    (components (relativeKey keyPrefix key)).getLast? = (components key).getLast? := by
  have hlast := getLast?_segments key
  have hsegment : ¬(afterLastSlash key = "" ∨ afterLastSlash key = ".") := by
    rw [not_or]
    refine ⟨afterLastSlash_ne_empty hne hend, fun hhere => hdot ?_⟩
    rw [hlast, hhere]
  obtain ⟨k, hk⟩ := Option.ne_none_iff_exists'.1 fun hnone =>
    hsegment (Component.ofSegment?_eq_none.1 hnone)
  have hlast' := getLast?_segments_relativeKey keyPrefix key
  rw [getLast?_components hlast hk, getLast?_components (hlast'.trans hlast) hk]

/-! ## Verdicts -/

/-- An excluded segment of a key from which none is left is one of what is taken off. -/
theorem lt_length_of_excluded {c : Classifier} {above below : List String} {i : Nat} {s : String}
    (hnone : ∀ s ∈ below, c.excludesDirectory s = false) (hs : (above ++ below)[i]? = some s)
    (hexcluded : c.excludesDirectory s = true) : i < above.length := by
  by_contra hi
  rw [List.getElem?_append_right (Nat.not_lt.1 hi)] at hs
  rw [hnone s (List.mem_of_getElem? hs)] at hexcluded
  cases hexcluded

/-- **A prefix is taken off at a slash, and the rules say the same about what is left.** This is the
    whole key or what stands behind the prefix and its slash; it has the last segments of the key.
    It has an excluded extension if and only if the key has one, and an excluded directory only if
    the key has one; where the key has one and it has none, all of them are in what was taken
    off. -/
theorem relativeKey_keeps_verdicts (keyPrefix key : String) (hne : key ≠ "")
    (hend : key.toList.getLast? ≠ some '/') (hdot : (segments key).getLast? ≠ some ".") :
    let left := relativeKey keyPrefix key
    (left = key ∨ key = slashed keyPrefix ++ left) ∧
      (keyPrefix ≠ "" → ∀ rest, key = slashed keyPrefix ++ rest → left = rest) ∧
      left ≠ "" ∧ segments left <:+ segments key ∧
      ∀ c : Classifier,
        (c.checkPath? left = some .excludedExtension ↔
          c.checkPath? key = some .excludedExtension) ∧
        (c.checkPath? left = some .excludedDirectory →
          c.checkPath? key = some .excludedDirectory) ∧
        (c.checkPath? key = some .excludedDirectory →
          c.checkPath? left ≠ some .excludedDirectory →
          ∃ above, slashed keyPrefix = above ++ "/" ∧ key = above ++ "/" ++ left ∧
            segments key = segments above ++ segments left ∧
            ∀ i s, (segments key)[i]? = some s → c.excludesDirectory s = true →
              i < (segments above).length) := by
  intro left
  obtain ⟨before, hbefore⟩ := exists_segments_above keyPrefix key
  have hextension : ∀ c : Classifier, c.excludesExtension left = c.excludesExtension key :=
    fun c => Classifier.excludesExtension_congr (getLast?_components_relativeKey hne hend hdot)
  refine ⟨relativeKey_eq_or keyPrefix key, ?_, relativeKey_ne_empty hne hend, ⟨before, hbefore.symm⟩,
    fun c => ⟨?_, ?_, ?_⟩⟩
  · rintro hsome rest rfl
    exact relativeKey_slashed hsome rest
  · rw [Classifier.checkPath?_eq_excludedExtension, Classifier.checkPath?_eq_excludedExtension,
      hextension c]
  · rw [Classifier.checkPath?_eq_excludedDirectory, Classifier.checkPath?_eq_excludedDirectory,
      hextension c, hbefore]
    rintro ⟨hext, s, hs, hexcluded⟩
    exact ⟨hext, s, List.mem_append_right _ hs, hexcluded⟩
  · intro hkey hleft
    -- if nothing is taken off, there is one verdict
    have htaken : key = slashed keyPrefix ++ left := by
      refine (relativeKey_eq_or keyPrefix key).resolve_left fun hsame => hleft ?_
      rw [show left = key from hsame]
      exact hkey
    obtain ⟨above, habove⟩ := exists_above_slash keyPrefix
    have hparts : key = above ++ "/" ++ left := habove ▸ htaken
    have hsegments : segments key = segments above ++ segments left := by
      rw [← segments_append_slash, ← hparts]
    rw [Classifier.checkPath?_eq_excludedDirectory] at hkey
    rw [ne_eq, Classifier.checkPath?_eq_excludedDirectory] at hleft
    have hnone : ∀ s ∈ segments left, c.excludesDirectory s = false := by
      intro s hs
      rw [Bool.eq_false_iff]
      exact fun hexcluded => hleft ⟨(hextension c).trans hkey.1, s, hs, hexcluded⟩
    refine ⟨above, habove, hparts, hsegments, fun i s hs hexcluded => ?_⟩
    exact lt_length_of_excluded hnone (hsegments ▸ hs) hexcluded

/-- Rules that leave out the directories of one name. -/
def venvRules : Classifier := { extensions := [], directories := ["venv"], globs := [] }

/-- An excluded directory goes with the prefix, wherever in it the name stands. -/
theorem relativeKey_keeps_verdicts_venv :
    let key := "venv/data/venv/src/app.py"
    relativeKey "venv/data/venv" key = "src/app.py" ∧
      relativeKey "venv/data/ve" key = key ∧
      venvRules.checkPath? key = some .excludedDirectory ∧
      venvRules.checkPath? "src/app.py" = none ∧
      ∃ above, slashed "venv/data/venv" = above ++ "/" ∧ key = above ++ "/" ++ "src/app.py" ∧
        ∀ i s, (segments key)[i]? = some s → venvRules.excludesDirectory s = true →
          i < (segments above).length := by
  intro key
  have hleft : relativeKey "venv/data/venv" key = "src/app.py" := by decide +kernel
  have hkey : venvRules.checkPath? key = some .excludedDirectory := by decide +kernel
  have hbelow : venvRules.checkPath? "src/app.py" = none := by decide +kernel
  have hkeeps := relativeKey_keeps_verdicts "venv/data/venv" key (by decide) (by decide) (by decide)
  obtain ⟨above, habove, hparts, -, hwithin⟩ := (hkeeps.2.2.2.2 venvRules).2.2 hkey (by
    rw [hleft, hbelow]
    nofun)
  exact ⟨hleft, by decide +kernel, hkey, hbelow, above, habove, hleft ▸ hparts, hwithin⟩

end SourceDocs.BucketSource
