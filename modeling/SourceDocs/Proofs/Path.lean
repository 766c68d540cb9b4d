import Mathlib.Data.List.TakeWhile
import SourceDocs.Path

set_option autoImplicit false

/-! # Paths: segments, and where the last slash is

A path is its segments joined (`intercalate_segments`), and segments that are joined are told from
each other again (`segments_intercalate`). The last slash of a path parts its last segment from
those above it (`segments_eq`). What is above, read as a path of its own, has the same proper
segments (`properSegments_eq`), whether slashes are doubled there or lead. -/

namespace SourceDocs.Path

/-- What follows the last slash, or the whole path. -/
def afterLastSlash (path : String) : String :=
  String.ofList (path.toList.reverse.takeWhile (· ≠ '/')).reverse

variable {path : String}

/-! ## Segments -/

/-- No part between separators has one. -/
theorem notMem_of_mem_splitOn {sep : Char} {cs part : List Char} (h : part ∈ cs.splitOn sep) :
    sep ∉ part := by
  induction cs generalizing part with
  | nil =>
    rw [List.splitOn_nil, List.mem_singleton] at h
    rw [h]
    exact List.not_mem_nil
  | cons c cs ih =>
    obtain ⟨next, parts, hparts⟩ := List.exists_cons_of_ne_nil (List.splitOn_ne_nil sep cs)
    rw [hparts] at ih
    rw [List.splitOn_cons_eq_if_modifyHead, hparts, List.modifyHead_cons] at h
    split at h
    · rcases List.mem_cons.1 h with rfl | h
      · exact List.not_mem_nil
      · exact ih h
    · rename_i hc
      rcases List.mem_cons.1 h with rfl | h
      · rw [List.mem_cons, not_or]
        exact ⟨fun heq => hc (by simp [heq]), ih List.mem_cons_self⟩
      · exact ih (List.mem_cons_of_mem _ h)

theorem slash_notMem_of_mem_segments {s : String} (h : s ∈ segments path) : '/' ∉ s.toList := by
  obtain ⟨part, hpart, rfl⟩ := List.mem_map.1 h
  rw [String.toList_ofList]
  exact notMem_of_mem_splitOn hpart

theorem exists_segments (path : String) : ∃ first rest, segments path = first :: rest := by
  refine List.exists_cons_of_ne_nil fun hnil => ?_
  exact List.splitOn_ne_nil '/' path.toList (List.map_eq_nil_iff.1 hnil)

/-- A path is its segments, joined. -/
theorem intercalate_segments (path : String) : "/".intercalate (segments path) = path := by
  have htext : "/".toList = ['/'] := rfl
  rw [← String.toList_inj, String.toList_intercalate, htext, segments, List.map_map]
  simp [Function.comp_def]

/-- Segments that are joined are the segments of a path. -/
theorem segments_intercalate {ss : List String} (hne : ss ≠ []) (hslash : ∀ s ∈ ss, '/' ∉ s.toList) :
    segments ("/".intercalate ss) = ss := by
  have htext : "/".toList = ['/'] := rfl
  have hsplit : ("/".intercalate ss).toList.splitOn '/' = ss.map String.toList := by
    rw [String.toList_intercalate, htext]
    refine List.splitOn_intercalate '/' ?_ (by simpa using hne)
    intro cs hcs
    obtain ⟨s, hs, rfl⟩ := List.mem_map.1 hcs
    exact hslash s hs
  rw [segments, hsplit, List.map_map]
  simp

/-- A slash parts the segments before it from those after it. -/
theorem segments_append_slash (above below : String) :
    segments (above ++ "/" ++ below) = segments above ++ segments below := by
  have htext : (above ++ "/" ++ below).toList = above.toList ++ '/' :: below.toList := by
    rw [String.toList_append, String.toList_append, List.append_assoc]
    rfl
  rw [segments, htext, List.splitOn_append_cons_self, List.map_append]
  rfl

/-! ## The last slash -/

theorem slash_notMem_afterLastSlash : '/' ∉ (afterLastSlash path).toList := by
  rw [afterLastSlash, String.toList_ofList, List.mem_reverse]
  intro hmem
  simpa using List.mem_takeWhile_imp hmem

theorem afterLastSlash_of_notMem (h : '/' ∉ path.toList) : afterLastSlash path = path := by
  have hall : path.toList.reverse.takeWhile (· ≠ '/') = path.toList.reverse := by
    rw [List.takeWhile_eq_self_iff]
    intro c hc
    have hne : c ≠ '/' := by
      rintro rfl
      exact h (List.mem_reverse.1 hc)
    simpa using hne
  rw [afterLastSlash, hall, List.reverse_reverse, String.ofList_toList]

/-- A path with a slash is what is above the last one, the slash and what follows. -/
theorem toList_eq_of_mem (h : '/' ∈ path.toList) :
    path.toList = (upToLastSlash path).toList ++ '/' :: (afterLastSlash path).toList := by
  -- both sides are cut out of the reversed path, at its first slash
  have hparts := List.takeWhile_append_dropWhile (p := (· ≠ '/')) (l := path.toList.reverse)
  obtain ⟨above, habove⟩ : ∃ above, path.toList.reverse.dropWhile (· ≠ '/') = '/' :: above := by
    cases hdrop : path.toList.reverse.dropWhile (· ≠ '/') with
    | nil =>
      rw [List.dropWhile_eq_nil_iff] at hdrop
      simpa using hdrop '/' (List.mem_reverse.2 h)
    | cons c above =>
      have hhead := List.head?_dropWhile_not (p := (· ≠ '/')) (l := path.toList.reverse)
      rw [hdrop] at hhead
      have hc : c = '/' := by simpa using hhead
      exact ⟨above, by rw [hc]⟩
  rw [habove] at hparts
  have hlist := congrArg List.reverse hparts
  rw [List.reverse_reverse, List.reverse_append, List.reverse_cons, List.append_assoc,
    List.singleton_append] at hlist
  simp only [upToLastSlash, List.contains_iff_mem, h, if_true, habove, List.tail_cons,
    afterLastSlash, String.toList_ofList]
  exact hlist.symm

theorem upToLastSlash_of_notMem (h : '/' ∉ path.toList) : upToLastSlash path = "" := by
  simp [upToLastSlash, h]

/-- The last segment is what follows the last slash, and the others are those above it. -/
theorem segments_eq (h : '/' ∈ path.toList) :
    segments path = segments (upToLastSlash path) ++ [afterLastSlash path] := by
  rw [segments, toList_eq_of_mem h, List.splitOn_append_cons_self,
    List.splitOn_eq_singleton slash_notMem_afterLastSlash, List.map_append, List.map_singleton,
    String.ofList_toList]
  rfl

theorem segments_of_notMem (h : '/' ∉ path.toList) : segments path = [afterLastSlash path] := by
  rw [segments, List.splitOn_eq_singleton h, afterLastSlash_of_notMem h, List.map_singleton,
    String.ofList_toList]

theorem properSegments_eq (path : String) :
    properSegments path =
      properSegments (upToLastSlash path) ++ [afterLastSlash path].filter (· ≠ "") := by
  by_cases h : '/' ∈ path.toList
  · rw [properSegments, segments_eq h, List.filter_append]
    rfl
  · have hnone : properSegments (upToLastSlash path) = [] := by
      rw [upToLastSlash_of_notMem h]
      rfl
    rw [properSegments, segments_of_notMem h, hnone, List.nil_append]

theorem getLast?_segments (path : String) :
    (segments path).getLast? = some (afterLastSlash path) := by
  by_cases h : '/' ∈ path.toList
  · rw [segments_eq h, List.getLast?_concat]
  · rw [segments_of_notMem h]
    rfl

/-- A path that neither is empty nor ends in a slash has a last segment. -/
theorem afterLastSlash_ne_empty (hne : path ≠ "") (hend : path.toList.getLast? ≠ some '/') :
    afterLastSlash path ≠ "" := by
  intro hlast
  by_cases h : '/' ∈ path.toList
  · apply hend
    rw [toList_eq_of_mem h, hlast]
    simp
  · rw [afterLastSlash_of_notMem h] at hlast
    exact hne hlast

end SourceDocs.Path
