import Mathlib.Algebra.Order.Floor.Div
import SourceDocs.Chunk

set_option autoImplicit false

/-! # Chunks: what the pieces of a file are

The pieces after a place are numbered from that place on, hold what is left there in order
(`flatMap_content_chunksFrom`), and are as many as the characters that are left need
(`length_chunksFrom`). Each law is an induction along `chunksFrom`, over what one step gives
(`next?_eq_some`). -/

namespace SourceDocs

namespace ChunkPlan

variable {plan : ChunkPlan} {c c' : ChunkCursor} {chunk : Chunk}

/-! ## One step -/

theorem next?_eq_none (h : plan.next? c = none) : c.rest = [] := by
  unfold next? at h
  split at h
  · assumption
  · cases h

/-- Everything a step does: the piece begins what is left, and the next place is after it. -/
theorem next?_eq_some (h : plan.next? c = some (chunk, c')) :
    c.rest ≠ [] ∧
    chunk = { path := plan.path, language := plan.language, index := c.index
              content := String.ofList (c.rest.take plan.size) } ∧
    c'.rest = c.rest.drop plan.size ∧ c'.index = c.index + 1 := by
  unfold next? at h
  split at h
  · cases h
  · rename_i hrest
    cases h
    exact ⟨by rw [hrest]; exact List.cons_ne_nil _ _, rfl, rfl, rfl⟩

/-! ## All steps -/

theorem path_of_mem_chunksFrom (h : chunk ∈ plan.chunksFrom c) :
    chunk.path = plan.path ∧ chunk.language = plan.language := by
  fun_induction chunksFrom plan c with
  | case1 c hnext => simp at h
  | case2 c piece c' hnext ih =>
    obtain ⟨-, rfl, -⟩ := next?_eq_some hnext
    rcases List.mem_cons.1 h with rfl | h
    · exact ⟨rfl, rfl⟩
    · exact ih h

theorem map_index_chunksFrom (plan : ChunkPlan) (c : ChunkCursor) :
    (plan.chunksFrom c).map Chunk.index = List.range' c.index (plan.chunksFrom c).length := by
  fun_induction chunksFrom plan c with
  | case1 c hnext => rfl
  | case2 c piece c' hnext ih =>
    obtain ⟨-, rfl, -, hindex⟩ := next?_eq_some hnext
    rw [List.map_cons, ih, hindex, List.length_cons, List.range'_succ]

theorem flatMap_content_chunksFrom (plan : ChunkPlan) (c : ChunkCursor) :
    (plan.chunksFrom c).flatMap (fun p => p.content.toList) = c.rest := by
  fun_induction chunksFrom plan c with
  | case1 c hnext => rw [next?_eq_none hnext, List.flatMap_nil]
  | case2 c piece c' hnext ih =>
    obtain ⟨-, rfl, hrest, -⟩ := next?_eq_some hnext
    rw [List.flatMap_cons, ih, hrest, String.toList_ofList, List.take_append_drop]

theorem length_chunksFrom (plan : ChunkPlan) (c : ChunkCursor) :
    (plan.chunksFrom c).length = c.rest.length ⌈/⌉ plan.size := by
  have hpos := plan.size_pos
  fun_induction chunksFrom plan c with
  | case1 c hnext => rw [next?_eq_none hnext, List.length_nil, List.length_nil, zero_ceilDiv]
  | case2 c piece c' hnext ih =>
    obtain ⟨hne, -, hrest, -⟩ := next?_eq_some hnext
    have hlen := List.length_pos_iff.2 hne
    rw [List.length_cons, ih, hrest, List.length_drop]
    -- a step takes `size` characters, or all of fewer
    simp only [Nat.ceilDiv_eq_add_pred_div]
    rcases Nat.le_total plan.size c.rest.length with hle | hle
    · rw [← Nat.add_div_right _ hpos]
      congr 1
      omega
    · rw [Nat.sub_eq_zero_of_le hle, Nat.div_eq_of_lt (by omega)]
      exact (Nat.div_eq_of_lt_le (by omega) (by omega)).symm

/-! ## Whole files -/

theorem path_of_mem_chunks (h : chunk ∈ plan.chunks) :
    chunk.path = plan.path ∧ chunk.language = plan.language :=
  path_of_mem_chunksFrom h

/-- The pieces of a file are numbered from zero. -/
theorem map_index_chunks (plan : ChunkPlan) :
    plan.chunks.map Chunk.index = List.range plan.chunks.length := by
  rw [List.range_eq_range']
  exact map_index_chunksFrom plan plan.start

/-- The pieces of a file make up its content. -/
theorem join_content_chunks (plan : ChunkPlan) :
    String.join (plan.chunks.map Chunk.content) = plan.content := by
  rw [← String.toList_inj, String.toList_join, List.flatMap_map]
  exact flatMap_content_chunksFrom plan plan.start

theorem length_chunks (plan : ChunkPlan) :
    plan.chunks.length = plan.content.length ⌈/⌉ plan.size := by
  rw [← String.length_toList]
  exact length_chunksFrom plan plan.start

end ChunkPlan

end SourceDocs
