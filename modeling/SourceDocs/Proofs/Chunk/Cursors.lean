import Mathlib.Data.String.Basic
import SourceDocs.Proofs.Chunk

set_option autoImplicit false

/-! # Cursors over chunks: each goes its own way

A cursor that was moved `n` times stands at `place n`, whatever was done with other cursors
(`step_place`). What it gives next is chunk number `n` (`next?_place`), so a cursor at the end stays
there. Its offset is the number of bytes that it has passed; a step that knows nothing but this
number slices neither inside a character nor outside the text, and cuts out the same chunk
(`sliceNext?_place`). -/

namespace SourceDocs

/-! ## Slicing by bytes -/

namespace Text

/-- The text between two byte offsets; none if one of them is inside a character or outside the
text. -/
def slice? (s : String) (start stop : Nat) : Option String :=
  if h : String.Pos.Raw.IsValid s ⟨start⟩ ∧ String.Pos.Raw.IsValid s ⟨stop⟩ ∧ start ≤ stop then
    some (String.extract (s.pos ⟨start⟩ h.1) (s.pos ⟨stop⟩ h.2.1))
  else none

/-- The byte offsets of characters, of which the first has the given one. -/
def charOffsets (offset : Nat) : List Char → List Nat
  | [] => []
  | c :: cs => offset :: charOffsets (offset + c.utf8Size) cs

variable {s : String} {before piece after : List Char}

/-- The end of what a text begins with is no place inside a character. -/
theorem isValid_utf8Len (h : s.toList = before ++ after) :
    String.Pos.Raw.IsValid s ⟨String.utf8Len before⟩ := by
  refine String.Pos.Raw.isValid_iff_exists_append.2
    ⟨String.ofList before, String.ofList after, ?_, ?_⟩
  · rw [← String.toList_inj, h, String.toList_append, String.toList_ofList, String.toList_ofList]
  · rw [String.rawEndPos_ofList]

/-- A text is cut at the ends of what it begins with. -/
theorem slice?_utf8Len (h : s.toList = before ++ (piece ++ after)) :
    slice? s (String.utf8Len before) (String.utf8Len before + String.utf8Len piece) =
      some (String.ofList piece) := by
  have hstart := isValid_utf8Len h
  have hstop := isValid_utf8Len (h.trans (List.append_assoc before piece after).symm)
  rw [String.utf8Len_append] at hstop
  obtain rfl : s = String.ofList before ++ String.ofList piece ++ String.ofList after := by
    rw [← String.toList_inj, h]
    simp
  have hsize : ∀ cs : List Char, (String.ofList cs).toByteArray.size = String.utf8Len cs :=
    fun cs => by rw [String.size_toByteArray, String.utf8ByteSize_ofList]
  rw [slice?, dif_pos ⟨hstart, hstop, Nat.le_add_right _ _⟩, Option.some.injEq,
    ← String.toByteArray_inj, String.toByteArray_extract, String.offset_pos, String.offset_pos,
    String.toByteArray_append, String.toByteArray_append, ByteArray.extract_append,
    ByteArray.extract_append_eq_right (hsize _).symm (by rw [hsize, hsize]),
    ByteArray.size_append, hsize, hsize, Nat.sub_self]
  simp

/-- Inside a character nothing is cut. -/
example : slice? "éa" 1 2 = none ∧ slice? "éa" 0 2 = some "é" := by decide

theorem getElem?_charOffsets (offset : Nat) (cs : List Char) (n : Nat) :
    (charOffsets offset cs)[n]? =
      if n < cs.length then some (offset + String.utf8Len (cs.take n)) else none := by
  induction cs generalizing offset n with
  | nil => simp [charOffsets]
  | cons c cs ih =>
    cases n with
    | zero => simp [charOffsets]
    | succ n =>
      rw [charOffsets, List.getElem?_cons_succ, ih]
      simp only [List.length_cons, Nat.add_lt_add_iff_right, List.take_succ_cons,
        String.utf8Len_cons]
      split
      · rw [Option.some.injEq]
        omega
      · rfl

end Text

namespace ChunkPlan

variable {plan : ChunkPlan} {ns : List Nat} {n : Nat} {chunk : Chunk}

/-! ## Places -/

/-- Where a cursor is that was moved so often; at the end it stays. -/
def place (plan : ChunkPlan) : Nat → ChunkCursor
  | 0 => plan.start
  | n + 1 =>
    match plan.next? (plan.place n) with
    | some (_, c) => c
    | none => plan.place n

theorem place_succ_of_none (hnext : plan.next? (plan.place n) = none) :
    plan.place (n + 1) = plan.place n := by
  rw [place, hnext]

theorem place_succ_of_some {c : ChunkCursor} (hnext : plan.next? (plan.place n) = some (chunk, c)) :
    plan.place (n + 1) = c := by
  rw [place, hnext]

theorem chunksFrom_of_none {c : ChunkCursor} (hnext : plan.next? c = none) :
    plan.chunksFrom c = [] := by
  rw [chunksFrom]
  split
  · rfl
  · rename_i hnext'
    rw [hnext] at hnext'
    cases hnext'

theorem chunksFrom_of_some {c c' : ChunkCursor} (hnext : plan.next? c = some (chunk, c')) :
    plan.chunksFrom c = chunk :: plan.chunksFrom c' := by
  rw [chunksFrom]
  split
  · rename_i hnext'
    rw [hnext] at hnext'
    cases hnext'
  · rename_i hnext'
    rw [hnext] at hnext'
    cases hnext'
    rfl

/-- From its place on a cursor gives all chunks but those it was moved over. -/
theorem chunksFrom_place (plan : ChunkPlan) (n : Nat) :
    plan.chunksFrom (plan.place n) = plan.chunks.drop n := by
  induction n with
  | zero => rfl
  | succ n ih =>
    rw [← List.drop_drop, ← ih]
    cases hnext : plan.next? (plan.place n) with
    | none => rw [place_succ_of_none hnext, chunksFrom_of_none hnext, List.drop_nil]
    | some x =>
      rw [place_succ_of_some hnext, chunksFrom_of_some hnext, List.drop_one, List.tail_cons]

/-- The next chunk after `n` moves is the one with number `n`. -/
theorem next?_place (plan : ChunkPlan) (n : Nat) :
    plan.next? (plan.place n) = plan.chunks[n]?.map fun chunk => (chunk, plan.place (n + 1)) := by
  rw [← List.head?_drop, ← chunksFrom_place]
  cases hnext : plan.next? (plan.place n) with
  | none => rw [chunksFrom_of_none hnext, List.head?_nil, Option.map_none]
  | some x =>
    rw [chunksFrom_of_some hnext, place_succ_of_some hnext, List.head?_cons, Option.map_some]

theorem rest_place (plan : ChunkPlan) (n : Nat) :
    (plan.place n).rest = plan.content.toList.drop (n * plan.size) := by
  induction n with
  | zero => simp [place, start]
  | succ n ih =>
    rw [Nat.succ_mul, ← List.drop_drop, ← ih]
    cases hnext : plan.next? (plan.place n) with
    | none => rw [place_succ_of_none hnext, next?_eq_none hnext, List.drop_nil]
    | some x =>
      rw [place_succ_of_some hnext]
      exact (next?_eq_some hnext).2.2.1

theorem offset_of_next? {c c' : ChunkCursor} (hnext : plan.next? c = some (chunk, c')) :
    c'.offset = c.offset + chunk.content.utf8ByteSize := by
  unfold next? at hnext
  split at hnext
  · cases hnext
  · cases hnext
    rfl

/-- A cursor has passed the bytes before what is left. -/
theorem offset_place (plan : ChunkPlan) (n : Nat) :
    (plan.place n).offset = String.utf8Len (plan.content.toList.take (n * plan.size)) := by
  induction n with
  | zero => simp [place, start]
  | succ n ih =>
    rw [Nat.succ_mul, List.take_add, String.utf8Len_append, ← ih, ← rest_place]
    cases hnext : plan.next? (plan.place n) with
    | none => rw [place_succ_of_none hnext, next?_eq_none hnext, List.take_nil, String.utf8Len_nil,
        Nat.add_zero]
    | some x =>
      rw [place_succ_of_some hnext, offset_of_next? hnext, (next?_eq_some hnext).2.1,
        String.utf8ByteSize_ofList]

/-! ## Chunks by number -/

/-- Chunk number `n` holds the characters from `n` times the size on. -/
theorem content_of_getElem? (h : plan.chunks[n]? = some chunk) :
    n * plan.size < plan.content.length ∧ chunk.content =
      String.ofList ((plan.content.toList.drop (n * plan.size)).take plan.size) := by
  have hnext := next?_place plan n
  rw [h, Option.map_some] at hnext
  obtain ⟨hne, hchunk, -⟩ := next?_eq_some hnext
  rw [rest_place] at hne hchunk
  rw [ne_eq, List.drop_eq_nil_iff, Nat.not_le, String.length_toList] at hne
  exact ⟨hne, by rw [hchunk]⟩

/-- All chunks are full, except that the last one may hold less. -/
theorem length_content_of_getElem? (h : plan.chunks[n]? = some chunk) :
    chunk.content.length = min plan.size (plan.content.length - n * plan.size) := by
  rw [(content_of_getElem? h).2, String.length_ofList, List.length_take, List.length_drop,
    String.length_toList]

/-! ## Cursors by number of moves -/

/-- How often each cursor was moved, after one more step. -/
def move (ns : List Nat) : Step → List Nat
  | .create => ns ++ [0]
  | .advance i => ns.modify i (· + 1)

/-- How often each cursor was moved. -/
def moves (steps : List Step) : List Nat := steps.foldl move []

/-- What a step answers where cursors were moved so often: a cursor gives the chunk with the number
of its moves. -/
def answer (plan : ChunkPlan) (ns : List Nat) : Step → StepAnswer
  | .create => .created
  | .advance i => .chunk (ns[i]?.bind fun n => plan.chunks[n]?)

/-- The cursors after a list of steps. -/
def cursorsAfter (plan : ChunkPlan) (steps : List Step) : List ChunkCursor :=
  steps.foldl (fun cursors s => (plan.step cursors s).2) []

theorem map_place_move_advance {i : Nat} (hn : ns[i]? = some n) :
    (move ns (.advance i)).map plan.place = (ns.map plan.place).set i (plan.place (n + 1)) := by
  refine List.ext_getElem? fun j => ?_
  rw [move, List.getElem?_map, List.getElem?_modify, List.getElem?_set, List.getElem?_map]
  by_cases hij : i = j
  · subst hij
    obtain ⟨hlt, rfl⟩ := List.getElem?_eq_some_iff.1 hn
    simp [hlt]
  · simp [hij]

/-- What a step does depends only on how often each cursor was moved. -/
theorem step_place (plan : ChunkPlan) (ns : List Nat) (s : Step) :
    plan.step (ns.map plan.place) s = (plan.answer ns s, (move ns s).map plan.place) := by
  cases s with
  | create => simp [step, answer, move, place]
  | advance i =>
    cases hn : ns[i]? with
    | none =>
      have hmove : move ns (.advance i) = ns := by
        rw [move, List.modify_eq_self (by simpa using hn)]
      simp [step, answer, hn, hmove]
    | some n =>
      rw [map_place_move_advance hn]
      simp only [step, answer, List.getElem?_map, hn, Option.map_some, Option.bind_some,
        next?_place]
      cases hchunk : plan.chunks[n]? with
      | none =>
        have hstays : plan.place (n + 1) = plan.place n :=
          place_succ_of_none (by rw [next?_place, hchunk, Option.map_none])
        have hself : (ns.map plan.place)[i]? = some (plan.place n) := by
          rw [List.getElem?_map, hn, Option.map_some]
        obtain ⟨hlt, hself⟩ := List.getElem?_eq_some_iff.1 hself
        rw [Option.map_none, hstays, ← hself, List.set_getElem_self]
      | some chunk => rfl

theorem cursorsAfter_eq (plan : ChunkPlan) (steps : List Step) :
    plan.cursorsAfter steps = (moves steps).map plan.place := by
  have hfrom : ∀ ns : List Nat,
      steps.foldl (fun cursors s => (plan.step cursors s).2) (ns.map plan.place) =
        (steps.foldl move ns).map plan.place := by
    induction steps with
    | nil => exact fun ns => rfl
    | cons s rest ih =>
      intro ns
      rw [List.foldl_cons, List.foldl_cons, step_place, ih]
  exact hfrom []

/-- The answers to steps, each by the moves before it. -/
theorem getElem?_run (plan : ChunkPlan) (steps : List Step) (k : Nat) :
    (plan.run steps)[k]? = steps[k]?.map (plan.answer (moves (steps.take k))) := by
  have hfrom : ∀ (ns : List Nat) (k : Nat), (run.go plan (ns.map plan.place) steps)[k]? =
      steps[k]?.map (plan.answer ((steps.take k).foldl move ns)) := by
    induction steps with
    | nil => simp [run.go]
    | cons s rest ih =>
      intro ns k
      rw [run.go, step_place]
      cases k with
      | zero => simp
      | succ k => simp [ih]
  exact hfrom [] k

/-! ## Steps by byte offset -/

/-- What a cursor gives next and the offset after it, found by slicing at byte offsets alone; none
if a slice is amiss. -/
def sliceNext? (plan : ChunkPlan) (offset index : Nat) : Option (Option (Chunk × Nat)) :=
  let stop := plan.content.utf8ByteSize
  if stop ≤ offset then some none
  else do
    let rest ← Text.slice? plan.content offset stop
    let next := (Text.charOffsets offset rest.toList)[plan.size]?.getD stop
    let piece ← Text.slice? plan.content offset next
    return some ({ path := plan.path, language := plan.language, content := piece, index }, next)

/-- Where the offset is that of what is left, slices are never amiss. -/
theorem sliceNext?_eq {c : ChunkCursor} {passed : List Char}
    (hcontent : plan.content.toList = passed ++ c.rest)
    (hoffset : c.offset = String.utf8Len passed) :
    plan.sliceNext? c.offset c.index = some ((plan.next? c).map fun x => (x.1, x.2.offset)) := by
  have hstop : plan.content.utf8ByteSize = c.offset + String.utf8Len c.rest := by
    rw [← String.utf8Len_toList, hcontent, String.utf8Len_append, hoffset]
  unfold sliceNext? next?
  cases hrest : c.rest with
  | nil => simp [hstop, hrest]
  | cons x xs =>
    have hpos := x.utf8Size_pos
    have hlt : ¬plan.content.utf8ByteSize ≤ c.offset := by
      rw [hstop, hrest, String.utf8Len_cons]
      omega
    have hall : Text.slice? plan.content c.offset plan.content.utf8ByteSize =
        some (String.ofList c.rest) := by
      have hparts : plan.content.toList = passed ++ (c.rest ++ []) := by
        rw [List.append_nil, hcontent]
      rw [hstop, hoffset]
      exact Text.slice?_utf8Len hparts
    have hnext : (Text.charOffsets c.offset c.rest)[plan.size]?.getD plan.content.utf8ByteSize =
        c.offset + String.utf8Len (c.rest.take plan.size) := by
      rw [Text.getElem?_charOffsets]
      split
      · rfl
      · rename_i hsize
        rw [Option.getD_none, hstop, List.take_of_length_le (Nat.le_of_not_lt hsize)]
    have hpiece : Text.slice? plan.content c.offset
        (c.offset + String.utf8Len (c.rest.take plan.size)) =
          some (String.ofList (c.rest.take plan.size)) := by
      have hparts : plan.content.toList =
          passed ++ (c.rest.take plan.size ++ c.rest.drop plan.size) := by
        rw [List.take_append_drop, hcontent]
      rw [hoffset]
      exact Text.slice?_utf8Len hparts
    rw [hrest] at hall hnext hpiece
    simp only [if_neg hlt, hall, hnext, hpiece, String.toList_ofList, Option.bind_eq_bind,
      Option.bind_some, Option.map_some, String.utf8ByteSize_ofList]
    rfl

/-- Wherever a cursor comes to, its offset lies between characters of the text, and slicing there
goes well. -/
theorem sliceNext?_place (plan : ChunkPlan) (n : Nat) :
    String.Pos.Raw.IsValid plan.content ⟨(plan.place n).offset⟩ ∧
    plan.sliceNext? (plan.place n).offset (plan.place n).index =
      some ((plan.next? (plan.place n)).map fun x => (x.1, x.2.offset)) := by
  have hcontent : plan.content.toList =
      plan.content.toList.take (n * plan.size) ++ (plan.place n).rest := by
    rw [rest_place, List.take_append_drop]
  refine ⟨?_, sliceNext?_eq hcontent (offset_place plan n)⟩
  rw [offset_place]
  exact Text.isValid_utf8Len hcontent

/-- **A file is cut exactly.** Its chunks are numbered from zero and as many as its characters need;
all are full but the last, which is not empty; together they are the content. Any number of cursors
may go over them at once: each gives, at its move number `n`, chunk number `n`, and none once there
are no more. The byte offsets at which cursors slice lie between characters of the content. -/
theorem chunking_exact (plan : ChunkPlan) :
    plan.chunks.map Chunk.index = List.range (plan.content.length ⌈/⌉ plan.size) ∧
    (∀ (n : Nat) chunk, plan.chunks[n]? = some chunk →
      chunk.path = plan.path ∧ chunk.language = plan.language ∧
      (n + 1 < plan.content.length ⌈/⌉ plan.size → chunk.content.length = plan.size) ∧
      (n + 1 = plan.content.length ⌈/⌉ plan.size →
        1 ≤ chunk.content.length ∧ chunk.content.length ≤ plan.size)) ∧
    String.join (plan.chunks.map Chunk.content) = plan.content ∧
    ∀ steps,
      (∀ k : Nat, (plan.run steps)[k]? = steps[k]?.map (plan.answer (moves (steps.take k)))) ∧
      ∀ c ∈ plan.cursorsAfter steps,
        String.Pos.Raw.IsValid plan.content ⟨c.offset⟩ ∧
        plan.sliceNext? c.offset c.index =
          some ((plan.next? c).map fun x => (x.1, x.2.offset)) := by
  refine ⟨?_, fun n chunk hchunk => ?_, join_content_chunks plan, fun steps => ⟨?_, ?_⟩⟩
  · rw [map_index_chunks, length_chunks]
  · obtain ⟨hpath, hlanguage⟩ := path_of_mem_chunks (List.mem_of_getElem? hchunk)
    have hlength := length_content_of_getElem? hchunk
    have hbegins := (content_of_getElem? hchunk).1
    -- chunk `n + 1` exists where more than `n + 1` times the size is there
    have hlt : n + 1 < plan.content.length ⌈/⌉ plan.size ↔
        plan.size * (n + 1) < plan.content.length := by
      rw [← Nat.not_le, ceilDiv_le_iff_le_mul plan.size_pos, Nat.not_le]
    have hmul : plan.size * (n + 1) = n * plan.size + plan.size := by
      rw [Nat.mul_comm, Nat.succ_mul]
    have hpos := plan.size_pos
    refine ⟨hpath, hlanguage, fun hmore => ?_, fun _ => ?_⟩
    · have := hlt.1 hmore
      omega
    · omega
  · exact getElem?_run plan steps
  · intro c hc
    rw [cursorsAfter_eq] at hc
    obtain ⟨n, -, rfl⟩ := List.mem_map.1 hc
    exact sliceNext?_place plan n

end ChunkPlan

end SourceDocs
