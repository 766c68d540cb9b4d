import SourceDocs.Text.Percent

set_option autoImplicit false

/-! # Percent-encoding loses nothing

Each byte is written as one character or three (`isWritten_percentByte`), and a reader that meets a
percent sign takes two digits with it, so it reads back byte after byte (`percentDecode?_append`).
No separator is ever written, so a text of encoded parts falls apart into them. -/

namespace SourceDocs.Text

variable {s : String} {b : UInt8} {ch : Char} {rest : List Char} {n : Nat}

/-- The characters that stand for themselves. -/
def unreserved : List Char :=
  "ABCDEFGHIJKLMNOPQRSTUVWXYZabcdefghijklmnopqrstuvwxyz0123456789-_.~".toList

/-- The upper-case hexadecimal digits. -/
def upperHexDigits : List Char := "0123456789ABCDEF".toList

/-- What a byte may be written as: a character that stands for itself, or a percent sign and two
digits. -/
def IsWritten (cs : List Char) : Prop :=
  (∃ ch ∈ unreserved, cs = [ch]) ∨ ∃ a ∈ upperHexDigits, ∃ b ∈ upperHexDigits, cs = ['%', a, b]

/-- The bytes that a percent-encoded text stands for; none if a percent sign lacks its digits. -/
def percentDecode? : List Char → Option (List UInt8)
  | [] => some []
  | '%' :: a :: b :: rest => do
    let hi ← hexValue? a
    let lo ← hexValue? b
    let bytes ← percentDecode? rest
    return UInt8.ofNat (hi * 16 + lo) :: bytes
  | '%' :: _ => none
  | ch :: rest => (percentDecode? rest).map (String.utf8EncodeChar ch ++ ·)

theorem percentDecode?_cons (h : ch ≠ '%') : percentDecode? (ch :: rest) =
    (percentDecode? rest).map (String.utf8EncodeChar ch ++ ·) := by
  rw [percentDecode?]
  · exact fun _ _ _ heq => absurd heq h
  · exact h

theorem forall_byte {P : UInt8 → Prop} (h : ∀ n < 256, P (UInt8.ofNat n)) (b : UInt8) : P b := by
  have hb := h b.toNat b.toNat_lt
  rwa [UInt8.ofNat_toNat] at hb

theorem hexDigit_mem_upperHexDigits (h : n < 16) : hexDigit 'A' n ∈ upperHexDigits := by
  revert n
  decide

theorem hexValue?_hexDigit (h : n < 16) : hexValue? (hexDigit 'A' n) = some n := by
  revert n
  decide

/-- A byte that stands for itself is one of those characters. -/
theorem of_isUnreserved (h : isUnreserved b = true) : Char.ofNat b.toNat ∈ unreserved ∧
    String.utf8EncodeChar (Char.ofNat b.toNat) = [b] := by
  revert h
  exact forall_byte (P := fun b => isUnreserved b = true → Char.ofNat b.toNat ∈ unreserved ∧
    String.utf8EncodeChar (Char.ofNat b.toNat) = [b]) (by decide +kernel) b

theorem isWritten_percentByte (b : UInt8) : IsWritten (percentByte b) := by
  unfold percentByte
  split
  · rename_i h
    exact .inl ⟨_, (of_isUnreserved h).1, rfl⟩
  · have hlt := b.toNat_lt
    exact .inr ⟨_, hexDigit_mem_upperHexDigits (by omega), _,
      hexDigit_mem_upperHexDigits (by omega), rfl⟩

theorem percentDecode?_percentByte_append (b : UInt8) (rest : List Char) :
    percentDecode? (percentByte b ++ rest) = (percentDecode? rest).map (b :: ·) := by
  unfold percentByte
  split
  · rename_i h
    obtain ⟨hmem, hbytes⟩ := of_isUnreserved h
    have hne : Char.ofNat b.toNat ≠ '%' := by
      intro heq
      rw [heq] at hmem
      exact absurd hmem (by decide)
    rw [List.singleton_append, percentDecode?_cons hne, hbytes]
    rfl
  · have hlt := b.toNat_lt
    have hvalue : UInt8.ofNat (b.toNat / 16 * 16 + b.toNat % 16) = b := by
      rw [Nat.div_add_mod', UInt8.ofNat_toNat]
    simp only [List.cons_append, List.nil_append, percentDecode?, Option.bind_eq_bind,
      hexValue?_hexDigit (show b.toNat / 16 < 16 by omega), Option.bind_some,
      hexValue?_hexDigit (show b.toNat % 16 < 16 by omega), hvalue]
    cases percentDecode? rest <;> rfl

theorem percentDecode?_append (bytes : List UInt8) (rest : List Char) :
    percentDecode? (bytes.flatMap percentByte ++ rest) =
      (percentDecode? rest).map (bytes ++ ·) := by
  induction bytes with
  | nil => exact Option.map_id.symm ▸ rfl
  | cons b bytes ih =>
    rw [List.flatMap_cons, List.append_assoc, percentDecode?_percentByte_append, ih,
      Option.map_map]
    rfl

/-- The bytes of a text are those of its characters. -/
theorem encode_eq (s : String) : encode s = s.toUTF8.data.toList := by
  rw [String.toUTF8, ← String.utf8Encode_toList]
  exact List.toList_data_toByteArray.symm

/-- **What is encoded is read back.** -/
theorem percentDecode?_percentEncode (s : String) :
    percentDecode? (percentEncode s).toList = some s.toUTF8.data.toList := by
  have hdecode := percentDecode?_append (encode s) []
  rw [List.append_nil, percentDecode?, Option.map_some, List.append_nil] at hdecode
  rw [percentEncode, String.toList_ofList, hdecode, encode_eq]

/-- The text that a percent-encoded text stands for. -/
def decodedText? (cs : List Char) : Option String :=
  (percentDecode? cs).bind fun bytes => decode? bytes.toByteArray

theorem decodedText?_percentEncode (s : String) :
    decodedText? (percentEncode s).toList = some s := by
  rw [decodedText?, percentDecode?_percentEncode, ← encode_eq, Option.bind_some]
  have hbytes : (encode s).toByteArray = s.toByteArray := String.utf8Encode_toList
  rw [hbytes]
  exact dif_pos s.isValidUTF8

/-- An encoded text consists of characters that stand for themselves, percent signs and digits. -/
theorem exists_written (s : String) : ∃ parts : List (List Char),
    (percentEncode s).toList = parts.flatten ∧ ∀ part ∈ parts, IsWritten part := by
  refine ⟨(encode s).map percentByte, ?_, ?_⟩
  · rw [percentEncode, String.toList_ofList, List.flatMap_def]
  · intro part hpart
    obtain ⟨b, -, rfl⟩ := List.mem_map.1 hpart
    exact isWritten_percentByte b

theorem mem_percentEncode (h : ch ∈ (percentEncode s).toList) : ch = '%' ∨ ch ∈ unreserved := by
  obtain ⟨parts, hparts, hwritten⟩ := exists_written s
  rw [hparts] at h
  obtain ⟨part, hpart, hch⟩ := List.mem_flatten.1 h
  have hdigits : upperHexDigits ⊆ unreserved := by decide
  rcases hwritten part hpart with ⟨x, hx, rfl⟩ | ⟨a, ha, b, hb, rfl⟩
  · rw [List.mem_singleton.1 hch]
    exact .inr hx
  · simp only [List.mem_cons, List.not_mem_nil, or_false] at hch
    rcases hch with rfl | rfl | rfl
    · exact .inl rfl
    · exact .inr (hdigits ha)
    · exact .inr (hdigits hb)

theorem notMem_percentEncode (h : ch ∉ '%' :: unreserved) (s : String) :
    ch ∉ (percentEncode s).toList :=
  fun hmem => h (List.mem_cons.2 (mem_percentEncode hmem))

/-- What stands in texts that are joined by a separator. -/
theorem eq_or_mem_of_mem_intercalate {α : Type} {x sep : α} {parts : List (List α)}
    (h : x ∈ [sep].intercalate parts) : x = sep ∨ ∃ part ∈ parts, x ∈ part := by
  induction parts with
  | nil => cases h
  | cons part parts ih =>
    cases parts with
    | nil => exact .inr ⟨part, List.mem_cons_self, by simpa using h⟩
    | cons next parts =>
      rw [List.intercalate_cons_cons, List.append_assoc, List.mem_append, List.mem_append,
        List.mem_singleton] at h
      rcases h with h | h | h
      · exact .inr ⟨part, List.mem_cons_self, h⟩
      · exact .inl h
      · exact (ih h).imp_right fun ⟨found, hfound, hx⟩ => ⟨found, .tail _ hfound, hx⟩

theorem mem_percentEncodePath {path : String} (h : ch ∈ (percentEncodePath path).toList) :
    ch = '/' ∨ ch = '%' ∨ ch ∈ unreserved := by
  rw [percentEncodePath, String.toList_intercalate] at h
  rcases eq_or_mem_of_mem_intercalate h with h | ⟨part, hpart, h⟩
  · exact .inl h
  · obtain ⟨segment, hsegment, rfl⟩ := List.mem_map.1 hpart
    obtain ⟨segment, -, rfl⟩ := List.mem_map.1 hsegment
    exact .inr (mem_percentEncode h)

/-- The segments of an encoded path are those of the path, encoded. -/
theorem splitOn_percentEncodePath (path : String) :
    (percentEncodePath path).toList.splitOn '/' =
      (path.toList.splitOn '/').map fun segment =>
        (percentEncode (String.ofList segment)).toList := by
  have hslash : ∀ segment, '/' ∉ (percentEncode segment).toList :=
    notMem_percentEncode (by decide)
  rw [percentEncodePath, String.toList_intercalate]
  refine (List.splitOn_intercalate '/' ?_ ?_).trans ?_
  · simp only [List.forall_mem_map]
    exact fun _ _ => hslash _
  · simp
  · simp only [List.map_map]
    rfl

/-- An encoded path is read back segment by segment. -/
theorem decodedText?_percentEncodePath (path : String) :
    ((percentEncodePath path).toList.splitOn '/').map decodedText? =
      (path.toList.splitOn '/').map fun segment => some (String.ofList segment) := by
  rw [splitOn_percentEncodePath, List.map_map]
  refine List.map_congr_left fun segment _ => ?_
  rw [Function.comp_apply, decodedText?_percentEncode]

/-- Segments tell the path that they are those of. -/
theorem eq_of_map_segments {path path' : String}
    (h : ((path.toList.splitOn '/').map fun segment => some (String.ofList segment)) =
      (path'.toList.splitOn '/').map fun segment => some (String.ofList segment)) :
    path = path' := by
  have hsegments := (List.map_inj_right fun _ _ heq =>
    String.ofList_injective (Option.some.inj heq)).1 h
  have hjoined := congrArg (['/'].intercalate ·) hsegments
  simp only [List.intercalate_splitOn] at hjoined
  exact String.toList_inj.1 hjoined

end SourceDocs.Text
