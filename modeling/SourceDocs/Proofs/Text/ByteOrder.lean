import Mathlib.Data.String.Basic
import Mathlib.Tactic.ByContra
import Mathlib.Tactic.SplitIfs
import SourceDocs.Language
import SourceDocs.Text.Utf8

set_option autoImplicit false

/-! # Byte order: texts compare as their bytes do

UTF-8 keeps the order of characters: of two characters, the smaller one differs from the other first
in a smaller byte (`utf8EncodeChar_append_lt`). So texts, which compare by characters, compare by
bytes (`encode_lt_iff`), and so do language labels (`Language.Precedes`). -/

namespace SourceDocs

namespace Text

/-- Numbers compare by what is above their last six bits, then by these. -/
theorem div_lt_or_mod_lt {v w : Nat} (h : v < w) :
    v / 64 < w / 64 ∨ (v / 64 = w / 64 ∧ v % 64 < w % 64) := by
  omega

/-- The bytes of the smaller of two characters are smaller, whatever follows them. -/
theorem utf8EncodeChar_append_lt {c d : Char} (h : c < d) (xs ys : List UInt8) :
    String.utf8EncodeChar c ++ xs < String.utf8EncodeChar d ++ ys := by
  have hval : c.val.toNat < d.val.toNat := h
  have hmax : d.val.toNat < 1114112 := by
    rcases d.valid with hlow | hhigh <;> simp only [UInt32.toNat] at * <;> omega
  unfold String.utf8EncodeChar
  generalize c.val.toNat = v at hval
  generalize d.val.toNat = w at hval hmax
  -- where the first of the digits to the base 64 differ
  have hdigits : v / 64 / 64 / 64 < w / 64 / 64 / 64 ∨ (v / 64 / 64 / 64 = w / 64 / 64 / 64 ∧
      (v / 64 / 64 % 64 < w / 64 / 64 % 64 ∨ (v / 64 / 64 % 64 = w / 64 / 64 % 64 ∧
        (v / 64 % 64 < w / 64 % 64 ∨ (v / 64 % 64 = w / 64 % 64 ∧ v % 64 < w % 64))))) := by
    rcases div_lt_or_mod_lt hval with h₁ | h₁
    · rcases div_lt_or_mod_lt h₁ with h₂ | h₂
      · rcases div_lt_or_mod_lt h₂ with h₃ | h₃
        · exact Or.inl h₃
        · exact Or.inr ⟨h₃.1, Or.inl h₃.2⟩
      · exact Or.inr ⟨by rw [h₂.1], Or.inr ⟨by rw [h₂.1], Or.inl h₂.2⟩⟩
    · exact Or.inr ⟨by rw [h₁.1], Or.inr ⟨by rw [h₁.1], Or.inr ⟨by rw [h₁.1], h₁.2⟩⟩⟩
  simp only [Nat.div_div_eq_div_mul, Nat.reduceMul] at hdigits
  have hlow (n : Nat) : (n % 64 + 128) % 2 ^ 8 = n % 64 + 128 := by omega
  have hhigh (n : Nat) (hn : n < 1114112) : (n / 262144 % 8 + 240) % 2 ^ 8 = n / 262144 + 240 := by
    omega
  dsimp only
  -- a longer form begins with a larger byte, and forms of one length differ as their digits do
  split_ifs <;>
    simp only [List.cons_append, List.nil_append, List.cons_lt_cons_iff, UInt8.lt_iff_toNat_lt,
      ← UInt8.toNat_inj, UInt8.toNat_ofNat', hlow, hhigh v (hval.trans hmax), hhigh w hmax] <;>
    omega

theorem encode_lt_encode {as bs : List Char} (h : as < bs) :
    as.flatMap String.utf8EncodeChar < bs.flatMap String.utf8EncodeChar := by
  induction as generalizing bs with
  | nil =>
    cases bs with
    | nil => exact absurd h (List.not_lt_nil _)
    | cons b bs =>
      have hne : String.utf8EncodeChar b ≠ [] := by
        unfold String.utf8EncodeChar
        dsimp only
        split_ifs <;> exact List.cons_ne_nil _ _
      obtain ⟨x, xs, hx⟩ := List.exists_cons_of_ne_nil hne
      rw [List.flatMap_nil, List.flatMap_cons, hx]
      exact List.nil_lt_cons _ _
  | cons a as ih =>
    cases bs with
    | nil => exact absurd h (List.not_lt_nil _)
    | cons b bs =>
      rw [List.flatMap_cons, List.flatMap_cons]
      rcases List.cons_lt_cons_iff.1 h with hlt | ⟨rfl, hlt⟩
      · exact utf8EncodeChar_append_lt hlt _ _
      · exact List.append_left_lt (ih hlt)

/-- **Texts compare as their bytes do.** -/
theorem encode_lt_iff {s t : String} : encode s < encode t ↔ s < t := by
  rw [String.lt_iff_toList_lt]
  refine ⟨fun h => ?_, encode_lt_encode⟩
  by_contra hnot
  rcases List.le_iff_lt_or_eq.1 (List.not_lt.1 hnot) with hlt | heq
  · exact List.lt_asymm h (encode_lt_encode hlt)
  · rw [encode, encode, heq] at h
    exact List.lt_irrefl _ h

end Text

namespace Language

/-- Which of two labels comes first: names are in the order of their bytes, the sentinel is last. -/
def Precedes : Language → Language → Prop
  | known a, known b => Text.encode a < Text.encode b
  | known _, unknown => True
  | unknown, _ => False

theorem compare_eq_lt_iff {l l' : Language} : compare l l' = .lt ↔ Precedes l l' := by
  cases l with
  | known a =>
    cases l' with
    | known b => rw [compare_known, Precedes, Text.encode_lt_iff]; exact compareOfLessAndEq_eq_lt
    | unknown => exact iff_of_true rfl trivial
  | unknown =>
    cases l' with
    | known b => exact iff_of_false nofun nofun
    | unknown => exact iff_of_false nofun nofun

end Language

end SourceDocs
