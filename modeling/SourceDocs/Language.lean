set_option autoImplicit false

/-! # Language labels

The programming language of a file: a name, or the sentinel for files of no known language. Labels
are ordered by name, the sentinel after all names. -/

namespace SourceDocs

/-- A file's programming language. -/
inductive Language where
  | known (name : String)
  | unknown
  deriving DecidableEq

namespace Language

/-- The name that stands for the sentinel in texts. -/
def unknownName : String := "Unknown"

/-- The label as text. -/
def name : Language → String
  | known name => name
  | unknown => unknownName

/-- The label a text stands for. -/
def ofName (name : String) : Language :=
  if name = unknownName then unknown else known name

instance : ToString Language := ⟨name⟩

instance : Ord Language where
  compare
    | known a, known b => compare a b
    | known _, unknown => .lt
    | unknown, known _ => .gt
    | unknown, unknown => .eq

theorem compare_known (a b : String) : compare (known a) (known b) = compare a b := rfl

instance : Std.LawfulEqOrd Language where
  compare_self {a} := by
    match a with
    | known a => exact @Std.ReflCmp.compare_self String compare _ a
    | unknown => rfl
  eq_of_compare {a b} h := by
    match a, b, h with
    | known a, known b, h =>
      rw [compare_known] at h
      exact congrArg known (Std.LawfulEqCmp.eq_of_compare h)
    | unknown, unknown, _ => rfl

instance : Std.TransOrd Language where
  eq_swap {a b} := by
    match a, b with
    | known a, known b => exact @Std.OrientedCmp.eq_swap String compare _ a b
    | known _, unknown => rfl
    | unknown, known _ => rfl
    | unknown, unknown => rfl
  isLE_trans {a b c} hab hbc := by
    match a, b, c, hab, hbc with
    | known a, known b, known c, hab, hbc =>
      rw [compare_known] at hab hbc ⊢
      exact Std.TransCmp.isLE_trans hab hbc
    | known _, _, unknown, _, _ => rfl
    | unknown, unknown, unknown, _, _ => rfl

end Language

end SourceDocs
