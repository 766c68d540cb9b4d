import SourceDocs.Text.Hex

set_option autoImplicit false

/-! # Character references

A reference is `&`, a name or a number, and `;`. Five names are known; a number is a code point,
decimal after `#` or hexadecimal after `#x`. -/

namespace SourceDocs.Xml

/-- Whether a character separates the parts of markup. -/
def isBlank (c : Char) : Bool :=
  c = ' ' || c = '\t' || c = '\n' || c = '\r'

/-- The characters that have names. -/
def entities : List (List Char × Char) :=
  [(['l', 't'], '<'), (['g', 't'], '>'), (['a', 'm', 'p'], '&'), (['a', 'p', 'o', 's'], '\''),
    (['q', 'u', 'o', 't'], '"')]

/-- The value of a digit of a number of a base, which is at most sixteen. -/
def digitValue? (base : Nat) (c : Char) : Option Nat :=
  (Text.hexValue? c).filter (· < base)

/-- The value of a number of a base that has at least one digit. -/
def number? (base : Nat) (digits : List Char) : Option Nat :=
  if digits.isEmpty then none
  else (digits.mapM (digitValue? base)).map fun values =>
    values.foldl (fun n v => n * base + v) 0

/-- The character of a code point other than zero. -/
def charOf? (code : Nat) : Option Char :=
  if code ≠ 0 ∧ code.isValidChar then some (Char.ofNat code) else none

/-- The character that the inside of a reference stands for. -/
def referenced? : List Char → Option Char
  | '#' :: 'x' :: digits => (number? 16 digits).bind charOf?
  | '#' :: digits => (number? 10 digits).bind charOf?
  | name => entities.lookup name

/-- What precedes the `;` of a reference and what follows it. -/
def splitReference? : List Char → Option (List Char × List Char)
  | [] => none
  | ';' :: cs => some ([], cs)
  | '&' :: _ => none
  | c :: cs => (splitReference? cs).map fun (inside, rest) => (c :: inside, rest)

theorem length_lt_of_splitReference? {cs inside rest : List Char}
    (h : splitReference? cs = some (inside, rest)) : rest.length < cs.length := by
  induction cs generalizing inside with
  | nil => simp [splitReference?] at h
  | cons c cs ih =>
    unfold splitReference? at h
    split at h
    · simp_all
    · simp_all
    · simp_all
    · rename_i c' cs' _ _ heq
      obtain ⟨⟨inside', rest'⟩, hs, he⟩ := Option.map_eq_some_iff.1 h
      simp only [List.cons.injEq, Prod.mk.injEq] at heq he
      obtain ⟨-, rfl⟩ := heq
      obtain ⟨-, rfl⟩ := he
      have := ih hs
      simp only [List.length_cons]
      omega

/-- A text with its references resolved; none if there is a `&` that begins no reference. -/
def unescape? : List Char → Option (List Char)
  | [] => some []
  | '&' :: cs =>
    match h : splitReference? cs with
    | none => none
    | some (inside, rest) => do
      have := length_lt_of_splitReference? h
      return (← referenced? inside) :: (← unescape? rest)
  | c :: cs => (unescape? cs).map (c :: ·)
  termination_by cs => cs.length
  decreasing_by all_goals (simp only [List.length_cons]; omega)

end SourceDocs.Xml
