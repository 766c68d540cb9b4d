import SourceDocs.Proofs.Json.Decode

set_option autoImplicit false

/-! # Codecs: what is written is read back, and reading has one normal form

A `Codec` pairs the two directions of a representation. It is `Lawful` for the values that the
representation can hold: these are read back from what they are written as, and nothing else is ever
read. From that alone follows what matters about texts (`Codec.Lawful.roundTrips`): writing what was
read gives a normal form.

Most codecs are those of records, which read an object field by field (`Codec.ReadsRecord`). They
are lenient, in the order of the fields, in unknown fields and in those that are `null`, for one
reason: the reader sees a record as a list of values, one for each of its names. -/

namespace SourceDocs.Json

/-- The two directions of a representation as JSON. -/
structure Codec (α : Type) where
  encode : α → Json
  decode? : Json → Option α

namespace Codec

variable {α : Type} {k : Codec α} {Storable : α → Prop}

/-- The text that a value is written as. -/
def text (k : Codec α) (l : Layout) (a : α) : String :=
  String.ofList ((k.encode a).write l 0)

/-- The value that a text is read as. -/
def parse? (k : Codec α) (t : String) : Option α :=
  (Json.parse? t).bind k.decode?

/-- The values that satisfy `Storable` are those that can be represented. -/
structure Lawful (k : Codec α) (Storable : α → Prop) : Prop where
  plain_encode : ∀ a, (k.encode a).Plain
  decode?_encode : ∀ a, Storable a → k.decode? (k.encode a) = some a
  storable_of_decode? : ∀ j a, k.decode? j = some a → Storable a

theorem Lawful.parse?_text (h : k.Lawful Storable) (l : Layout) {a : α} (ha : Storable a) :
    k.parse? (k.text l a) = some a := by
  rw [Codec.parse?, Codec.text, Json.parse?_text l (h.plain_encode a), Option.bind_some]
  exact h.decode?_encode a ha

end Codec

/-! ## Fields of a record -/

/-- A value, or none if it is `null`. -/
def dropNull : Option Json → Option Json
  | some null => none
  | v => v

/-- A value that must be there. -/
def required? {α : Type} (item : Json → Option α) (v : Option Json) : Option α :=
  v.bind item

section Fields

variable {α : Type} {item : Json → Option α} {fields fields' : List (String × Json)}
  {names : List String} {name : String} {v : Json} {items : List Json}

theorem required?_dropNull (h : item null = none) (v : Option Json) :
    required? item (dropNull v) = required? item v := by
  rcases v with _ | _ | _ | _ | _ | _ | _ | _ | _
  case some.null => exact h.symm
  all_goals rfl

theorem optional?_dropNull (item : Json → Option α) (v : Option Json) :
    optional? item (dropNull v) = optional? item v := by
  rcases v with _ | _ | _ | _ | _ | _ | _ | _ | _ <;> rfl

end Fields

/-! ## Codecs of records -/

namespace Codec

variable {α : Type} {k : Codec α} {names : List String} {read : List (Option Json) → Option α}

/-- The codec sees nothing but the values of the fields, which `read` makes a value of. -/
structure ReadsBy (k : Codec α) (names : List String) (read : List (Option Json) → Option α) :
    Prop where
  nodup : names.Nodup
  decode?_eq : ∀ j, k.decode? j = (record? names j).bind read
  read_dropNull : ∀ vs, read (vs.map dropNull) = read vs

theorem ReadsBy.forall_of_decode? (h : k.ReadsBy names read) {P : α → Prop}
    (hread : ∀ vs a, read vs = some a → P a) : ∀ j a, k.decode? j = some a → P a := by
  intro j a hj
  rw [h.decode?_eq] at hj
  obtain ⟨vs, -, hvs⟩ := Option.bind_eq_some_iff.1 hj
  exact hread vs a hvs

/-- It is enough that the values of the fields are read as what they were written from, and that
    nothing else is read from any. -/
theorem ReadsBy.lawful (h : k.ReadsBy names read) {Storable : α → Prop}
    (fields : α → List (Option Json)) (hplain : ∀ a, (k.encode a).Plain)
    (hencode : ∀ a, record? names (k.encode a) = some (fields a))
    (hread : ∀ a, Storable a → read (fields a) = some a)
    (hstorable : ∀ vs a, read vs = some a → Storable a) : k.Lawful Storable where
  plain_encode := hplain
  decode?_encode a ha := by
    rw [h.decode?_eq, hencode, Option.bind_some, hread a ha]
  storable_of_decode? := h.forall_of_decode? hstorable

end Codec

/-! ## Values of fields -/

section Values

variable {α : Type} {item : Json → Option α} {encode : α → Json} {o : Option α} {v : Option Json}

theorem text?_null : text? null = none := rfl

theorem natUpTo?_null (bound : Nat) : natUpTo? bound null = none := rfl

theorem list?_null (item : Json → Option α) : list? item null = none := rfl

theorem strings_ne_null (ss : List String) : strings ss ≠ null := by
  intro h
  cases h

theorem list?_strings (ss : List String) : list? text? (strings ss) = some ss :=
  list?_array_map string fun _ _ => rfl

theorem plain_strings (ss : List String) : (strings ss).Plain :=
  plain_array_map string fun s _ => .string s

theorem le_of_natUpTo? {bound n : Nat} {j : Json} (h : natUpTo? bound j = some n) : n ≤ bound := by
  unfold natUpTo? at h
  split at h
  · split at h
    · rename_i hle
      exact Option.some.inj h ▸ hle
    · cases h
  · cases h

theorem optional?_map (hnull : ∀ a, encode a ≠ null)
    (h : ∀ a ∈ o, item (encode a) = some a) : optional? item (o.map encode) = some o := by
  cases o with
  | none => rfl
  | some a =>
    unfold optional?
    split
    · rename_i heq
      cases heq
    · rename_i heq
      exact absurd (Option.some.inj heq) (hnull a)
    · rename_i j _ heq
      rw [← Option.some.inj heq, h a rfl, Option.map_some]

theorem forall_of_optional? {P : α → Prop} (h : optional? item v = some o)
    (hitem : ∀ j a, item j = some a → P a) : ∀ a ∈ o, P a := by
  unfold optional? at h
  split at h
  · cases h
    exact fun a ha => nomatch ha
  · cases h
    exact fun a ha => nomatch ha
  · obtain ⟨a, ha, rfl⟩ := Option.map_eq_some_iff.1 h
    intro b hb
    cases hb
    exact hitem _ a ha

theorem plain_optionalField {name : String} {f : String × Json} (hencode : ∀ a, (encode a).Plain)
    (h : f ∈ optionalField name encode o) : f.2.Plain := by
  cases o with
  | none => cases h
  | some a =>
    cases List.mem_singleton.1 h
    exact hencode a

end Values

end SourceDocs.Json
