import SourceDocs.Json.Decode
import SourceDocs.Proofs.Json.RoundTrip

set_option autoImplicit false

/-! # What is decoded from encoded data

Lists and maps of things that can be read back can be read back themselves (`list?_array_map`,
`entries?_object_map`), and their values have a text of their own if those of the things do. -/

namespace SourceDocs.Json

variable {α : Type} {decode? : Json → Option α}

/-! ## Plain values -/

theorem plain_array_map (encode : α → Json) {xs : List α} (h : ∀ x ∈ xs, Plain (encode x)) :
    Plain (array (xs.map encode)) := by
  refine .array fun v hv => ?_
  obtain ⟨x, hx, rfl⟩ := List.mem_map.1 hv
  exact h x hx

theorem plain_object_map {κ : Type} (name : κ → String) (encode : α → Json) {es : List (κ × α)}
    (h : ∀ e ∈ es, Plain (encode e.2)) :
    Plain (object (es.map fun e => (name e.1, encode e.2))) := by
  refine .object fun f hf => ?_
  obtain ⟨e, he, rfl⟩ := List.mem_map.1 hf
  exact h e he

/-! ## Lists and maps -/

theorem mapM_map_of_forall {β γ : Type} {f : β → Option γ} {g : α → β} {g' : α → γ} {xs : List α}
    (h : ∀ x ∈ xs, f (g x) = some (g' x)) : (xs.map g).mapM f = some (xs.map g') := by
  induction xs with
  | nil => rfl
  | cons x xs ih =>
    rw [List.map_cons, List.mapM_cons, h x List.mem_cons_self,
      ih fun y hy => h y (List.mem_cons_of_mem _ hy)]
    rfl

theorem list?_array_map (encode : α → Json) {xs : List α}
    (h : ∀ x ∈ xs, decode? (encode x) = some x) :
    list? decode? (array (xs.map encode)) = some xs := by
  rw [list?, mapM_map_of_forall h, List.map_id']

theorem entries?_object_map {κ : Type} (name : κ → String) (encode : α → Json) {es : List (κ × α)}
    (h : ∀ e ∈ es, decode? (encode e.2) = some e.2) :
    entries? decode? (object (es.map fun e => (name e.1, encode e.2))) =
      some (es.map fun e => (name e.1, e.2)) := by
  rw [entries?]
  refine mapM_map_of_forall fun e he => ?_
  rw [h e he, Option.map_some]

end SourceDocs.Json
