set_option autoImplicit false

/-! # Sorted maps: association lists in strictly ascending key order

A map with an order that outputs show. Its entries are a list whose keys ascend strictly, so two
maps with the same contents are equal, and going through a map is going through its list. The list
functions `findEntry?` and `upsertEntry` are also used on their own by types that cannot carry the
order as a field. -/

namespace SourceDocs

variable {κ α : Type} [Ord κ]

/-! ## Association lists -/

/-- The value stored under `k`. -/
def findEntry? (k : κ) : List (κ × α) → Option α
  | [] => none
  | (k', v) :: rest => if compare k k' = .eq then some v else findEntry? k rest

/-- Replaces the value under `k` by `f` of the old one, keeping ascending keys ascending. -/
def upsertEntry (k : κ) (f : Option α → α) : List (κ × α) → List (κ × α)
  | [] => [(k, f none)]
  | (k', v) :: rest =>
    match compare k k' with
    | .lt => (k, f none) :: (k', v) :: rest
    | .eq => (k, f (some v)) :: rest
    | .gt => (k', v) :: upsertEntry k f rest

/-- The keys ascend strictly. -/
def Ascending (entries : List (κ × α)) : Prop :=
  entries.Pairwise fun a b => compare a.1 b.1 = .lt

variable [Std.TransOrd κ] [Std.LawfulEqOrd κ]

omit [Std.TransOrd κ] [Std.LawfulEqOrd κ] in
theorem mem_keys_upsertEntry (k : κ) (f : Option α → α) (entries : List (κ × α)) (x : κ × α)
    (h : x ∈ upsertEntry k f entries) : x.1 = k ∨ x ∈ entries := by
  induction entries with
  | nil => simp only [upsertEntry, List.mem_singleton] at h; exact .inl (by rw [h])
  | cons e rest ih =>
    obtain ⟨k', v⟩ := e
    simp only [upsertEntry] at h
    split at h
    · rcases List.mem_cons.1 h with rfl | h
      · exact .inl rfl
      · exact .inr h
    · rcases List.mem_cons.1 h with rfl | h
      · exact .inl rfl
      · exact .inr (List.mem_cons_of_mem _ h)
    · rcases List.mem_cons.1 h with rfl | h
      · exact .inr List.mem_cons_self
      · rcases ih h with h | h
        · exact .inl h
        · exact .inr (List.mem_cons_of_mem _ h)

theorem Ascending.upsert {entries : List (κ × α)} (h : Ascending entries) (k : κ)
    (f : Option α → α) : Ascending (upsertEntry k f entries) := by
  induction entries with
  | nil => exact List.pairwise_singleton _ _
  | cons e rest ih =>
    obtain ⟨k', v⟩ := e
    obtain ⟨hhead, htail⟩ := List.pairwise_cons.1 h
    simp only [upsertEntry]
    split
    · rename_i hlt
      refine List.pairwise_cons.2 ⟨fun x hx => ?_, h⟩
      rcases List.mem_cons.1 hx with rfl | hx
      · exact hlt
      · exact Std.TransCmp.lt_trans hlt (hhead x hx)
    · rename_i heq
      have hk := Std.LawfulEqCmp.eq_of_compare heq
      subst hk
      exact List.pairwise_cons.2 ⟨hhead, htail⟩
    · rename_i hgt
      refine List.pairwise_cons.2 ⟨fun x hx => ?_, ih htail⟩
      rcases mem_keys_upsertEntry k f rest x hx with hk | hx
      · rw [hk]; exact Std.OrientedCmp.lt_of_gt hgt
      · exact hhead x hx

/-! ## Maps -/

/-- A map from `κ` to `α` whose entries are in strictly ascending key order. -/
structure SortedMap (κ α : Type) [Ord κ] where
  entries : List (κ × α)
  ascending : Ascending entries

namespace SortedMap

/-- The map without entries. -/
def empty {κ α : Type} [Ord κ] : SortedMap κ α :=
  ⟨[], List.Pairwise.nil⟩

/-- The value under `k`. -/
def get? {κ α : Type} [Ord κ] (m : SortedMap κ α) (k : κ) : Option α :=
  findEntry? k m.entries

/-- The number of entries. -/
def size {κ α : Type} [Ord κ] (m : SortedMap κ α) : Nat :=
  m.entries.length

/-- The values in key order. -/
def values {κ α : Type} [Ord κ] (m : SortedMap κ α) : List α :=
  m.entries.map Prod.snd

/-- The sum of the sizes of all values. -/
def total {κ α : Type} [Ord κ] (m : SortedMap κ α) (sizeOf : α → Nat) : Nat :=
  m.entries.foldr (fun e n => sizeOf e.2 + n) 0

/-- Replaces the value under `k` by `f` of the old one. -/
def upsert (m : SortedMap κ α) (k : κ) (f : Option α → α) : SortedMap κ α :=
  ⟨upsertEntry k f m.entries, m.ascending.upsert k f⟩

/-- Stores `v` under `k`, in place of what was there. -/
def insert (m : SortedMap κ α) (k : κ) (v : α) : SortedMap κ α :=
  m.upsert k fun _ => v

/-- The map of a list of entries; of two with one key the later wins. -/
def ofList (entries : List (κ × α)) : SortedMap κ α :=
  entries.foldl (fun m e => m.insert e.1 e.2) empty

/-- Counts the occurrences of each member of a list. -/
def tally (keys : List κ) : SortedMap κ Nat :=
  keys.foldl (fun m k => m.upsert k fun n => n.getD 0 + 1) empty

end SortedMap

end SourceDocs
