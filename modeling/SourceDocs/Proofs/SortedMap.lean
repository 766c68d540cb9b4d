import Mathlib.Algebra.GroupWithZero.Nat
import Mathlib.Data.List.Dedup
import Mathlib.Data.List.Induction
import Mathlib.Data.List.Nodup
import SourceDocs.SortedMap

set_option autoImplicit false

/-! # Sorted maps: looking up after an update

In a list with ascending keys an item is found by its key (`findEntry?_eq_some_iff`). An update
replaces what is found under its key and nothing else. So in a map made from a list the last item
with a key is found (`SortedMap.get?_ofList_of_last`), and in a tally the number of times that a key
occurs (`SortedMap.get?_tally`). -/

namespace SourceDocs

section Entries

variable {κ α : Type} [Ord κ] [Std.LawfulEqOrd κ] {entries : List (κ × α)} {k k' : κ} {v : α}

theorem ne_of_compare_lt (h : compare k k' = .lt) : k ≠ k' := by
  rintro rfl
  simp at h

theorem mem_of_findEntry (h : findEntry? k entries = some v) : (k, v) ∈ entries := by
  induction entries with
  | nil =>
    unfold findEntry? at h
    cases h
  | cons e rest ih =>
    obtain ⟨k', v'⟩ := e
    unfold findEntry? at h
    split at h
    · rename_i heq
      cases h
      rw [Std.LawfulEqCmp.eq_of_compare heq]
      exact List.mem_cons_self
    · exact List.mem_cons_of_mem _ (ih h)

theorem Ascending.findEntry?_of_mem (hasc : Ascending entries) (h : (k, v) ∈ entries) :
    findEntry? k entries = some v := by
  induction entries with
  | nil => simp at h
  | cons e rest ih =>
    obtain ⟨k', v'⟩ := e
    obtain ⟨hhead, htail⟩ := List.pairwise_cons.1 hasc
    rcases List.mem_cons.1 h with heq | h
    · cases heq
      unfold findEntry?
      simp
    · have hne : compare k k' ≠ .eq := fun heq =>
        ne_of_compare_lt (hhead _ h) (Std.LawfulEqCmp.eq_of_compare heq).symm
      unfold findEntry?
      rw [if_neg hne]
      exact ih htail h

/-- An item of an ascending list is found by its key. -/
theorem findEntry?_eq_some_iff (hasc : Ascending entries) :
    findEntry? k entries = some v ↔ (k, v) ∈ entries :=
  ⟨mem_of_findEntry, hasc.findEntry?_of_mem⟩

/-- Ascending lists in which the same is found under every key are equal. -/
theorem Ascending.ext [Std.TransOrd κ] {entries' : List (κ × α)} (h : Ascending entries)
    (h' : Ascending entries') (hsame : ∀ k, findEntry? k entries = findEntry? k entries') :
    entries = entries' := by
  have hnodup : ∀ {l : List (κ × α)}, Ascending l → l.Nodup := fun hasc =>
    hasc.imp fun hlt heq => ne_of_compare_lt hlt (congrArg Prod.fst heq)
  have hperm : entries.Perm entries' := by
    refine (List.perm_ext_iff_of_nodup (hnodup h) (hnodup h')).2 fun e => ?_
    rw [← findEntry?_eq_some_iff h, ← findEntry?_eq_some_iff h', hsame]
  refine hperm.eq_of_pairwise (fun a b _ _ hab hba => ?_) h h'
  rw [Std.OrientedCmp.gt_of_lt hab] at hba
  cases hba

/-- Before the first key nothing is found. -/
theorem findEntry?_eq_none_of_lt (h : ∀ e ∈ entries, compare k e.1 = .lt) :
    findEntry? k entries = none := by
  cases hfound : findEntry? k entries with
  | none => rfl
  | some v => exact absurd rfl (ne_of_compare_lt (h _ (mem_of_findEntry hfound)))

theorem findEntry?_upsertEntry_self [Std.TransOrd κ] (f : Option α → α)
    (hasc : Ascending entries) :
    findEntry? k (upsertEntry k f entries) = some (f <| findEntry? k entries) := by
  induction entries with
  | nil => simp [upsertEntry, findEntry?]
  | cons e rest ih =>
    obtain ⟨k₁, v₁⟩ := e
    obtain ⟨hhead, htail⟩ := List.pairwise_cons.1 hasc
    cases hk : compare k k₁ with
    | lt =>
      have hnone : findEntry? k ((k₁, v₁) :: rest) = none := by
        refine findEntry?_eq_none_of_lt fun x hx => ?_
        rcases List.mem_cons.1 hx with rfl | hx
        · exact hk
        · exact Std.TransCmp.lt_trans hk (hhead x hx)
      rw [hnone]
      simp [upsertEntry, hk, findEntry?]
    | eq => simp [upsertEntry, hk, findEntry?]
    | gt => simp [upsertEntry, hk, findEntry?, ih htail]

theorem findEntry?_upsertEntry_of_ne (f : Option α → α) (h : k' ≠ k) :
    findEntry? k' (upsertEntry k f entries) = findEntry? k' entries := by
  have hne : compare k' k ≠ .eq := fun heq => h (Std.LawfulEqCmp.eq_of_compare heq)
  induction entries with
  | nil => simp [upsertEntry, findEntry?, hne]
  | cons e rest ih =>
    obtain ⟨k₁, v₁⟩ := e
    cases hk : compare k k₁ with
    | lt => simp [upsertEntry, hk, findEntry?, hne]
    | eq =>
      obtain rfl := Std.LawfulEqCmp.eq_of_compare hk
      simp [upsertEntry, findEntry?, hne]
    | gt => simp [upsertEntry, hk, findEntry?, ih]

omit [Std.LawfulEqOrd κ] in
/-- An item beyond the last key is put at the end. -/
theorem upsertEntry_of_forall_lt [Std.OrientedOrd κ] (f : Option α → α)
    (h : ∀ e ∈ entries, compare e.1 k = .lt) :
    upsertEntry k f entries = entries ++ [(k, f none)] := by
  induction entries with
  | nil => rfl
  | cons e rest ih =>
    obtain ⟨k₁, v₁⟩ := e
    have hgt : compare k k₁ = .gt := Std.OrientedCmp.gt_of_lt (h _ List.mem_cons_self)
    simp only [upsertEntry, hgt, List.cons_append]
    rw [ih fun x hx => h x (List.mem_cons_of_mem _ hx)]

end Entries

namespace SortedMap

variable {κ α : Type} [Ord κ] [Std.TransOrd κ] [Std.LawfulEqOrd κ] {m : SortedMap κ α}
  {entries before after : List (κ × α)} {k k' : κ} {v : α}

@[simp]
theorem get?_insert_self : (m.insert k v).get? k = some v :=
  findEntry?_upsertEntry_self _ m.ascending

theorem get?_insert_of_ne (h : k' ≠ k) : (m.insert k v).get? k' = m.get? k' :=
  findEntry?_upsertEntry_of_ne _ h

theorem ofList_concat (entries : List (κ × α)) (e : κ × α) :
    ofList (entries ++ [e]) = (ofList entries).insert e.1 e.2 := by
  simp [ofList, List.foldl_append]

omit [Std.TransOrd κ] in
theorem mem_entries_iff : (k, v) ∈ m.entries ↔ m.get? k = some v :=
  (findEntry?_eq_some_iff m.ascending).symm

theorem mem_insert {e : κ × α} (h : e ∈ (m.insert k v).entries) : e = (k, v) ∨ e ∈ m.entries := by
  obtain ⟨k', v'⟩ := e
  rw [mem_entries_iff] at h
  by_cases hk : k' = k
  · subst hk
    rw [get?_insert_self, Option.some.injEq] at h
    exact .inl (by rw [h])
  · rw [get?_insert_of_ne hk] at h
    exact .inr (mem_entries_iff.2 h)

/-- The entries of a map made from a list are items of the list. -/
theorem mem_of_mem_ofList {e : κ × α} (h : e ∈ (ofList entries).entries) : e ∈ entries := by
  induction entries using List.reverseRecOn with
  | nil => cases h
  | append_singleton entries e' ih =>
    rw [ofList_concat] at h
    rcases mem_insert h with rfl | h
    · simp
    · exact List.mem_append_left _ (ih h)

/-- Of the items with one key the last is found. -/
theorem get?_ofList_of_last (h : ∀ e ∈ after, e.1 ≠ k) :
    (ofList (before ++ (k, v) :: after)).get? k = some v := by
  induction after using List.reverseRecOn with
  | nil => simp [ofList_concat]
  | append_singleton after e ih =>
    have hne : e.1 ≠ k := h e (by simp)
    have hrest : ∀ x ∈ after, x.1 ≠ k := fun x hx => h x (by simp [hx])
    rw [← List.cons_append, ← List.append_assoc, ofList_concat, get?_insert_of_ne hne.symm]
    exact ih hrest

/-- Where no two items have one key, each is found. -/
theorem get?_ofList_of_nodup (hkeys : (entries.map Prod.fst).Nodup) (h : (k, v) ∈ entries) :
    (ofList entries).get? k = some v := by
  obtain ⟨before, after, rfl⟩ := List.append_of_mem h
  rw [List.map_append, List.map_cons, List.nodup_middle, List.nodup_cons] at hkeys
  refine get?_ofList_of_last fun e he heq => hkeys.1 ?_
  rw [← List.map_append]
  exact List.mem_map.2 ⟨e, List.mem_append_right _ he, heq⟩

omit [Std.TransOrd κ] in
theorem nodup_keys (m : SortedMap κ α) : (m.entries.map Prod.fst).Nodup :=
  List.pairwise_map.2 (m.ascending.imp fun h => ne_of_compare_lt h)

/-- Items whose keys ascend make up a map as they are. -/
theorem entries_ofList (hasc : Ascending entries) : (ofList entries).entries = entries := by
  induction entries using List.reverseRecOn with
  | nil => rfl
  | append_singleton entries e ih =>
    obtain ⟨hentries, -, hbefore⟩ := List.pairwise_append.1 hasc
    rw [ofList_concat, insert, upsert]
    show upsertEntry e.1 (fun _ => e.2) (ofList entries).entries = entries ++ [e]
    rw [ih hentries]
    exact upsertEntry_of_forall_lt _ fun x hx => hbefore x hx e List.mem_cons_self

/-- A map is made up of its entries. -/
theorem ofList_entries (m : SortedMap κ α) : ofList m.entries = m := by
  obtain ⟨entries, hasc⟩ := m
  have hentries := entries_ofList hasc
  generalize ofList entries = m at hentries
  obtain ⟨entries', hasc'⟩ := m
  cases hentries
  rfl

theorem entries_ofList_perm (hkeys : (entries.map Prod.fst).Nodup) :
    (ofList entries).entries.Perm entries := by
  refine (List.perm_ext_iff_of_nodup (nodup_keys _).of_map hkeys.of_map).2 fun e => ?_
  refine ⟨mem_of_mem_ofList, fun he => ?_⟩
  exact mem_entries_iff.2 (get?_ofList_of_nodup hkeys he)

/-! ## Totals and counts -/

omit [Std.TransOrd κ] [Std.LawfulEqOrd κ] in
theorem total_eq_sum (m : SortedMap κ α) (sizeOf : α → Nat) :
    m.total sizeOf = (m.entries.map fun e => sizeOf e.2).sum := by
  rw [total, List.sum, List.foldr_map]

/-- An update that adds `n` to what is under its key adds `n` to the total. -/
theorem total_upsert {n : Nat} {sizeOf : α → Nat} {f : Option α → α}
    (hnone : sizeOf (f none) = n) (hsome : ∀ v, sizeOf (f (some v)) = sizeOf v + n) :
    (m.upsert k f).total sizeOf = m.total sizeOf + n := by
  suffices h : ∀ entries : List (κ × α),
      ((upsertEntry k f entries).map fun e => sizeOf e.2).sum =
        (entries.map fun e => sizeOf e.2).sum + n by
    rw [total_eq_sum, total_eq_sum]
    exact h m.entries
  intro entries
  induction entries with
  | nil => simp [upsertEntry, hnone]
  | cons e rest ih =>
    obtain ⟨k', v⟩ := e
    rw [upsertEntry]
    split
    · simp only [List.map_cons, List.sum_cons, hnone]
      omega
    · simp only [List.map_cons, List.sum_cons, hsome]
      omega
    · simp only [List.map_cons, List.sum_cons, ih]
      omega

section Tally

variable {keys : List κ}

theorem tally_concat (keys : List κ) (k : κ) :
    tally (keys ++ [k]) = (tally keys).upsert k fun n => n.getD 0 + 1 := by
  rw [tally, List.foldl_concat, tally]

theorem total_tally (keys : List κ) : (tally keys).total id = keys.length := by
  induction keys using List.reverseRecOn with
  | nil => rfl
  | append_singleton keys k ih =>
    have hstep : ((tally keys).upsert k fun n => n.getD 0 + 1).total id =
        (tally keys).total id + 1 :=
      total_upsert rfl fun _ => rfl
    rw [tally_concat, hstep, ih, List.length_append, List.length_singleton]

/-- A key is found with the number of its occurrences, unless there are none. -/
theorem get?_tally [DecidableEq κ] (keys : List κ) (k : κ) :
    (tally keys).get? k = if k ∈ keys then some (keys.count k) else none := by
  induction keys using List.reverseRecOn with
  | nil => rfl
  | append_singleton keys k' ih =>
    rw [tally_concat, List.count_append]
    by_cases hk : k = k'
    · subst hk
      have hfound : ((tally keys).upsert k fun n => n.getD 0 + 1).get? k =
          some (((tally keys).get? k).getD 0 + 1) :=
        findEntry?_upsertEntry_self _ (tally keys).ascending
      rw [hfound, ih]
      by_cases hmem : k ∈ keys
      · simp [hmem]
      · simp [hmem, List.count_eq_zero.2 hmem]
    · have hfound : ((tally keys).upsert k' fun n => n.getD 0 + 1).get? k =
          (tally keys).get? k :=
        findEntry?_upsertEntry_of_ne _ hk
      rw [hfound, ih]
      simp [hk, Ne.symm hk]

theorem get?_tally_eq_some_iff [DecidableEq κ] {n : Nat} :
    (tally keys).get? k = some n ↔ k ∈ keys ∧ keys.count k = n := by
  rw [get?_tally]
  by_cases hmem : k ∈ keys
  · rw [if_pos hmem, Option.some.injEq, and_iff_right hmem]
  · simp [hmem]

end Tally

end SortedMap

end SourceDocs
