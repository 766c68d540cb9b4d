import Mathlib.Data.List.Nodup
import Mathlib.Data.List.ProdSigma
import SourceDocs.Proofs.Synthesis.Step

set_option autoImplicit false

/-! # Plan order: ended requests as the plan has them

Requests end in any order, and a run reads those about chunks by the places of the chunks and by
kinds. A plan is in this order without two equal places (`inOrder_jobs`), so sorting restores the
plan (`map_entry_inPlanOrder`), whatever the order of completion was. -/

namespace SourceDocs

namespace Run

/-! ## Numbered lists -/

/-- A numbered list is its indexed one with both halves of each pair exchanged. -/
theorem numbered_eq_map_zipIdx {α : Type} (first : Nat) (as : List α) :
    numbered first as = (as.zipIdx first).map Prod.swap := by
  induction as generalizing first with
  | nil => rfl
  | cons a rest ih => simp [numbered, ih]

theorem numbered_append {α : Type} (first : Nat) (as bs : List α) :
    numbered first (as ++ bs) = numbered first as ++ numbered (first + as.length) bs := by
  simp only [numbered_eq_map_zipIdx, List.zipIdx_append, List.map_append]

theorem map_fst_numbered {α : Type} (first : Nat) (as : List α) :
    (numbered first as).map Prod.fst = List.range' first as.length := by
  rw [numbered_eq_map_zipIdx, List.map_map, ← List.zipIdx_map_snd]
  rfl

theorem map_snd_numbered {α : Type} (first : Nat) (as : List α) :
    (numbered first as).map Prod.snd = as := by
  rw [numbered_eq_map_zipIdx, List.map_map]
  exact List.zipIdx_map_fst first as

@[simp] theorem length_numbered {α : Type} (first : Nat) (as : List α) :
    (numbered first as).length = as.length := by
  simp [numbered_eq_map_zipIdx]

theorem mem_numbered {α : Type} {first n : Nat} {a : α} {as : List α} :
    (n, a) ∈ numbered first as ↔ first ≤ n ∧ as[n - first]? = some a := by
  rw [numbered_eq_map_zipIdx, ← List.mem_zipIdx_iff_le_and_getElem?_sub (x := (a, n))]
  exact List.mem_map_swap a n (as.zipIdx first)

/-- What holds between the items of a list holds between those of the numbered list. -/
theorem pairwise_numbered {α : Type} {R : α → α → Prop} {as : List α} (first : Nat)
    (h : as.Pairwise R) : (numbered first as).Pairwise fun x y => R x.2 y.2 := by
  rw [← map_snd_numbered first as] at h
  exact List.pairwise_map.1 h

/-! ## The order of requests -/

end Run

namespace Job

/-- What the order of requests is told by. -/
def key (j : Job) : Nat × Nat := (j.place, j.kind.rank)

/-- A request comes before another. -/
def Precedes (a b : Job) : Prop :=
  a.place < b.place ∨ (a.place = b.place ∧ a.kind.rank < b.kind.rank)

theorem before_iff {a b : Job} :
    a.before b = true ↔ a.place < b.place ∨ (a.place = b.place ∧ a.kind.rank ≤ b.kind.rank) := by
  simp [before]

theorem before_trans {a b c : Job} (hab : a.before b = true) (hbc : b.before c = true) :
    a.before c = true := by
  rw [before_iff] at *
  omega

theorem before_total (a b : Job) : (a.before b || b.before a) = true := by
  rw [Bool.or_eq_true, before_iff, before_iff]
  omega

theorem key_eq_of_before {a b : Job} (hab : a.before b = true) (hba : b.before a = true) :
    a.key = b.key := by
  rw [before_iff] at hab hba
  exact Prod.ext (by simp only [key]; omega) (by simp only [key]; omega)

theorem Precedes.before {a b : Job} (h : a.Precedes b) : a.before b = true :=
  before_iff.2 (h.imp_right fun hkind => ⟨hkind.1, Nat.le_of_lt hkind.2⟩)

theorem Precedes.key_ne {a b : Job} (h : a.Precedes b) : a.key ≠ b.key := by
  intro heq
  obtain ⟨hplace, hrank⟩ := Prod.mk.inj heq
  rcases h with hlt | ⟨-, hlt⟩ <;> omega

end Job

namespace Run

/-- Each request of a plan comes before all later ones. -/
def InOrder (plan : List Job) : Prop := plan.Pairwise Job.Precedes

/-- **The requests about chunks are planned in order.** -/
theorem inOrder_jobs (hierarchical : Bool) (cs : List Chunk) (stores : ContextStores) :
    InOrder (jobs hierarchical cs stores) := by
  refine List.pairwise_flatMap.2 ⟨?_, ?_⟩
  · -- about one chunk, the document comes before the summary
    rintro ⟨c, place⟩ -
    cases hierarchical <;> simp [jobsFor, Job.Precedes, ArtifactKind.rank]
  · have hplaces := List.pairwise_lt_range' (s := 0) (n := cs.length) 1
    rw [← List.zipIdx_map_snd 0 cs, List.pairwise_map] at hplaces
    refine hplaces.imp fun {x y} hlt a ha b hb => Or.inl ?_
    have hplace : ∀ {x : Chunk × Nat} {job : Job}, job ∈ jobsFor hierarchical stores x.1 x.2 →
        job.place = x.2 := by
      intro x job hjob
      cases hierarchical with
      | false => simp_all [jobsFor]
      | true => rcases List.mem_pair.1 hjob with rfl | rfl <;> rfl
    rwa [hplace ha, hplace hb]

/-! ## Sorting ended requests -/

theorem inPlanOrder_perm (ss : List SettledJob) : (inPlanOrder ss).Perm ss :=
  List.mergeSort_perm ss _

theorem mem_inPlanOrder {s : SettledJob} {ss : List SettledJob} : s ∈ inPlanOrder ss ↔ s ∈ ss :=
  (inPlanOrder_perm ss).mem_iff

theorem pairwise_inPlanOrder (ss : List SettledJob) :
    (inPlanOrder ss).Pairwise fun a b => a.job.before b.job = true := by
  refine List.pairwise_mergeSort ?_ ?_ ss
  · exact fun _ _ _ => Job.before_trans
  · exact fun a b => Job.before_total a.job b.job

/-- Whatever order requests end in, sorting them restores the plan. -/
theorem map_entry_inPlanOrder {ss : List SettledJob} {plan : List Job} {first : Nat}
    (hplan : InOrder plan) (h : (ss.map SettledJob.entry).Perm (numbered first plan)) :
    (inPlanOrder ss).map SettledJob.entry = numbered first plan := by
  have hperm : ((inPlanOrder ss).map SettledJob.entry).Perm (numbered first plan) :=
    ((inPlanOrder_perm ss).map _).trans h
  have hsorted : ((inPlanOrder ss).map SettledJob.entry).Pairwise
      fun x y => x.2.before y.2 = true :=
    List.pairwise_map.2 (pairwise_inPlanOrder ss)
  have hprecedes := pairwise_numbered first hplan
  have hkeys : ((numbered first plan).map fun x => x.2.key).Nodup :=
    List.pairwise_map.2 (hprecedes.imp Job.Precedes.key_ne)
  -- sorted lists of the same items are equal, because no two items have the same key
  refine List.Perm.eq_of_pairwise (fun x y hx hy hxy hyx => ?_) hsorted
    (hprecedes.imp Job.Precedes.before) hperm
  exact List.inj_on_of_nodup_map hkeys (hperm.mem_iff.1 hx) hy (Job.key_eq_of_before hxy hyx)

theorem ordered_perm (r : Run) : r.ordered.Perm r.settled := by
  have hperm := (inPlanOrder_perm (r.settled.take r.planned)).append_right
    (r.settled.drop r.planned)
  rwa [List.take_append_drop] at hperm

theorem mem_ordered {r : Run} {s : SettledJob} : s ∈ r.ordered ↔ s ∈ r.settled :=
  (ordered_perm r).mem_iff

/-- What has ended after the requests about chunks comes after them. -/
theorem ordered_eq {r : Run} {ended corpus : List SettledJob} (hlength : ended.length = r.planned)
    (hsettled : r.settled = ended ++ corpus) : r.ordered = inPlanOrder ended ++ corpus := by
  rw [ordered, hsettled, List.take_left' hlength, List.drop_left' hlength]

/-- Ended requests with distinct numbers have an outcome for each number. -/
theorem exists_outcome {ss : List SettledJob} (hnodup : (ss.map SettledJob.number).Nodup) :
    ∃ outcome : Nat → Outcome, ∀ s ∈ ss, s.outcome = outcome s.number := by
  classical
  -- a number that nothing has ended under may have any outcome
  refine ⟨fun n => if h : ∃ s ∈ ss, s.number = n then h.choose.outcome else .ok "", ?_⟩
  intro s hs
  have h : ∃ t ∈ ss, t.number = s.number := ⟨s, hs, rfl⟩
  simp only [dif_pos h]
  exact congrArg _ (List.inj_on_of_nodup_map hnodup hs h.choose_spec.1 h.choose_spec.2.symm)

/-- Ended requests are made of their entries and their outcomes. -/
theorem eq_map_entry {ss : List SettledJob} {outcome : Nat → Outcome}
    (h : ∀ s ∈ ss, s.outcome = outcome s.number) :
    ss = (ss.map SettledJob.entry).map fun x =>
      { number := x.1, job := x.2, outcome := outcome x.1 } := by
  rw [List.map_map]
  conv_lhs => rw [← List.map_id ss]
  exact List.map_congr_left fun s hs => by simp [SettledJob.entry, ← h s hs]

end Run

end SourceDocs
