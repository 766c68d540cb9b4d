import SourceDocs.Proofs.Synthesis.Prompted

set_option autoImplicit false

/-! # Smooth runs: one call for each request

Where nothing is cancelled and every reply is a text, a request takes one call and ends well
(`settled_of_smooth`). So a complete run has made as many calls as requests have ended: those of the
plan and, if there are summaries to combine, the two about the corpus (`length_calls_of_smooth`). -/

namespace SourceDocs

namespace Run

/-- An event with which nothing goes wrong. -/
def Event.isSmooth : Event → Bool
  | .cancel => false
  | .reply _ (.error _) => false
  | _ => true

variable {options : SynthesisOptions} {cs : List Chunk} {stores : ContextStores} {es : List Event}
  {r : Run}

/-- Answers that are texts make for smooth events. -/
theorem CameBy.exists_smooth {answer : String → Reply} {r₀ : Run} (h : CameBy answer r₀ r)
    (htexts : ∀ prompt, ∃ text, answer prompt = .ok text) :
    ∃ es, r₀.after? es = some r ∧ ∀ e ∈ es, e.isSmooth = true := by
  obtain ⟨es, hr, hcancel, hanswered⟩ := h
  refine ⟨es, hr, fun e he => ?_⟩
  have hlive := hcancel e he
  obtain ⟨before, later, rfl⟩ := List.append_of_mem he
  obtain ⟨s, hs, hlater⟩ := after?_append_eq_some.1 hr
  obtain ⟨s', hstep, -⟩ := after?_cons_eq_some.1 hlater
  -- an error would have to be an answer
  have habsurd : ∀ {number a error}, e = .reply number (.error error) → s.find? number = some a →
      False := by
    rintro number a error rfl hfind
    have hanswer := hanswered before number _ later s a rfl hs hfind
    obtain ⟨text, htext⟩ := htexts a.job.prompt
    rw [← hanswer] at htext
    cases htext
  cases hstep with
  | cancel => cases hlive
  | retry hfind _ _ => exact (habsurd rfl hfind).elim
  | fail hfind _ _ => exact (habsurd rfl hfind).elim
  | _ => rfl

/-! ## One request -/

theorem Event.isCancel_of_isSmooth {e : Event} (h : e.isSmooth = true) : e.isCancel = false := by
  cases e with
  | cancel => cases h
  | _ => rfl

theorem exists_of_mem_repliesTo (hes : ∀ e ∈ es, e.isSmooth = true) {number : Nat} {reply : Reply}
    (h : reply ∈ repliesTo number es) : ∃ text, reply = .ok text := by
  obtain ⟨e, he, hreply⟩ := List.mem_filterMap.1 h
  have hsmooth := hes e he
  cases e with
  | reply n answer =>
    dsimp only at hreply
    split at hreply
    · cases hreply
      cases reply with
      | ok text => exact ⟨text, rfl⟩
      | error e => cases hsmooth
    · cases hreply
  | _ => cases hreply

/-- A request that gets texts only ends with the first. -/
theorem Concluded.of_texts {p : RetryPolicy} {replies : List Reply} {o : Outcome}
    (h : Concluded p false replies o) (htexts : ∀ reply ∈ replies, ∃ text, reply = .ok text) :
    replies.length = 1 ∧ ∃ text, o = .ok text := by
  have hnil : ∀ {before : List Reply}, Tried p before → (∀ reply ∈ before, reply ∈ replies) →
      before = [] := by
    intro before htried hsub
    cases before with
    | nil => rfl
    | cons reply rest =>
      obtain ⟨e, rfl, -⟩ := htried 0 reply rfl
      obtain ⟨text, htext⟩ := htexts _ (hsub _ List.mem_cons_self)
      cases htext
  cases h with
  | @succeeded before text htried =>
    rw [hnil htried fun reply hreply => List.mem_append_left _ hreply]
    exact ⟨rfl, text, rfl⟩
  | failed e _ _ =>
    obtain ⟨text, htext⟩ := htexts (.error e) (by simp)
    cases htext
  | gaveUp _ hcancelled => cases hcancelled

theorem settled_of_smooth (h : (start options cs stores).after? es = some r)
    (hes : ∀ e ∈ es, e.isSmooth = true) :
    ∀ s ∈ r.settled, r.callCount s.number = 1 ∧ ∃ text, s.outcome = .ok text := by
  intro s hs
  obtain ⟨hcount, hconcluded⟩ := (history_of_start h).hsettled s hs
  have hlive : r.cancelled = false :=
    live_of_after? rfl (fun e he => Event.isCancel_of_isSmooth (hes e he)) h
  rw [hlive] at hconcluded
  rw [hcount]
  exact hconcluded.of_texts fun reply hreply => exists_of_mem_repliesTo hes hreply

/-! ## All requests -/

theorem length_jobs (hierarchical : Bool) (cs : List Chunk) (stores : ContextStores) :
    (jobs hierarchical cs stores).length = cs.length * if hierarchical then 2 else 1 := by
  have hlength : ∀ x ∈ cs.zipIdx, (jobsFor hierarchical stores x.1 x.2).length =
      if hierarchical then 2 else 1 := by
    intro x _
    cases hierarchical <;> rfl
  rw [jobs, List.length_flatMap, List.map_congr_left hlength, List.map_const', List.sum_replicate,
    List.length_zipIdx, smul_eq_mul]

/-- The requests of a plan that ended well gave summaries if there is a chunk to sum up. -/
theorem textsIn_summary_eq_nil_iff {ended : List SettledJob}
    (hended : Ended (jobs true cs stores) ended)
    (hok : ∀ s ∈ ended, ∃ text, s.outcome = .ok text) :
    textsIn .summary (inPlanOrder ended) = [] ↔ cs = [] := by
  constructor
  · intro hnone
    cases cs with
    | nil => rfl
    | cons c rest =>
      let job := chunkJob stores c 0 .summary
      have hjob : job ∈ jobs true (c :: rest) stores :=
        mem_jobs.2 ⟨c, 0, .summary, rfl, mem_chunkKinds.2 (Or.inr ⟨rfl, rfl⟩), rfl⟩
      obtain ⟨s, hs, hentry⟩ : ∃ s ∈ ended, s.job = job := by
        rw [← hended.map_job (inOrder_jobs ..)] at hjob
        obtain ⟨s, hs, hentry⟩ := List.mem_map.1 hjob
        exact ⟨s, mem_inPlanOrder.1 hs, hentry⟩
      obtain ⟨text, htext⟩ := hok s hs
      have hmem : text ∈ textsIn .summary (inPlanOrder ended) :=
        mem_textsIn.2 ⟨s, mem_inPlanOrder.2 hs, by rw [hentry]; rfl, htext⟩
      rw [hnone] at hmem
      cases hmem
  · rintro rfl
    rw [List.length_eq_zero_iff.1 hended.length]
    exact textsIn_eq_nil fun s hs => absurd (mem_inPlanOrder.1 hs) List.not_mem_nil

/-- How many requests have ended: those about chunks, and two about the corpus if there is a
chunk. -/
theorem length_settled_of_smooth (h : (start options cs stores).after? es = some r)
    (hes : ∀ e ∈ es, e.isSmooth = true) (hdone : r.isComplete = true) :
    r.settled.length = cs.length * (if options.hierarchical then 2 else 1) +
      if options.hierarchical ∧ cs ≠ [] then 2 else 0 := by
  have hok : ∀ s ∈ r.settled, ∃ text, s.outcome = .ok text := fun s hs =>
    (settled_of_smooth h hes s hs).2
  have hoptions := (frame_of_start h).1
  have hfinished := finished_of_start h hdone
  rw [← length_jobs options.hierarchical cs stores]
  cases hfinished with
  | flat hended hflat =>
    rw [hoptions] at hflat
    rw [hended.length, if_neg (by simp [hflat]), Nat.add_zero]
  | noSummary hended hhierarchical hnone =>
    rw [hoptions] at hhierarchical
    rw [hhierarchical] at hended ⊢
    obtain rfl := (textsIn_summary_eq_nil_iff hended hok).1 hnone
    rw [hended.length]
    rfl
  | noDocument ended s f hred hs hfailed hsettled =>
    obtain ⟨text, htext⟩ := hok s (by simp [hsettled])
    rw [hfailed] at htext
    cases htext
  | document ended s t highLevel hred hs hhigh ht hsettled =>
    have hhierarchical := hred.hhierarchical
    have hended := hred.hended
    rw [hoptions] at hhierarchical
    rw [hhierarchical] at hended ⊢
    have hchunks : cs ≠ [] := fun hnil => hred.hsummaries <|
      (textsIn_summary_eq_nil_iff hended fun s hs => hok s (hsettled ▸ List.mem_append_left _ hs)).2
        hnil
    rw [hsettled, List.length_append, hended.length, if_pos ⟨rfl, hchunks⟩]
    rfl

/-- **A smooth run makes one call for each request**, two of which are about the corpus if there are
    summaries to combine. -/
theorem length_calls_of_smooth (h : (start options cs stores).after? es = some r)
    (hes : ∀ e ∈ es, e.isSmooth = true) (hdone : r.isComplete = true) :
    r.calls.length = cs.length * (if options.hierarchical then 2 else 1) +
      if options.hierarchical ∧ cs ≠ [] then 2 else 0 := by
  have hactive : r.active = [] := by
    simp only [isComplete, Bool.and_eq_true, List.isEmpty_iff] at hdone
    exact hdone.1.2
  have hcalls : ∀ c ∈ r.calls, c ∈ r.settled.map SettledJob.entry := fun c hc =>
    ((history_of_start h).hcalls c hc).resolve_left (by simp [hactive])
  have hperm : r.calls.Perm (callsBy (fun _ => 1) r.ordered) :=
    calls_perm_callsBy (stage_of_start h).nodup_settled hcalls fun s hs =>
      (settled_of_smooth h hes s hs).1
  have hordered : r.ordered.length = r.settled.length := (ordered_perm r).length_eq
  rw [hperm.length_eq, ← length_settled_of_smooth h hes hdone, ← hordered, callsBy]
  simp

end Run

end SourceDocs
