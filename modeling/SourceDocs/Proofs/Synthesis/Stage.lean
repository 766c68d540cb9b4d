import SourceDocs.Proofs.Synthesis.PlanOrder

set_option autoImplicit false

/-! # Stages of a run: where the requests of the plan are

A run is in one of five stages: requests about chunks are left, or the summary of all summaries is
pending, or it has ended, or the document of all documents is pending, or that has ended. `Stage`
says for each which requests are pending and which have ended. In the first these are, in any order,
the requests of the plan; later the plan has ended (`Ended`) and the requests about the corpus stand
after it, made from what the plan gave. Every step keeps a run in a stage (`Stage.of_effect`). -/

namespace SourceDocs

namespace Run

/-- The texts that requests of one kind gave, in the given order. -/
def textsIn (kind : ArtifactKind) (ss : List SettledJob) : List String :=
  ss.filterMap fun s => if s.job.kind = kind then s.outcome.toOption else none

theorem textsOf_eq (r : Run) (kind : ArtifactKind) :
    r.textsOf kind = textsIn kind r.ordered := by
  refine List.filterMap_congr fun s _ => ?_
  cases s.outcome with
  | ok text => rfl
  | error f => simp [Except.toOption]

theorem textsIn_append (kind : ArtifactKind) (ss ts : List SettledJob) :
    textsIn kind (ss ++ ts) = textsIn kind ss ++ textsIn kind ts :=
  List.filterMap_append

theorem textsIn_eq_nil {kind : ArtifactKind} {ss : List SettledJob}
    (h : ∀ s ∈ ss, s.job.kind ≠ kind) : textsIn kind ss = [] :=
  List.filterMap_eq_nil_iff.2 fun s hs => if_neg (h s hs)

theorem mem_textsIn {kind : ArtifactKind} {ss : List SettledJob} {text : String} :
    text ∈ textsIn kind ss ↔ ∃ s ∈ ss, s.job.kind = kind ∧ s.outcome = .ok text := by
  rw [textsIn, List.mem_filterMap]
  refine exists_congr fun s => and_congr_right fun _ => ?_
  cases s.outcome with
  | ok t => simp [Except.toOption]
  | error f => simp [Except.toOption]

/-- The request for one summary of all summaries. -/
def summaryJob (ended : List SettledJob) : Job :=
  { kind := .combinedSummary
    prompt := Prompt.combinedSummary (textsIn .summary (inPlanOrder ended)) }

/-- The request for one document from the overall summary and all documents. -/
def documentJob (highLevel : String) (ended : List SettledJob) : Job :=
  { kind := .combined
    prompt := Prompt.combined highLevel (textsIn .detailed (inPlanOrder ended)) }

/-- The requests of a plan have ended, in some order. -/
def Ended (plan : List Job) (ended : List SettledJob) : Prop :=
  (ended.map SettledJob.entry).Perm (numbered 0 plan)

/-- The plan has ended and its summaries are to be reduced. -/
structure Reducing (plan : List Job) (r : Run) (ended : List SettledJob) : Prop where
  hhierarchical : r.options.hierarchical = true
  hended : Ended plan ended
  hsummaries : textsIn .summary (inPlanOrder ended) ≠ []

/-- Where the requests of a run are. -/
inductive Stage (plan : List Job) (r : Run) : Prop where
  | chunks (hentries : (r.pending ++ r.settled.map SettledJob.entry).Perm (numbered 0 plan))
  | summarizing (ended : List SettledJob) (hred : Reducing plan r ended)
      (hpending : r.pending = [(plan.length, summaryJob ended)]) (hsettled : r.settled = ended)
  | summarized (ended : List SettledJob) (s : SettledJob) (hred : Reducing plan r ended)
      (hs : s.entry = (plan.length, summaryJob ended))
      (hpending : r.pending = []) (hsettled : r.settled = ended ++ [s])
  | documenting (ended : List SettledJob) (s : SettledJob) (highLevel : String)
      (hred : Reducing plan r ended) (hs : s.entry = (plan.length, summaryJob ended))
      (hhigh : s.outcome = .ok highLevel)
      (hpending : r.pending = [(plan.length + 1, documentJob highLevel ended)])
      (hsettled : r.settled = ended ++ [s])
  | documented (ended : List SettledJob) (s t : SettledJob) (highLevel : String)
      (hred : Reducing plan r ended) (hs : s.entry = (plan.length, summaryJob ended))
      (hhigh : s.outcome = .ok highLevel)
      (ht : t.entry = (plan.length + 1, documentJob highLevel ended))
      (hpending : r.pending = []) (hsettled : r.settled = ended ++ [s, t])

variable {plan : List Job} {r r' : Run}

theorem number_of_entry {s : SettledJob} {x : Nat × Job} (h : s.entry = x) : s.number = x.1 :=
  congrArg Prod.fst h

theorem job_of_entry {s : SettledJob} {x : Nat × Job} (h : s.entry = x) : s.job = x.2 :=
  congrArg Prod.snd h

/-! ## The texts of a run and of its plan -/

theorem Ended.length {ended : List SettledJob} (h : Ended plan ended) :
    ended.length = plan.length := by
  simpa using h.length_eq

theorem Ended.nodup {ended : List SettledJob} (h : Ended plan ended) :
    (ended.map SettledJob.number).Nodup := by
  have hperm := h.map Prod.fst
  rw [List.map_map, map_fst_numbered] at hperm
  exact hperm.nodup_iff.2 (List.nodup_range' 1)

theorem mem_textsOf {kind : ArtifactKind} {text : String} :
    text ∈ r.textsOf kind ↔ ∃ s ∈ r.settled, s.job.kind = kind ∧ s.outcome = .ok text := by
  rw [textsOf_eq, mem_textsIn]
  simp only [mem_ordered]

theorem Ended.number_lt {ended : List SettledJob} (h : Ended plan ended) {s : SettledJob}
    (hs : s ∈ ended) : s.number < plan.length := by
  obtain ⟨-, hget⟩ := mem_numbered.1 (h.mem_iff.1 (List.mem_map_of_mem hs))
  exact (List.getElem?_eq_some_iff.1 hget).1

/-- When the plan has ended, its requests come first. -/
theorem Ended.ordered_eq {ended corpus : List SettledJob} (h : Ended plan ended)
    (hplanned : r.planned = plan.length) (hsettled : r.settled = ended ++ corpus) :
    r.ordered = inPlanOrder ended ++ corpus :=
  Run.ordered_eq (h.length.trans hplanned.symm) hsettled

/-- As long as nothing about the corpus has ended, all requests are in the order of the plan. -/
theorem Ended.ordered_settled (h : Ended plan r.settled) (hplanned : r.planned = plan.length) :
    r.ordered = inPlanOrder r.settled := by
  rw [h.ordered_eq hplanned (List.append_nil _).symm, List.append_nil]

/-- Requests about the corpus add nothing to the texts about chunks. -/
theorem Ended.textsOf_eq {ended corpus : List SettledJob} {kind : ArtifactKind}
    (h : Ended plan ended) (hplanned : r.planned = plan.length)
    (hsettled : r.settled = ended ++ corpus) (hkind : ∀ s ∈ corpus, s.job.kind ≠ kind) :
    r.textsOf kind = textsIn kind (inPlanOrder ended) := by
  rw [Run.textsOf_eq, h.ordered_eq hplanned hsettled, textsIn_append, textsIn_eq_nil hkind,
    List.append_nil]

theorem drop_planned {ended corpus : List SettledJob} (hplanned : r.planned = plan.length)
    (hended : Ended plan ended) (hsettled : r.settled = ended ++ corpus) :
    r.settled.drop r.planned = corpus := by
  rw [hsettled, hplanned, ← hended.length, List.drop_left]

/-- When the plan has ended, the summary of all summaries is due if there is any. -/
theorem nextReduction?_of_ended (hplanned : r.planned = plan.length)
    (hended : Ended plan r.settled) :
    r.nextReduction? =
      if r.options.hierarchical ∧ textsIn .summary (inPlanOrder r.settled) ≠ [] then
        some (summaryJob r.settled)
      else none := by
  have hdrop := drop_planned hplanned hended (List.append_nil r.settled).symm
  have htexts : r.textsOf .summary = textsIn .summary (inPlanOrder r.settled) := by
    rw [textsOf_eq, hended.ordered_settled hplanned]
  by_cases hh : r.options.hierarchical
  · simp only [nextReduction?, hh, hdrop, if_true, htexts, true_and, summaryJob]
    cases textsIn .summary (inPlanOrder r.settled) with
    | nil => simp
    | cons text rest => simp
  · simp [nextReduction?, hh]

/-- When the summary of all summaries has ended well, the document of all documents is due. -/
theorem nextReduction?_of_summarized {ended : List SettledJob} {s : SettledJob}
    (hplanned : r.planned = plan.length) (hred : Reducing plan r ended)
    (hs : s.entry = (plan.length, summaryJob ended)) (hsettled : r.settled = ended ++ [s]) :
    r.nextReduction? =
      match s.outcome with
      | .ok highLevel => some (documentJob highLevel ended)
      | .error _ => none := by
  have hdrop := drop_planned hplanned hred.hended hsettled
  have hkind : s.job.kind = .combinedSummary := by
    rw [job_of_entry hs]
    rfl
  have htexts : r.textsOf .detailed = textsIn .detailed (inPlanOrder ended) :=
    hred.hended.textsOf_eq hplanned hsettled (by simp [hkind])
  obtain ⟨number, job, outcome⟩ := s
  simp only [nextReduction?, hred.hhierarchical, hdrop, if_true, htexts]
  cases outcome with
  | ok highLevel => rfl
  | error f => rfl

/-- When the document of all documents has ended, nothing is due. -/
theorem nextReduction?_of_documented {ended : List SettledJob} {s t : SettledJob}
    (hplanned : r.planned = plan.length) (hred : Reducing plan r ended)
    (hsettled : r.settled = ended ++ [s, t]) : r.nextReduction? = none := by
  have hdrop := drop_planned hplanned hred.hended hsettled
  simp [nextReduction?, hdrop]

/-! ## Steps keep the stage -/

/-- The requests that a run knows of are the plan and, after it, those about the corpus: none, the
    summary of all summaries, or also the document of all documents. -/
theorem Stage.entries (h : Stage plan r) :
    ∃ ended highLevel corpus, corpus <+: [summaryJob ended, documentJob highLevel ended] ∧
      (r.pending ++ r.settled.map SettledJob.entry).Perm (numbered 0 (plan ++ corpus)) := by
  cases h with
  | chunks hentries => exact ⟨[], "", [], List.nil_prefix, by simpa using hentries⟩
  | summarizing ended hred hpending hsettled =>
    refine ⟨ended, "", [summaryJob ended], ⟨[_], rfl⟩, ?_⟩
    rw [hpending, hsettled, numbered_append, Nat.zero_add]
    exact List.perm_append_comm.trans (hred.hended.append_right _)
  | summarized ended s hred hs hpending hsettled =>
    refine ⟨ended, "", [summaryJob ended], ⟨[_], rfl⟩, ?_⟩
    rw [hpending, hsettled, numbered_append, Nat.zero_add, List.map_append, List.nil_append,
      List.map_singleton, hs]
    exact hred.hended.append_right _
  | documenting ended s highLevel hred hs hhigh hpending hsettled =>
    refine ⟨ended, highLevel, [summaryJob ended, documentJob highLevel ended], List.prefix_rfl, ?_⟩
    rw [hpending, hsettled, numbered_append, Nat.zero_add, List.map_append, List.map_singleton, hs]
    refine List.perm_append_comm.trans ?_
    rw [List.append_assoc]
    exact hred.hended.append_right _
  | documented ended s t highLevel hred hs hhigh ht hpending hsettled =>
    refine ⟨ended, highLevel, [summaryJob ended, documentJob highLevel ended], List.prefix_rfl, ?_⟩
    rw [hpending, hsettled, numbered_append, Nat.zero_add, List.map_append, List.nil_append,
      List.map_cons, List.map_singleton, hs, ht]
    exact hred.hended.append_right _

/-- The number of a request tells whether it is one of the plan, and else its kind. -/
theorem Stage.place_of_entry (h : Stage plan r) {n : Nat} {job : Job}
    (hmem : (n, job) ∈ r.pending ++ r.settled.map SettledJob.entry) :
    (n < plan.length ∧ job ∈ plan) ∨ (n = plan.length ∧ job.kind = .combinedSummary) ∨
      (n = plan.length + 1 ∧ job.kind = .combined) := by
  obtain ⟨ended, highLevel, corpus, ⟨rest, hcorpus⟩, hperm⟩ := h.entries
  obtain ⟨-, hget⟩ := mem_numbered.1 (hperm.mem_iff.1 hmem)
  rw [Nat.sub_zero] at hget
  by_cases hn : n < plan.length
  · rw [List.getElem?_append_left hn] at hget
    exact Or.inl ⟨hn, List.mem_of_getElem? hget⟩
  · -- after the plan there are two places at most
    rw [List.getElem?_append_right (by omega)] at hget
    have hplace : [summaryJob ended, documentJob highLevel ended][n - plan.length]? = some job := by
      rw [← hcorpus, List.getElem?_append_left (List.getElem?_eq_some_iff.1 hget).1]
      exact hget
    rcases hlater : n - plan.length with _ | _ | later
    · rw [hlater] at hplace
      cases hplace
      exact Or.inr (Or.inl ⟨by omega, rfl⟩)
    · rw [hlater] at hplace
      cases hplace
      exact Or.inr (Or.inr ⟨by omega, rfl⟩)
    · simp [hlater] at hplace

/-- No two requests have the same number. -/
theorem Stage.nodup (h : Stage plan r) :
    ((r.pending ++ r.settled.map SettledJob.entry).map Prod.fst).Nodup := by
  obtain ⟨ended, highLevel, corpus, -, hperm⟩ := h.entries
  refine (hperm.map Prod.fst).nodup_iff.2 ?_
  rw [map_fst_numbered]
  exact List.nodup_range' 1

theorem Stage.nodup_active (h : Stage plan r) : (r.active.map ActiveJob.number).Nodup := by
  have hnodup := h.nodup
  rw [pending, List.map_append, List.map_append, List.append_assoc, List.map_map] at hnodup
  exact hnodup.of_append_left

theorem Stage.nodup_settled (h : Stage plan r) : (r.settled.map SettledJob.number).Nodup := by
  have hnodup := h.nodup
  rw [List.map_append, List.map_map] at hnodup
  exact hnodup.of_append_right

/-- **Every step keeps a run in a stage.** The requests move from the pending to the ended ones, one
    at a time, and the plan is complete before anything about the corpus comes in. -/
theorem Stage.of_effect (h : Stage plan r) (hplanned : r.planned = plan.length)
    (hoptions : r'.options = r.options) (heffect : Effect r r') : Stage plan r' := by
  have hred' : ∀ {ended}, Reducing plan r ended → Reducing plan r' ended := fun hred =>
    ⟨hoptions ▸ hred.hhierarchical, hred.hended, hred.hsummaries⟩
  -- nothing ends twice, so only the pending requests tell a stage after the plan from the next one
  cases heffect with
  | keeps hpending hsettled =>
    cases h with
    | chunks hentries => exact .chunks (by rwa [hpending, hsettled])
    | summarizing ended hred hp hs =>
      exact .summarizing ended (hred' hred) (hpending.trans hp) (hsettled.trans hs)
    | summarized ended s hred hs hp hss =>
      exact .summarized ended s (hred' hred) hs (hpending.trans hp) (hsettled.trans hss)
    | documenting ended s highLevel hred hs hhigh hp hss =>
      exact .documenting ended s highLevel (hred' hred) hs hhigh (hpending.trans hp)
        (hsettled.trans hss)
    | documented ended s t highLevel hred hs hhigh ht hp hss =>
      exact .documented ended s t highLevel (hred' hred) hs hhigh ht (hpending.trans hp)
        (hsettled.trans hss)
  | settles u hpending hsettled =>
    cases h with
    | chunks hentries =>
      refine .chunks ?_
      rw [hsettled, List.map_append, List.map_singleton]
      refine List.Perm.trans ?_ hentries
      refine List.Perm.trans ?_ (hpending.symm.append_right _)
      rw [← List.append_assoc]
      exact List.perm_append_singleton _ _
    | summarizing ended hred hp hs =>
      rw [hp] at hpending
      obtain ⟨hu, hrest⟩ := List.cons.inj (List.singleton_perm.1 hpending)
      exact .summarized ended u (hred' hred) hu.symm hrest.symm (by rw [hsettled, hs])
    | summarized ended s hred hs hp hss =>
      rw [hp] at hpending
      exact absurd hpending.symm.eq_nil (List.cons_ne_nil _ _)
    | documenting ended s highLevel hred hs hhigh hp hss =>
      rw [hp] at hpending
      obtain ⟨hu, hrest⟩ := List.cons.inj (List.singleton_perm.1 hpending)
      exact .documented ended s u highLevel (hred' hred) hs hhigh hu.symm hrest.symm
        (by rw [hsettled, hss, List.append_assoc]; rfl)
    | documented ended s t highLevel hred hs hhigh ht hp hss =>
      rw [hp] at hpending
      exact absurd hpending.symm.eq_nil (List.cons_ne_nil _ _)
  | reduces job hidle hnext hpending hsettled =>
    cases h with
    | chunks hentries =>
      rw [hidle, List.nil_append] at hentries
      rw [nextReduction?_of_ended hplanned hentries] at hnext
      split at hnext
      · rename_i hdue
        cases hnext
        exact .summarizing r.settled (hred' ⟨hdue.1, hentries, hdue.2⟩)
          (by rw [hpending, Ended.length hentries]) hsettled
      · cases hnext
    | summarizing ended hred hp hs => exact absurd (hp.symm.trans hidle) (List.cons_ne_nil _ _)
    | summarized ended s hred hs hp hss =>
      rw [nextReduction?_of_summarized hplanned hred hs hss] at hnext
      split at hnext
      · rename_i highLevel hhigh
        cases hnext
        refine .documenting ended s highLevel (hred' hred) hs hhigh ?_ (hsettled.trans hss)
        rw [hpending, hss, List.length_append, hred.hended.length, List.length_singleton]
      · cases hnext
    | documenting ended s highLevel hred hs hhigh hp hss =>
      exact absurd (hp.symm.trans hidle) (List.cons_ne_nil _ _)
    | documented ended s t highLevel hred hs hhigh ht hp hss =>
      rw [nextReduction?_of_documented hplanned hred hss] at hnext
      cases hnext

/-! ## Every run -/

section Start

variable {options : SynthesisOptions} {cs : List Chunk} {stores : ContextStores} {es : List Event}

theorem stage_start :
    Stage (jobs options.hierarchical cs stores) (start options cs stores) :=
  .chunks (by simp [pending, start])

theorem frame_of_start (h : (start options cs stores).after? es = some r) :
    r.options = options ∧ r.planned = (jobs options.hierarchical cs stores).length :=
  after?_frame h

theorem stage_of_start (h : (start options cs stores).after? es = some r) :
    Stage (jobs options.hierarchical cs stores) r := by
  refine after?_induction (P := fun _ s => Stage (jobs options.hierarchical cs stores) s)
    stage_start ?_ h
  intro es e s s' hs hstage hstep
  exact hstage.of_effect (frame_of_start hs).2 hstep.frame.1 (hstep.effect hstage.nodup_active)

end Start

end Run

end SourceDocs
