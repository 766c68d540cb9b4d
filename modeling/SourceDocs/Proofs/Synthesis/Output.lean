import SourceDocs.Proofs.Synthesis.Clocked

set_option autoImplicit false

/-! # Output of a run: one entry for every request

The requests about chunks stand in the plan chunk by chunk, so the number of a request tells the
place of its chunk and its kind (`numbered_jobs`). A run is complete in one of four ways
(`Finished`), and in each of them its output is what the requests about chunks gave, in the order
of the plan, followed by what there is to say about the corpus (`Accounts`). -/

namespace SourceDocs

namespace Run

/-! ## The plan, by places of chunks -/

/-- The kinds of request about one chunk. -/
def chunkKinds (hierarchical : Bool) : List ArtifactKind :=
  .detailed :: if hierarchical then [.summary] else []

/-- The number of a request about the chunk at a place. -/
def jobNumber (hierarchical : Bool) (place : Nat) (kind : ArtifactKind) : Nat :=
  if hierarchical then 2 * place + (if kind = .summary then 1 else 0) else place

/-- The request of a kind about the chunk at a place. -/
def chunkJob (stores : ContextStores) (c : Chunk) (place : Nat) (kind : ArtifactKind) : Job :=
  { kind, chunk := some c, place
    prompt := if kind = .summary then Prompt.summary c (stores.contextOf c)
      else Prompt.detailed c (stores.contextOf c) }

theorem jobsFor_eq (hierarchical : Bool) (stores : ContextStores) (c : Chunk) (place : Nat) :
    jobsFor hierarchical stores c place =
      (chunkKinds hierarchical).map (chunkJob stores c place) := by
  cases hierarchical <;> rfl

theorem mem_chunkKinds {hierarchical : Bool} {kind : ArtifactKind} :
    kind ∈ chunkKinds hierarchical ↔
      kind = .detailed ∨ (hierarchical = true ∧ kind = .summary) := by
  cases hierarchical <;> simp [chunkKinds]

theorem numbered_jobsFor (hierarchical : Bool) (stores : ContextStores) (cs : List Chunk)
    (place : Nat) :
    numbered (jobNumber hierarchical place .detailed)
        ((cs.zipIdx place).flatMap fun x => jobsFor hierarchical stores x.1 x.2) =
      (cs.zipIdx place).flatMap fun x => (chunkKinds hierarchical).map fun kind =>
        (jobNumber hierarchical x.2 kind, chunkJob stores x.1 x.2 kind) := by
  -- from chunk to chunk, the number grows by the requests about one
  induction cs generalizing place with
  | nil => rfl
  | cons c rest ih =>
    have hnext : jobNumber hierarchical place .detailed +
        (jobsFor hierarchical stores c place).length =
          jobNumber hierarchical (place + 1) .detailed := by
      cases hierarchical with
      | false => rfl
      | true => simp [jobNumber, jobsFor]; omega
    rw [List.zipIdx_cons, List.flatMap_cons, numbered_append, hnext, List.flatMap_cons]
    refine congrArg₂ (· ++ ·) ?_ (ih (place + 1))
    cases hierarchical <;> simp [jobsFor_eq, chunkKinds, numbered, jobNumber]

/-- The numbers of requests are the places of the plan. -/
theorem numbered_jobs (hierarchical : Bool) (stores : ContextStores) (cs : List Chunk) :
    numbered 0 (jobs hierarchical cs stores) =
      cs.zipIdx.flatMap fun x => (chunkKinds hierarchical).map fun kind =>
        (jobNumber hierarchical x.2 kind, chunkJob stores x.1 x.2 kind) := by
  have hfirst : jobNumber hierarchical 0 .detailed = 0 := by
    cases hierarchical <;> rfl
  have hnumbered := numbered_jobsFor hierarchical stores cs 0
  rwa [hfirst] at hnumbered

theorem mem_jobs {hierarchical : Bool} {cs : List Chunk} {stores : ContextStores} {job : Job} :
    job ∈ jobs hierarchical cs stores ↔ ∃ c place kind, cs[place]? = some c ∧
      kind ∈ chunkKinds hierarchical ∧ job = chunkJob stores c place kind := by
  simp only [jobs, jobsFor_eq, List.mem_flatMap, List.mem_map, Prod.exists,
    List.mem_zipIdx_iff_getElem?]
  constructor
  · rintro ⟨c, place, hc, kind, hkind, rfl⟩
    exact ⟨c, place, kind, hc, hkind, rfl⟩
  · rintro ⟨c, place, kind, hc, hkind, rfl⟩
    exact ⟨c, place, hc, kind, hkind, rfl⟩

theorem kind_of_mem_jobs {hierarchical : Bool} {cs : List Chunk} {stores : ContextStores}
    {job : Job} (h : job ∈ jobs hierarchical cs stores) : job.kind ∈ chunkKinds hierarchical := by
  obtain ⟨c, place, kind, -, hkind, rfl⟩ := mem_jobs.1 h
  exact hkind

/-- No request about a chunk is of a kind that is about the corpus. -/
theorem not_mem_chunkKinds (hierarchical : Bool) :
    .combinedSummary ∉ chunkKinds hierarchical ∧ .combined ∉ chunkKinds hierarchical := by
  cases hierarchical <;> decide

/-! ## How requests about chunks end -/

/-- The outcome of the request with a number, if it has ended. -/
def outcome? (r : Run) (number : Nat) : Option Outcome :=
  (r.settled.find? fun s => s.number = number).map SettledJob.outcome

/-- What a request about a chunk gives, by its outcome: an artifact or a failure. -/
def chunkEntry (kind : ArtifactKind) (c : Chunk) : Outcome → Artifact ⊕ Failure
  | .ok text => .inl { kind, chunk := some c.id, language := some c.language, text }
  | .error f =>
    .inr { kind, chunk := some c.id, attempts := f.attempts, cause := f.error.message }

/-- What all requests about chunks give, by the places of the chunks. -/
def chunkEntries (hierarchical : Bool) (cs : List Chunk) (outcome : Nat → ArtifactKind → Outcome) :
    List (Artifact ⊕ Failure) :=
  cs.zipIdx.flatMap fun x => (chunkKinds hierarchical).map fun kind =>
    chunkEntry kind x.1 (outcome x.2 kind)

/-- The artifacts among what requests about chunks give. -/
def chunkArtifacts (hierarchical : Bool) (cs : List Chunk)
    (outcome : Nat → ArtifactKind → Outcome) : List Artifact :=
  (chunkEntries hierarchical cs outcome).filterMap Sum.getLeft?

/-- The failures among what requests about chunks give. -/
def chunkFailures (hierarchical : Bool) (cs : List Chunk)
    (outcome : Nat → ArtifactKind → Outcome) : List Failure :=
  (chunkEntries hierarchical cs outcome).filterMap Sum.getRight?

/-- The requests about chunks, ended as `outcome` says, in the order of the plan. -/
def endedJobs (hierarchical : Bool) (stores : ContextStores) (cs : List Chunk)
    (outcome : Nat → ArtifactKind → Outcome) : List SettledJob :=
  cs.zipIdx.flatMap fun x => (chunkKinds hierarchical).map fun kind =>
    { number := jobNumber hierarchical x.2 kind, job := chunkJob stores x.1 x.2 kind
      outcome := outcome x.2 kind }

/-- The requests about chunks have ended, as `outcome` says. -/
def EndedAs (hierarchical : Bool) (cs : List Chunk) (outcome : Nat → ArtifactKind → Outcome)
    (r : Run) : Prop :=
  ∀ place kind, place < cs.length → kind ∈ chunkKinds hierarchical →
    r.outcome? (jobNumber hierarchical place kind) = some (outcome place kind)

/-- The texts that requests of one kind gave, by the places of the chunks. -/
def textsAt (cs : List Chunk) (outcome : Nat → ArtifactKind → Outcome) (kind : ArtifactKind) :
    List String :=
  (List.range cs.length).filterMap fun place => (outcome place kind).toOption

/-- Some summary of a chunk has been given. -/
def Summarized (cs : List Chunk) (outcome : Nat → ArtifactKind → Outcome) : Prop :=
  ∃ place text, place < cs.length ∧ outcome place .summary = .ok text

/-- What a run says about the corpus: nothing, or how far it came. The requests about the corpus are
    numbered after the plan. -/
inductive CorpusEntries (summarized : Prop) (r : Run) :
    Bool → List Artifact → List Failure → Prop where
  | none : CorpusEntries summarized r false [] []
  | noSummary (hnone : ¬ summarized) (hsummary : r.outcome? r.planned = none)
      (hdocument : r.outcome? (r.planned + 1) = none) :
      CorpusEntries summarized r true [] [noSummaries]
  | summaryFailed (f : RetryFailure) (hsome : summarized)
      (hsummary : r.outcome? r.planned = some (.error f))
      (hdocument : r.outcome? (r.planned + 1) = none) :
      CorpusEntries summarized r true []
        [{ kind := .combinedSummary, attempts := f.attempts, cause := f.error.message }]
  | documentFailed (text : String) (f : RetryFailure) (hsome : summarized)
      (hsummary : r.outcome? r.planned = some (.ok text))
      (hdocument : r.outcome? (r.planned + 1) = some (.error f)) :
      CorpusEntries summarized r true [{ kind := .combinedSummary, text }]
        [{ kind := .combined, attempts := f.attempts, cause := f.error.message }]
  | documented (text document : String) (hsome : summarized)
      (hsummary : r.outcome? r.planned = some (.ok text))
      (hdocument : r.outcome? (r.planned + 1) = some (.ok document)) :
      CorpusEntries summarized r true
        [{ kind := .combinedSummary, text }, { kind := .combined, text := document }] []

/-- The output of a run has an entry for each request about a chunk, which ended as `outcome` says,
    and then what there is to say about the corpus. -/
structure Accounts (hierarchical : Bool) (cs : List Chunk) (outcome : Nat → ArtifactKind → Outcome)
    (r : Run) : Prop where
  hended : EndedAs hierarchical cs outcome r
  hentries : ∃ artifacts failures,
    CorpusEntries (Summarized cs outcome) r hierarchical artifacts failures ∧
    r.artifacts = chunkArtifacts hierarchical cs outcome ++ artifacts ∧
    r.failures = chunkFailures hierarchical cs outcome ++ failures

/-! ## Ended requests of a plan -/

theorem outcome?_number {r : Run} {s : SettledJob}
    (hnodup : (r.settled.map SettledJob.number).Nodup) (hs : s ∈ r.settled) :
    r.outcome? s.number = some s.outcome := by
  unfold outcome?
  rw [find?_eq_of_nodup hnodup hs]
  rfl

theorem outcome?_of_entry {r : Run} {s : SettledJob} {number : Nat} {job : Job}
    (hnodup : (r.settled.map SettledJob.number).Nodup) (hs : s ∈ r.settled)
    (hentry : s.entry = (number, job)) : r.outcome? number = some s.outcome := by
  obtain rfl : s.number = number := number_of_entry hentry
  exact outcome?_number hnodup hs

theorem outcome?_eq_none {r : Run} {number : Nat} (h : ∀ s ∈ r.settled, s.number < number) :
    r.outcome? number = none := by
  rw [outcome?, Option.map_eq_none_iff, List.find?_eq_none]
  intro s hs
  simpa using Nat.ne_of_lt (h s hs)

theorem mem_settled_of_outcome? {r : Run} {number : Nat} {o : Outcome}
    (h : r.outcome? number = some o) : ∃ s ∈ r.settled, s.number = number ∧ s.outcome = o := by
  obtain ⟨s, hs, rfl⟩ := Option.map_eq_some_iff.1 h
  exact ⟨s, List.mem_of_find?_eq_some hs, by simpa using List.find?_some hs, rfl⟩

theorem mem_endedJobs {hierarchical : Bool} {stores : ContextStores} {cs : List Chunk}
    {outcome : Nat → ArtifactKind → Outcome} {s : SettledJob} :
    s ∈ endedJobs hierarchical stores cs outcome ↔
      ∃ c place kind, cs[place]? = some c ∧ kind ∈ chunkKinds hierarchical ∧
        s = { number := jobNumber hierarchical place kind, job := chunkJob stores c place kind
              outcome := outcome place kind } := by
  simp only [endedJobs, List.mem_flatMap, List.mem_map, Prod.exists, List.mem_zipIdx_iff_getElem?]
  constructor
  · rintro ⟨c, place, hc, kind, hkind, rfl⟩
    exact ⟨c, place, kind, hc, hkind, rfl⟩
  · rintro ⟨c, place, kind, hc, hkind, rfl⟩
    exact ⟨c, place, hc, kind, hkind, rfl⟩

/-- When a plan has ended, its requests in the order of the plan differ from it by outcomes only. -/
theorem Ended.exists_outcome {hierarchical : Bool} {stores : ContextStores} {cs : List Chunk}
    {ended : List SettledJob} (h : Ended (jobs hierarchical cs stores) ended) :
    ∃ outcome, inPlanOrder ended = endedJobs hierarchical stores cs outcome := by
  obtain ⟨outcome, houtcome⟩ := Run.exists_outcome h.nodup
  refine ⟨fun place kind => outcome (jobNumber hierarchical place kind), ?_⟩
  rw [eq_map_entry fun s hs => houtcome s (mem_inPlanOrder.1 hs),
    map_entry_inPlanOrder (inOrder_jobs hierarchical cs stores) h, numbered_jobs, List.map_flatMap]
  simp only [List.map_map, endedJobs]
  rfl

theorem endedAs_of_endedJobs {hierarchical : Bool} {stores : ContextStores} {cs : List Chunk}
    {outcome : Nat → ArtifactKind → Outcome} {r : Run} {ended corpus : List SettledJob}
    (hnodup : (r.settled.map SettledJob.number).Nodup) (hsettled : r.settled = ended ++ corpus)
    (h : inPlanOrder ended = endedJobs hierarchical stores cs outcome) :
    EndedAs hierarchical cs outcome r := by
  intro place kind hplace hkind
  have hmem : _ ∈ endedJobs hierarchical stores cs outcome :=
    mem_endedJobs.2 ⟨cs[place], place, kind, List.getElem?_eq_getElem hplace, hkind, rfl⟩
  rw [← h, mem_inPlanOrder] at hmem
  exact outcome?_number hnodup (hsettled ▸ List.mem_append_left corpus hmem)

theorem textsAt_summary_ne_nil {cs : List Chunk} {outcome : Nat → ArtifactKind → Outcome} :
    textsAt cs outcome .summary ≠ [] ↔ Summarized cs outcome := by
  simp only [textsAt, ne_eq, List.filterMap_eq_nil_iff, List.mem_range, Summarized, not_forall]
  refine exists_congr fun place => ?_
  cases outcome place .summary with
  | ok text => simp [Except.toOption]
  | error f => simp [Except.toOption]

/-- The texts of requests about chunks stand in the order of the chunks. -/
theorem textsIn_endedJobs {hierarchical : Bool} {stores : ContextStores} {cs : List Chunk}
    {outcome : Nat → ArtifactKind → Outcome} {kind : ArtifactKind}
    (hkind : kind ∈ chunkKinds hierarchical) :
    textsIn kind (endedJobs hierarchical stores cs outcome) = textsAt cs outcome kind := by
  have hplaces : List.range cs.length = cs.zipIdx.map Prod.snd := by
    rw [List.zipIdx_map_snd, List.range_eq_range']
  rw [textsAt, hplaces, List.filterMap_map, textsIn, endedJobs, List.filterMap_flatMap,
    List.filterMap_eq_flatMap_toList]
  refine List.flatMap_congr fun x _ => ?_
  simp only [List.filterMap_map, Function.comp_def, chunkJob]
  rcases mem_chunkKinds.1 hkind with rfl | ⟨rfl, rfl⟩
  · cases hierarchical <;> cases h : (outcome x.2 .detailed).toOption <;>
      simp [chunkKinds, h]
  · cases h : (outcome x.2 .summary).toOption <;> simp [chunkKinds, h]

section Entries

variable (hierarchical : Bool) (stores : ContextStores) (cs : List Chunk)
  (outcome : Nat → ArtifactKind → Outcome)

theorem artifact?_chunkJob (number : Nat) (c : Chunk) (place : Nat) (kind : ArtifactKind)
    (o : Outcome) : artifact? { number, job := chunkJob stores c place kind, outcome := o } =
      (chunkEntry kind c o).getLeft? := by
  cases o <;> rfl

theorem failure?_chunkJob (number : Nat) (c : Chunk) (place : Nat) (kind : ArtifactKind)
    (o : Outcome) : failure? { number, job := chunkJob stores c place kind, outcome := o } =
      (chunkEntry kind c o).getRight? := by
  cases o <;> rfl

theorem filterMap_artifact?_endedJobs :
    (endedJobs hierarchical stores cs outcome).filterMap artifact? =
      chunkArtifacts hierarchical cs outcome := by
  simp only [endedJobs, chunkArtifacts, chunkEntries, List.filterMap_flatMap, List.filterMap_map,
    Function.comp_def, artifact?_chunkJob]

theorem filterMap_failure?_endedJobs :
    (endedJobs hierarchical stores cs outcome).filterMap failure? =
      chunkFailures hierarchical cs outcome := by
  simp only [endedJobs, chunkFailures, chunkEntries, List.filterMap_flatMap, List.filterMap_map,
    Function.comp_def, failure?_chunkJob]

end Entries

/-! ## Complete runs -/

/-- The ways in which a run is complete. -/
inductive Finished (plan : List Job) (r : Run) : Prop where
  | flat (hended : Ended plan r.settled) (hflat : r.options.hierarchical = false)
  | noSummary (hended : Ended plan r.settled) (hhierarchical : r.options.hierarchical = true)
      (hnone : textsIn .summary (inPlanOrder r.settled) = [])
  | noDocument (ended : List SettledJob) (s : SettledJob) (f : RetryFailure)
      (hred : Reducing plan r ended) (hs : s.entry = (plan.length, summaryJob ended))
      (hfailed : s.outcome = .error f) (hsettled : r.settled = ended ++ [s])
  | document (ended : List SettledJob) (s t : SettledJob) (highLevel : String)
      (hred : Reducing plan r ended) (hs : s.entry = (plan.length, summaryJob ended))
      (hhigh : s.outcome = .ok highLevel)
      (ht : t.entry = (plan.length + 1, documentJob highLevel ended))
      (hsettled : r.settled = ended ++ [s, t])

variable {plan : List Job} {r : Run}

theorem Stage.finished (h : Stage plan r) (hplanned : r.planned = plan.length)
    (hdone : r.isComplete = true) : Finished plan r := by
  simp only [isComplete, Bool.and_eq_true, List.isEmpty_iff, Option.isNone_iff_eq_none] at hdone
  obtain ⟨⟨hqueued, hactive⟩, hnext⟩ := hdone
  have hidle : r.pending = [] := by simp [pending, hqueued, hactive]
  cases h with
  | chunks hentries =>
    rw [hidle, List.nil_append] at hentries
    rw [nextReduction?_of_ended hplanned hentries] at hnext
    cases hh : r.options.hierarchical with
    | false => exact .flat hentries hh
    | true => exact .noSummary hentries hh (by simpa [hh] using hnext)
  | summarizing ended hred hpending hsettled =>
    exact absurd (hpending.symm.trans hidle) (List.cons_ne_nil _ _)
  | summarized ended s hred hs hpending hsettled =>
    rw [nextReduction?_of_summarized hplanned hred hs hsettled] at hnext
    cases hout : s.outcome with
    | ok highLevel => simp [hout] at hnext
    | error f => exact .noDocument ended s f hred hs hout hsettled
  | documenting ended s highLevel hred hs hhigh hpending hsettled =>
    exact absurd (hpending.symm.trans hidle) (List.cons_ne_nil _ _)
  | documented ended s t highLevel hred hs hhigh ht hpending hsettled =>
    exact .document ended s t highLevel hred hs hhigh ht hsettled

/-- What a run says about the corpus, if `ended` are the requests of its plan and `corpus` those
    that ended after them. -/
def corpusFailures (r : Run) (ended corpus : List SettledJob) : List Failure :=
  corpus.filterMap failure? ++
    if r.options.hierarchical && (textsIn .summary (inPlanOrder ended)).isEmpty then [noSummaries]
    else []

/-- The requests of a complete run are those of the plan and after it those about the corpus. -/
theorem Finished.corpus (h : Finished plan r) (hplanned : r.planned = plan.length)
    (hnodup : (r.settled.map SettledJob.number).Nodup) :
    ∃ ended corpus, Ended plan ended ∧ r.settled = ended ++ corpus ∧
      (∀ s ∈ corpus, s.job.kind ≠ .summary) ∧
      CorpusEntries (textsIn .summary (inPlanOrder ended) ≠ []) r r.options.hierarchical
        (corpus.filterMap artifact?) (r.corpusFailures ended corpus) := by
  cases h with
  | flat hended hflat =>
    refine ⟨r.settled, [], hended, by simp, by simp, ?_⟩
    rw [corpusFailures, hflat]
    exact .none
  | noSummary hended hhierarchical hnone =>
    refine ⟨r.settled, [], hended, by simp, by simp, ?_⟩
    rw [corpusFailures, hhierarchical, hnone]
    have hlt : ∀ s ∈ r.settled, s.number < r.planned := fun s hs => hplanned ▸ hended.number_lt hs
    exact .noSummary (by simp) (outcome?_eq_none hlt)
      (outcome?_eq_none fun s hs => Nat.lt_succ_of_lt (hlt s hs))
  | noDocument ended s f hred hs hfailed hsettled =>
    refine ⟨ended, [s], hred.hended, hsettled, by simp [job_of_entry hs, summaryJob], ?_⟩
    have hsummary := outcome?_of_entry hnodup (s := s) (by simp [hsettled]) hs
    have hdocument : r.outcome? (plan.length + 1) = none := by
      refine outcome?_eq_none fun t ht => ?_
      rw [hsettled, List.mem_append, List.mem_singleton] at ht
      rcases ht with ht | rfl
      · exact Nat.lt_succ_of_lt (hred.hended.number_lt ht)
      · exact number_of_entry hs ▸ Nat.lt_succ_self _
    rw [hfailed, ← hplanned] at hsummary
    rw [← hplanned] at hdocument
    rw [hred.hhierarchical]
    simpa [corpusFailures, artifact?, failure?, hfailed, job_of_entry hs, summaryJob,
      hred.hsummaries] using CorpusEntries.summaryFailed f hred.hsummaries hsummary hdocument
  | document ended s t highLevel hred hs hhigh ht hsettled =>
    refine ⟨ended, [s, t], hred.hended, hsettled,
      by simp [job_of_entry hs, job_of_entry ht, summaryJob, documentJob], ?_⟩
    have hsummary := outcome?_of_entry hnodup (s := s) (by simp [hsettled]) hs
    have hdocument := outcome?_of_entry hnodup (s := t) (by simp [hsettled]) ht
    rw [hhigh, ← hplanned] at hsummary
    rw [← hplanned] at hdocument
    rw [hred.hhierarchical]
    cases hout : t.outcome with
    | ok text =>
      rw [hout] at hdocument
      simpa [corpusFailures, artifact?, failure?, hhigh, hout, job_of_entry hs, job_of_entry ht,
        summaryJob, documentJob, hred.hsummaries]
        using CorpusEntries.documented highLevel text hred.hsummaries hsummary hdocument
    | error f =>
      rw [hout] at hdocument
      simpa [corpusFailures, artifact?, failure?, hhigh, hout, job_of_entry hs, job_of_entry ht,
        summaryJob, documentJob, hred.hsummaries]
        using CorpusEntries.documentFailed highLevel f hred.hsummaries hsummary hdocument

/-- A complete run accounts for every request of its plan. -/
theorem Finished.accounts {hierarchical : Bool} {cs : List Chunk} {stores : ContextStores}
    (h : Finished (jobs hierarchical cs stores) r) (hoption : r.options.hierarchical = hierarchical)
    (hplanned : r.planned = (jobs hierarchical cs stores).length)
    (hnodup : (r.settled.map SettledJob.number).Nodup) :
    ∃ outcome, Accounts hierarchical cs outcome r := by
  obtain ⟨ended, corpus, hended, hsettled, hkind, hentries⟩ := h.corpus hplanned hnodup
  obtain ⟨outcome, houtcome⟩ := hended.exists_outcome
  have hordered : r.ordered = endedJobs hierarchical stores cs outcome ++ corpus := by
    rw [hended.ordered_eq hplanned hsettled, houtcome]
  refine ⟨outcome, endedAs_of_endedJobs hnodup hsettled houtcome, corpus.filterMap artifact?,
    r.corpusFailures ended corpus, ?_, ?_, ?_⟩
  · rw [hoption] at hentries
    cases hierarchical with
    | false =>
      -- nothing is said about the corpus, whatever the texts are
      generalize corpus.filterMap artifact? = artifacts, r.corpusFailures ended corpus = failures
        at hentries
      cases hentries
      exact .none
    | true =>
      have hsummary : .summary ∈ chunkKinds true := mem_chunkKinds.2 (Or.inr ⟨rfl, rfl⟩)
      rwa [houtcome, textsIn_endedJobs hsummary, textsAt_summary_ne_nil] at hentries
  · rw [artifacts, hordered, List.filterMap_append, filterMap_artifact?_endedJobs]
  · rw [failures, hordered, List.filterMap_append, filterMap_failure?_endedJobs, List.append_assoc,
      hended.textsOf_eq hplanned hsettled hkind, corpusFailures]

/-- Each entry is an artifact or a failure. -/
theorem length_lefts_add_rights (entries : List (Artifact ⊕ Failure)) :
    (entries.filterMap Sum.getLeft?).length + (entries.filterMap Sum.getRight?).length =
      entries.length := by
  induction entries with
  | nil => rfl
  | cons entry rest ih =>
    cases entry with
    | inl a =>
      simp only [List.filterMap_cons, Sum.getLeft?_inl, Sum.getRight?_inl, List.length_cons]
      omega
    | inr f =>
      simp only [List.filterMap_cons, Sum.getLeft?_inr, Sum.getRight?_inr, List.length_cons]
      omega

theorem length_chunkEntries (hierarchical : Bool) (cs : List Chunk)
    (outcome : Nat → ArtifactKind → Outcome) :
    (chunkEntries hierarchical cs outcome).length =
      if hierarchical then 2 * cs.length else cs.length := by
  cases hierarchical <;>
    simp [chunkEntries, chunkKinds, List.length_flatMap, Nat.mul_comm]

/-- The number of entries of an output. -/
theorem Accounts.length {hierarchical : Bool} {cs : List Chunk}
    {outcome : Nat → ArtifactKind → Outcome} (h : Accounts hierarchical cs outcome r) :
    (hierarchical = false → r.artifacts.length + r.failures.length = cs.length) ∧
      (hierarchical = true →
        r.artifacts.length + r.failures.length = 2 * cs.length + 1 ∨
          r.artifacts.length + r.failures.length = 2 * cs.length + 2) := by
  obtain ⟨artifacts, failures, hcorpus, hartifacts, hfailures⟩ := h.hentries
  have hchunks := length_lefts_add_rights (chunkEntries hierarchical cs outcome)
  rw [length_chunkEntries] at hchunks
  rw [hartifacts, hfailures, List.length_append, List.length_append, chunkArtifacts, chunkFailures]
  cases hcorpus <;> simp at hchunks ⊢ <;> omega

/-! ## Every run -/

section Start

variable {options : SynthesisOptions} {cs : List Chunk} {stores : ContextStores} {es : List Event}

theorem finished_of_start (h : (start options cs stores).after? es = some r)
    (hdone : r.isComplete = true) : Finished (jobs options.hierarchical cs stores) r :=
  (stage_of_start h).finished (frame_of_start h).2 hdone

theorem accounts_of_start (h : (start options cs stores).after? es = some r)
    (hdone : r.isComplete = true) : ∃ outcome, Accounts options.hierarchical cs outcome r :=
  (finished_of_start h hdone).accounts (congrArg _ (frame_of_start h).1) (frame_of_start h).2
    (stage_of_start h).nodup_settled

/-- **A run loses and duplicates nothing.** In whatever order things happen, it comes to an end;
    then its output has one entry for each request about a chunk, in the order of the plan, before
    what there is to say about the corpus. The same holds of every run under a clock. -/
theorem complete_run_accounts (options : SynthesisOptions) (cs : List Chunk)
    (stores : ContextStores) (hmax : 1 ≤ options.maxConcurrency) :
    Terminates (start options cs stores) (start options cs stores).potential ∧
      (∀ es r, (start options cs stores).after? es = some r → r.isComplete = true →
        (∃ outcome, Accounts options.hierarchical cs outcome r) ∧
          (options.hierarchical = false → r.artifacts.length + r.failures.length = cs.length) ∧
          (options.hierarchical = true →
            r.artifacts.length + r.failures.length = 2 * cs.length + 1 ∨
              r.artifacts.length + r.failures.length = 2 * cs.length + 2)) ∧
      ∀ (m : Type → Type) [Monad m] [LawfulMonad m] (service : Service m)
        (cancellation : Cancellation),
        Gives (fun s => ∃ outcome, Accounts options.hierarchical cs outcome s.run)
          ((start options cs stores).drive service cancellation) := by
  refine ⟨terminates_start hmax, fun es r h hdone => ?_, fun m _ _ service cancellation => ?_⟩
  · obtain ⟨outcome, haccounts⟩ := accounts_of_start h hdone
    exact ⟨⟨outcome, haccounts⟩, haccounts.length⟩
  · refine (gives_drive service cancellation options cs stores hmax).mono ?_
    rintro s ⟨hdone, es, hes, -⟩
    exact accounts_of_start hes hdone

end Start

/-! ## A small run -/

/-- With a summary, one summary of all summaries is due after the requests about chunks. -/
theorem nextReduction?_of_summary {s : SettledJob} {text : String}
    (hhierarchical : r.options.hierarchical = true) (hdrop : r.settled.drop r.planned = [])
    (hs : s ∈ r.settled) (hkind : s.job.kind = .summary) (hok : s.outcome = .ok text) :
    r.nextReduction? = some
      { kind := .combinedSummary, prompt := Prompt.combinedSummary (r.textsOf .summary) } := by
  have hmem : text ∈ r.textsOf .summary := mem_textsOf.2 ⟨s, hs, hkind, hok⟩
  simp only [nextReduction?, hhierarchical, hdrop, if_true]
  cases hsummaries : r.textsOf .summary with
  | nil => simp [hsummaries] at hmem
  | cons first rest => rfl

/-- A list of events with a summary of all summaries due in it can be run in two parts. -/
theorem after?_append_reduce {r' t : Run} {es later : List Event} {s : SettledJob} {text : String}
    (hes : r.after? es = some r') (hqueued : r'.queued = []) (hactive : r'.active = [])
    (hhierarchical : r'.options.hierarchical = true) (hdrop : r'.settled.drop r'.planned = [])
    (hs : s ∈ r'.settled) (hkind : s.job.kind = .summary) (hok : s.outcome = .ok text)
    (hlater : after? { r' with queued := [(r'.settled.length,
      { kind := .combinedSummary, prompt := Prompt.combinedSummary (r'.textsOf .summary) })] }
      later = some t) : r.after? (es ++ .reduce :: later) = some t :=
  after?_append_eq_some.2 ⟨r', hes, after?_cons_eq_some.2
    ⟨_, .reduce hqueued hactive (nextReduction?_of_summary hhierarchical hdrop hs hkind hok), hlater⟩⟩

/-- Options under which a request may be called twice and two may be active at once. -/
def pairOptions : SynthesisOptions :=
  { hierarchical := true, maxConcurrency := 2
    policy := { maxAttempts := 2, baseDelay := 0, maxDelay := 0 } }

/-- Two chunks that do not differ. -/
def twinChunks : List Chunk :=
  let c := { path := "a.py", language := .known "Python", content := "x", index := 0 }
  [c, c]

/-- Summaries end before documents, one document is refused and one summary tried twice. -/
def twinEvents : List Event :=
  [.begin, .begin, .resume 1, .resume 0, .reply 1 (.ok "s"), .begin, .resume 2,
    .reply 2 (.error (.status 400 "no")), .begin, .resume 3, .reply 3 (.error (.transport "reset")),
    .reply 0 (.ok "d"), .resume 3, .reply 3 (.ok "t")]

/-- Twins keep their entries, also if the run is cancelled when only the corpus is left. -/
theorem twin_chunks_accounted :
    1 ≤ pairOptions.maxConcurrency ∧
      ∃ r, (start pairOptions twinChunks {}).after?
          (twinEvents ++ [.reduce, .cancel, .begin, .resume 4]) = some r ∧
        r.isComplete = true ∧ (∃ outcome, Accounts true twinChunks outcome r) ∧
        (r.artifacts.length + r.failures.length = 5 ∨
          r.artifacts.length + r.failures.length = 6) := by
  have hmax : 1 ≤ pairOptions.maxConcurrency := by decide
  obtain ⟨r, hr, hdone⟩ : ∃ r, (start pairOptions twinChunks {}).after?
      (twinEvents ++ [.reduce, .cancel, .begin, .resume 4]) = some r ∧ r.isComplete = true := by
    exact ⟨_,
      after?_append_reduce rfl rfl rfl rfl rfl (List.mem_of_getElem? (i := 0) rfl) rfl rfl rfl, rfl⟩
  have haccounts := (complete_run_accounts pairOptions twinChunks {} hmax).2.1 _ r hr hdone
  exact ⟨hmax, r, hr, hdone, haccounts.1, haccounts.2.2 rfl⟩

end Run

end SourceDocs
