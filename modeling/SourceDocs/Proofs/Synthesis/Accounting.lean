import SourceDocs.Proofs.Synthesis.Cancellation

set_option autoImplicit false

/-! # Accounting: every call of a run belongs to one entry of its output

A call is made under the number of its request (`request?`). The calls under one number are those
that its replies show (`History`), and the policy limits them, so all numbers together limit the
calls of a run. The `ledger` puts each entry of the output under the number of its request; when a
run is complete, it covers all calls, and its entries tell how many there were or what the last one
was answered (`Balanced`). -/

namespace SourceDocs

/-- What an ended request gives: an artifact or a failure. -/
def SettledJob.result (s : SettledJob) : Artifact ⊕ Failure :=
  match s.outcome with
  | .ok text =>
    .inl { kind := s.job.kind, chunk := s.job.chunk.map Chunk.id
           language := s.job.chunk.map Chunk.language, text }
  | .error f =>
    .inr { kind := s.job.kind, chunk := s.job.chunk.map Chunk.id, attempts := f.attempts
           cause := f.error.message }

namespace Run

/-- The request with a number: those of the plan come first, then the summary of all summaries and,
    if it was given, the document of all documents. -/
def request? (plan : List Job) (r : Run) (number : Nat) : Option Job :=
  if number < plan.length then plan[number]?
  else if number = plan.length then
    some { kind := .combinedSummary, prompt := Prompt.combinedSummary (r.textsOf .summary) }
  else if number = plan.length + 1 then
    match r.outcome? plan.length with
    | some (.ok highLevel) =>
      some { kind := .combined, prompt := Prompt.combined highLevel (r.textsOf .detailed) }
    | _ => none
  else none

/-- The entries of the output, each under the number of its request. Without summaries, the summary
    of them fails although it is not asked for. -/
def ledger (r : Run) : List (Nat × (Artifact ⊕ Failure)) :=
  r.ordered.map (fun s => (s.number, s.result)) ++
    if r.options.hierarchical && (r.textsOf .summary).isEmpty then [(r.planned, .inr noSummaries)]
    else []

/-- What an entry of the output is about. -/
def subject : Artifact ⊕ Failure → ArtifactKind × Option ChunkId
  | .inl a => (a.kind, a.chunk)
  | .inr f => (f.kind, f.chunk)

/-- The output of a run accounts for its calls, if `es` is what has happened to it. -/
structure Balanced (plan : List Job) (r : Run) (es : List Event) : Prop where
  /-- The ledger holds the output, in its order, and no number twice. -/
  hartifacts : r.artifacts = r.ledger.filterMap fun x => x.2.getLeft?
  hfailures : r.failures = r.ledger.filterMap fun x => x.2.getRight?
  hnodup : (r.ledger.map Prod.fst).Nodup
  /-- An entry is about what its request is about, all of whose calls have been answered. -/
  hrequest : ∀ x ∈ r.ledger, ∃ job, r.request? plan x.1 = some job ∧
    subject x.2 = (job.kind, job.chunk.map Chunk.id)
  hreplies : ∀ x ∈ r.ledger, (repliesTo x.1 es).length = r.callCount x.1
  /-- A text is the last reply, and a failure tells the number of calls. -/
  htext : ∀ n a, (n, .inl a) ∈ r.ledger → (repliesTo n es).getLast? = some (.ok a.text)
  hattempts : ∀ n f, (n, .inr f) ∈ r.ledger → f.attempts = r.callCount n
  /-- Every call belongs to an entry. -/
  hcalls : ∀ c ∈ r.calls, c.1 ∈ r.ledger.map Prod.fst

/-- Each reply was an error that is worth another call. -/
def AllRetryable (replies : List Reply) : Prop :=
  ∀ reply ∈ replies, ∃ e, reply = .error e ∧ e.isRetryable = true

variable {plan : List Job} {r r' : Run} {es : List Event} {p : RetryPolicy}

/-! ## Requests and their numbers -/

theorem request?_of_mem_plan {n : Nat} {job : Job} (h : (n, job) ∈ numbered 0 plan) :
    r.request? plan n = some job := by
  obtain ⟨-, hget⟩ := mem_numbered.1 h
  rw [Nat.sub_zero] at hget
  rw [request?, if_pos (List.getElem?_eq_some_iff.1 hget).1, hget]

/-- The requests about the corpus are made from what the plan gave, and from the first of them. -/
theorem Reducing.request?_eq {ended corpus : List SettledJob} (h : Reducing plan r ended)
    (hplanned : r.planned = plan.length) (highLevel : String)
    (hsettled : r.settled = ended ++ corpus)
    (hcorpus : ∀ s ∈ corpus, s.job = summaryJob ended ∨ s.job = documentJob highLevel ended) :
    r.request? plan plan.length = some (summaryJob ended) ∧
      (r.outcome? plan.length = some (.ok highLevel) →
        r.request? plan (plan.length + 1) = some (documentJob highLevel ended)) := by
  have hsummary : ∀ s ∈ corpus, s.job.kind ≠ .summary := by
    intro s hs
    rcases hcorpus s hs with heq | heq <;> simp [heq, summaryJob, documentJob]
  have hdetailed : ∀ s ∈ corpus, s.job.kind ≠ .detailed := by
    intro s hs
    rcases hcorpus s hs with heq | heq <;> simp [heq, summaryJob, documentJob]
  constructor
  · rw [request?, if_neg (Nat.lt_irrefl _), if_pos rfl,
      h.hended.textsOf_eq hplanned hsettled hsummary]
    rfl
  · intro hhigh
    rw [request?, if_neg (by omega), if_neg (by omega), if_pos rfl, hhigh,
      h.hended.textsOf_eq hplanned hsettled hdetailed]
    rfl

/-- **Whatever a run knows of under a number is the request with that number.** -/
theorem Stage.request_of_entry (h : Stage plan r) (hplanned : r.planned = plan.length) {n : Nat}
    {job : Job} (hmem : (n, job) ∈ r.pending ++ r.settled.map SettledJob.entry) :
    r.request? plan n = some job := by
  have hnodup := h.nodup_settled
  cases h with
  | chunks hentries => exact request?_of_mem_plan (hentries.mem_iff.1 hmem)
  | summarizing ended hred hpending hsettled =>
    obtain ⟨hsummary, -⟩ := hred.request?_eq hplanned ""
      (hsettled.trans (List.append_nil ended).symm) nofun
    rw [hpending, hsettled, List.mem_append, List.mem_singleton] at hmem
    rcases hmem with hmem | hmem
    · cases hmem
      exact hsummary
    · exact request?_of_mem_plan (hred.hended.mem_iff.1 hmem)
  | summarized ended s hred hs hpending hsettled =>
    obtain ⟨hsummary, -⟩ := hred.request?_eq hplanned "" hsettled (by simp [job_of_entry hs])
    rw [hpending, hsettled, List.nil_append, List.map_append, List.map_singleton, List.mem_append,
      List.mem_singleton, hs] at hmem
    rcases hmem with hmem | hmem
    · exact request?_of_mem_plan (hred.hended.mem_iff.1 hmem)
    · cases hmem
      exact hsummary
  | documenting ended s highLevel hred hs hhigh hpending hsettled =>
    obtain ⟨hsummary, hdocument⟩ := hred.request?_eq hplanned highLevel hsettled
      (by simp [job_of_entry hs])
    have houtcome := outcome?_of_entry hnodup (s := s) (by simp [hsettled]) hs
    rw [hpending, hsettled, List.map_append, List.map_singleton, List.mem_append, List.mem_append,
      List.mem_singleton, List.mem_singleton, hs] at hmem
    rcases hmem with hmem | hmem | hmem
    · cases hmem
      exact hdocument (hhigh ▸ houtcome)
    · exact request?_of_mem_plan (hred.hended.mem_iff.1 hmem)
    · cases hmem
      exact hsummary
  | documented ended s t highLevel hred hs hhigh ht hpending hsettled =>
    obtain ⟨hsummary, hdocument⟩ := hred.request?_eq hplanned highLevel hsettled
      (by simp [job_of_entry hs, job_of_entry ht])
    have houtcome := outcome?_of_entry hnodup (s := s) (by simp [hsettled]) hs
    rw [hpending, hsettled, List.nil_append, List.map_append, List.mem_append, List.map_cons,
      List.map_singleton, List.mem_pair, hs, ht] at hmem
    rcases hmem with hmem | hmem | hmem
    · exact request?_of_mem_plan (hred.hended.mem_iff.1 hmem)
    · cases hmem
      exact hsummary
    · cases hmem
      exact hdocument (hhigh ▸ houtcome)

/-! ## How many calls there are -/

theorem allRetryable_of_tried {replies : List Reply} (h : Tried p replies) :
    AllRetryable replies := by
  intro reply hreply
  obtain ⟨i, hi⟩ := List.getElem?_of_mem hreply
  obtain ⟨e, he, hgo⟩ := h i reply hi
  exact ⟨e, he, (Bool.and_eq_true_iff.1 hgo).1⟩

/-- An ended request has no more replies than the policy allows calls. -/
theorem Concluded.length_le {cancelled : Bool} {replies : List Reply} {o : Outcome}
    (h : Concluded p cancelled replies o) : replies.length ≤ p.callLimit := by
  cases h with
  | succeeded text htried =>
    rw [List.length_append, List.length_singleton]
    exact lt_callLimit_of_tried htried
  | failed e htried _ =>
    rw [List.length_append, List.length_singleton]
    exact lt_callLimit_of_tried htried
  | gaveUp htried _ => exact Nat.le_of_lt (lt_callLimit_of_tried htried)

/-- **No request has more calls than the policy allows.** -/
theorem History.callCount_le (h : History r es) (n : Nat) :
    r.callCount n ≤ r.options.policy.callLimit := by
  by_cases hactive : n ∈ r.active.map ActiveJob.number
  · obtain ⟨a, ha, rfl⟩ := List.mem_map.1 hactive
    have hunderway := h.hactive a ha
    cases hphase : a.phase with
    | waiting attempts =>
      rw [hphase] at hunderway
      obtain ⟨hcount, hlength, htried⟩ := hunderway
      have hlt := lt_callLimit_of_tried htried
      omega
    | calling attempts =>
      rw [hphase] at hunderway
      obtain ⟨hcount, hlength, htried⟩ := hunderway
      have hlt := lt_callLimit_of_tried htried
      omega
  · by_cases hsettled : n ∈ r.settled.map SettledJob.number
    · obtain ⟨s, hs, rfl⟩ := List.mem_map.1 hsettled
      obtain ⟨hcount, hconcluded⟩ := h.hsettled s hs
      exact hcount ▸ hconcluded.length_le
    · rw [(h.hfresh n hactive hsettled).1]
      exact Nat.zero_le _

/-- Items under few numbers, and few under each, are few. -/
theorem length_le_mul {α : Type} {xs : List (Nat × α)} {numbers limit : Nat}
    (hnumbers : ∀ x ∈ xs, x.1 < numbers) (hlimit : ∀ n, xs.countP (fun x => x.1 = n) ≤ limit) :
    xs.length ≤ limit * numbers := by
  have hcount : ∀ n, (xs.map Prod.fst).count n ≤ limit := by
    intro n
    rw [List.count_eq_countP, List.countP_map]
    refine Nat.le_trans (Nat.le_of_eq (List.countP_congr fun x _ => ?_)) (hlimit n)
    simp
  have hsubset : (xs.map Prod.fst).toFinset ⊆ Finset.range numbers := by
    intro n hn
    obtain ⟨x, hx, rfl⟩ := List.mem_map.1 (List.mem_toFinset.1 hn)
    exact Finset.mem_range.2 (hnumbers x hx)
  calc xs.length
      = ∑ n ∈ (xs.map Prod.fst).toFinset, (xs.map Prod.fst).count n := by
        rw [List.sum_toFinset_count_eq_length, List.length_map]
    _ ≤ (xs.map Prod.fst).toFinset.card * limit := Finset.sum_le_card_nsmul _ _ _ fun n _ => hcount n
    _ ≤ limit * numbers := by
        rw [Nat.mul_comm]
        refine Nat.mul_le_mul_left _ ?_
        simpa using Finset.card_le_card hsubset

/-- **The calls of a run are limited** by the number of its requests. -/
theorem History.length_calls_le (h : History r es) (hstage : Stage plan r) :
    r.calls.length ≤ r.options.policy.callLimit * (plan.length + 2) := by
  refine length_le_mul (fun c hc => ?_) h.callCount_le
  rcases h.place_of_call hstage hc with ⟨hlt, -⟩ | ⟨heq, -⟩ | ⟨heq, -⟩ <;> omega

/-- Before a call is made for a request, all its earlier ones have failed and were worth another. -/
theorem Step.replies_of_call {e : Event} {c : Nat × Job} (h : Step r e r') (hhistory : History r es)
    (hcall : r'.calls = r.calls ++ [c]) :
    (repliesTo c.1 es).length = r.callCount c.1 ∧ AllRetryable (repliesTo c.1 es) := by
  cases h with
  | @call number attempts a hfind hphase hlive =>
    obtain rfl : (number, a.job) = c := by simpa using hcall
    obtain ⟨hcount, hlength, htried⟩ := hhistory.of_waiting hfind hphase
    exact ⟨hlength.trans hcount.symm, allRetryable_of_tried htried⟩
  | begin _ _ => simp at hcall
  | giveUp _ _ _ => simp at hcall
  | succeed _ _ => simp at hcall
  | retry _ _ _ => simp at hcall
  | fail _ _ _ => simp at hcall
  | cancel => simp at hcall
  | reduce _ _ _ => simp at hcall

/-! ## The ledger -/

@[simp] theorem getLeft?_result (s : SettledJob) : s.result.getLeft? = artifact? s := by
  rw [SettledJob.result, artifact?]
  cases s.outcome <;> rfl

@[simp] theorem getRight?_result (s : SettledJob) : s.result.getRight? = failure? s := by
  rw [SettledJob.result, failure?]
  cases s.outcome <;> rfl

@[simp] theorem subject_result (s : SettledJob) :
    subject s.result = (s.job.kind, s.job.chunk.map Chunk.id) := by
  rw [SettledJob.result]
  cases s.outcome <;> rfl

theorem artifacts_eq_ledger (r : Run) : r.artifacts = r.ledger.filterMap fun x => x.2.getLeft? := by
  rw [ledger, List.filterMap_append, List.filterMap_map]
  simp only [Function.comp_def, getLeft?_result]
  split <;> simp [artifacts]

theorem failures_eq_ledger (r : Run) : r.failures = r.ledger.filterMap fun x => x.2.getRight? := by
  rw [ledger, List.filterMap_append, List.filterMap_map]
  simp only [Function.comp_def, getRight?_result]
  split <;> simp_all [failures]

/-- An entry of the ledger is what an ended request gave, or says that there are no summaries. -/
theorem mem_ledger {x : Nat × (Artifact ⊕ Failure)} (h : x ∈ r.ledger) :
    (∃ s ∈ r.settled, x = (s.number, s.result)) ∨
      (r.options.hierarchical = true ∧ r.textsOf .summary = [] ∧
        x = (r.planned, .inr noSummaries)) := by
  rw [ledger, List.mem_append] at h
  rcases h with h | h
  · obtain ⟨s, hs, rfl⟩ := List.mem_map.1 h
    exact Or.inl ⟨s, mem_ordered.1 hs, rfl⟩
  · split at h
    · rename_i hnone
      rw [Bool.and_eq_true, List.isEmpty_iff] at hnone
      exact Or.inr ⟨hnone.1, hnone.2, List.mem_singleton.1 h⟩
    · exact absurd h List.not_mem_nil

theorem mem_ledger_of_settled {s : SettledJob} (hs : s ∈ r.settled) :
    (s.number, s.result) ∈ r.ledger := by
  rw [ledger, List.mem_append]
  exact Or.inl (List.mem_map_of_mem (f := fun s => (s.number, s.result)) (mem_ordered.2 hs))

/-- Without summaries, a complete run has ended no request for a summary of them. -/
theorem Finished.planned_not_mem (h : Finished plan r) (hplanned : r.planned = plan.length)
    (hnodup : (r.settled.map SettledJob.number).Nodup)
    (hhierarchical : r.options.hierarchical = true)
    (hnone : r.textsOf .summary = []) : r.planned ∉ r.settled.map SettledJob.number := by
  obtain ⟨ended, corpus, hended, hsettled, hkind, hentries⟩ := h.corpus hplanned hnodup
  rw [hended.textsOf_eq hplanned hsettled hkind] at hnone
  rw [hnone, hhierarchical] at hentries
  generalize corpus.filterMap artifact? = artifacts, r.corpusFailures ended corpus = failures
    at hentries
  cases hentries with
  | noSummary _ hsummary _ => exact not_mem_of_outcome?_eq_none hsummary
  | summaryFailed f hsome _ _ => exact absurd rfl hsome
  | documentFailed text f hsome _ _ => exact absurd rfl hsome
  | documented text document hsome _ _ => exact absurd rfl hsome

theorem Finished.nodup_ledger (h : Finished plan r) (hplanned : r.planned = plan.length)
    (hnodup : (r.settled.map SettledJob.number).Nodup) : (r.ledger.map Prod.fst).Nodup := by
  have hordered : (r.ordered.map SettledJob.number).Nodup :=
    ((ordered_perm r).map _).nodup_iff.2 hnodup
  have hmap : (r.ordered.map fun s => (s.number, s.result)).map Prod.fst =
      r.ordered.map SettledJob.number := by
    rw [List.map_map]
    rfl
  rw [ledger, List.map_append, hmap]
  split
  · rename_i hnone
    rw [Bool.and_eq_true, List.isEmpty_iff] at hnone
    refine List.nodup_append.2 ⟨hordered, List.nodup_singleton _, ?_⟩
    intro n hn m hm
    obtain ⟨s, hs, rfl⟩ := List.mem_map.1 hn
    obtain rfl : m = r.planned := List.mem_singleton.1 hm
    intro heq
    refine h.planned_not_mem hplanned hnodup hnone.1 hnone.2 (heq ▸ ?_)
    exact List.mem_map_of_mem (mem_ordered.1 hs)
  · rwa [List.map_nil, List.append_nil]

/-- How an ended request tells of its calls. -/
theorem Concluded.result_eq {cancelled : Bool} {replies : List Reply} {s : SettledJob}
    (h : Concluded p cancelled replies s.outcome) :
    (∀ a, s.result = .inl a → replies.getLast? = some (.ok a.text)) ∧
      ∀ f, s.result = .inr f → f.attempts = replies.length := by
  obtain ⟨number, job, outcome⟩ := s
  cases h with
  | succeeded text _ =>
    refine ⟨fun a ha => ?_, nofun⟩
    cases ha
    simp
  | failed e _ _ =>
    refine ⟨nofun, fun f hf => ?_⟩
    cases hf
    simp
  | gaveUp _ _ =>
    refine ⟨nofun, fun f hf => ?_⟩
    cases hf
    rfl

/-- **A complete run is balanced**: its output accounts for all calls. -/
theorem Finished.balanced (h : Finished plan r) (hplanned : r.planned = plan.length)
    (hstage : Stage plan r) (hhistory : History r es) (hactive : r.active = []) :
    Balanced plan r es := by
  have hentry : ∀ {s : SettledJob}, s ∈ r.settled →
      s.entry ∈ r.pending ++ r.settled.map SettledJob.entry := fun hs =>
    List.mem_append_right _ (List.mem_map_of_mem hs)
  -- the summary of all summaries has no calls if it is not asked for
  have hnocalls : r.options.hierarchical = true → r.textsOf .summary = [] →
      r.callCount r.planned = 0 ∧ repliesTo r.planned es = [] := by
    intro hhierarchical hnone
    refine hhistory.hfresh r.planned (by simp [hactive]) ?_
    exact h.planned_not_mem hplanned hstage.nodup_settled hhierarchical hnone
  refine ⟨artifacts_eq_ledger r, failures_eq_ledger r, h.nodup_ledger hplanned hstage.nodup_settled,
    ?_, ?_, ?_, ?_, ?_⟩
  · intro x hx
    rcases mem_ledger hx with ⟨s, hs, rfl⟩ | ⟨-, -, rfl⟩
    · exact ⟨s.job, hstage.request_of_entry hplanned (hentry hs), subject_result s⟩
    · refine ⟨{ kind := .combinedSummary, prompt := Prompt.combinedSummary (r.textsOf .summary) },
        ?_, rfl⟩
      rw [request?, hplanned, if_neg (Nat.lt_irrefl _), if_pos rfl]
  · intro x hx
    rcases mem_ledger hx with ⟨s, hs, rfl⟩ | ⟨hhierarchical, hnone, rfl⟩
    · exact (hhistory.hsettled s hs).1.symm
    · obtain ⟨hcount, hreplies⟩ := hnocalls hhierarchical hnone
      rw [hcount, hreplies]
      rfl
  · intro n a hx
    rcases mem_ledger hx with ⟨s, hs, heq⟩ | ⟨-, -, heq⟩
    · obtain ⟨rfl, hresult⟩ := Prod.mk.inj heq
      exact (hhistory.hsettled s hs).2.result_eq.1 a hresult.symm
    · cases heq
  · intro n f hx
    rcases mem_ledger hx with ⟨s, hs, heq⟩ | ⟨hhierarchical, hnone, heq⟩
    · obtain ⟨rfl, hresult⟩ := Prod.mk.inj heq
      rw [(hhistory.hsettled s hs).1]
      exact (hhistory.hsettled s hs).2.result_eq.2 f hresult.symm
    · cases heq
      rw [(hnocalls hhierarchical hnone).1]
      rfl
  · intro c hc
    rcases hhistory.hcalls c hc with hmem | hmem
    · simp [hactive] at hmem
    · obtain ⟨s, hs, rfl⟩ := List.mem_map.1 hmem
      exact List.mem_map_of_mem (mem_ledger_of_settled hs)

/-! ## Every run -/

section Start

variable {options : SynthesisOptions} {cs : List Chunk} {stores : ContextStores}

theorem balanced_of_start (h : (start options cs stores).after? es = some r)
    (hdone : r.isComplete = true) : Balanced (jobs options.hierarchical cs stores) r es := by
  have hactive : r.active = [] := by
    simp only [isComplete, Bool.and_eq_true, List.isEmpty_iff] at hdone
    exact hdone.1.2
  exact (finished_of_start h hdone).balanced (frame_of_start h).2 (stage_of_start h)
    (history_of_start h) hactive

/-- **Every call of a run is accounted for**, in every order of events. A call is made for the
    request with its number, the first of these or after all earlier ones failed with errors that
    are worth another; the policy limits the calls of each request and with them those of the run. A
    complete run has one entry for the calls of each request, which tells their number or the last
    reply. -/
theorem calls_accounted (options : SynthesisOptions) (cs : List Chunk) (stores : ContextStores) :
    (∀ es r, (start options cs stores).after? es = some r →
      (∀ c ∈ r.calls, r.request? (jobs options.hierarchical cs stores) c.1 = some c.2) ∧
      (∀ e r' c, r.next? e = some r' → r'.calls = r.calls ++ [c] →
        (repliesTo c.1 es).length = r.callCount c.1 ∧ AllRetryable (repliesTo c.1 es)) ∧
      (∀ n, r.callCount n ≤ max 1 options.policy.maxAttempts) ∧
      r.calls.length ≤
        max 1 options.policy.maxAttempts * ((jobs options.hierarchical cs stores).length + 2) ∧
      (r.isComplete = true → Balanced (jobs options.hierarchical cs stores) r es)) ∧
    (1 ≤ options.maxConcurrency →
      ∀ (m : Type → Type) [Monad m] [LawfulMonad m] (service : Service m)
        (cancellation : Cancellation),
        Gives (fun s => ∃ es, (start options cs stores).after? es = some s.run ∧
            Balanced (jobs options.hierarchical cs stores) s.run es)
          ((start options cs stores).drive service cancellation)) := by
  constructor
  · intro es r h
    have hhistory := history_of_start h
    have hstage := stage_of_start h
    have hoptions := (frame_of_start h).1
    refine ⟨fun c hc => ?_, fun e r' c hnext hcall => ?_, fun n => ?_, ?_, balanced_of_start h⟩
    · exact hstage.request_of_entry (frame_of_start h).2
        (mem_entries_of_started (hhistory.started_of_call hc))
    · exact (Step.of_next? hnext).replies_of_call hhistory hcall
    · exact hoptions ▸ hhistory.callCount_le n
    · have hle := hhistory.length_calls_le hstage
      rw [hoptions] at hle
      exact hle
  · intro hmax m _ _ service cancellation
    refine (gives_drive service cancellation options cs stores hmax).mono ?_
    rintro s ⟨hdone, es, hes, -⟩
    exact ⟨es, hes, balanced_of_start hes hdone⟩

/-- The twins' calls: one summary is asked for again after an error, and the run is cancelled before
    the corpus is asked about. -/
theorem twin_calls_accounted :
    1 ≤ pairOptions.maxConcurrency ∧
      (∃ r r' c, (start pairOptions twinChunks {}).after? (twinEvents.take 12) = some r ∧
        r.next? (.resume 3) = some r' ∧ r'.calls = r.calls ++ [c] ∧ r.callCount 3 = 1 ∧
        AllRetryable (repliesTo c.1 (twinEvents.take 12))) ∧
      ∃ r, (start pairOptions twinChunks {}).after?
          (twinEvents ++ [.reduce, .cancel, .begin, .resume 4]) = some r ∧
        r.isComplete = true ∧ r.calls.length = 5 ∧
        Balanced (jobs true twinChunks {}) r
          (twinEvents ++ [.reduce, .cancel, .begin, .resume 4]) := by
  have haccounts := calls_accounted pairOptions twinChunks {}
  refine ⟨by decide, ?_, ?_⟩
  · obtain ⟨r, hr, r', hr', c, hcall, hcount⟩ : ∃ r,
        (start pairOptions twinChunks {}).after? (twinEvents.take 12) = some r ∧
        ∃ r', r.next? (.resume 3) = some r' ∧ ∃ c, r'.calls = r.calls ++ [c] ∧ r.callCount 3 = 1 :=
      ⟨_, rfl, _, rfl, _, rfl, rfl⟩
    exact ⟨r, r', c, hr, hr', hcall, hcount, ((haccounts.1 _ r hr).2.1 _ r' c hr' hcall).2⟩
  · obtain ⟨r, hr, hdone, hcalls⟩ : ∃ r, (start pairOptions twinChunks {}).after?
        (twinEvents ++ [.reduce, .cancel, .begin, .resume 4]) = some r ∧ r.isComplete = true ∧
        r.calls.length = 5 := by
      exact ⟨_, after?_append_reduce rfl rfl rfl rfl rfl (List.mem_of_getElem? (i := 0) rfl) rfl rfl
        rfl, rfl, rfl⟩
    exact ⟨r, hr, hdone, hcalls, (haccounts.1 _ r hr).2.2.2.2 hdone⟩

end Start

end Run

end SourceDocs
