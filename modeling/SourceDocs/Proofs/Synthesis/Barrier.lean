import SourceDocs.Proofs.Synthesis.Cancellation

set_option autoImplicit false

/-! # Barrier: when the corpus is asked about, and with which texts

A call about the corpus belongs to a pending request after the plan, and the stage of the run then
says that the plan has ended and what was made of it. So the prompts of these calls hold the texts
that the requests about chunks gave, in the order of the chunks, whatever order they ended in. -/

namespace SourceDocs

namespace Run

variable {plan : List Job} {r r' : Run} {es : List Event}

/-! ## Calls about the corpus -/

/-- A call is made for a pending request. -/
theorem Step.pending_of_call {e : Event} {c : Nat × Job} (h : Step r e r')
    (hcall : r'.calls = r.calls ++ [c]) : c ∈ r.pending := by
  cases h with
  | @call number attempts a hfind hphase hlive =>
    obtain rfl : (number, a.job) = c := by simpa using hcall
    rw [← number_of_find? hfind]
    exact List.mem_append_left _ (List.mem_map_of_mem (mem_active_of_find? hfind))
  | begin _ _ => simp at hcall
  | giveUp _ _ _ => simp at hcall
  | succeed _ _ => simp at hcall
  | retry _ _ _ => simp at hcall
  | fail _ _ _ => simp at hcall
  | cancel => simp at hcall
  | reduce _ _ _ => simp at hcall

/-- A pending request for the summary of all summaries was made from the ended plan. -/
theorem Stage.of_pending_summary (h : Stage plan r) {c : Nat × Job} (hc : c ∈ r.pending)
    (hplan : ∀ job ∈ plan, job.kind ≠ .combinedSummary) (hkind : c.2.kind = .combinedSummary) :
    ∃ ended, Reducing plan r ended ∧ r.settled = ended ∧
      c = (plan.length, summaryJob ended) := by
  cases h with
  | chunks hentries =>
    have hmem := hentries.mem_iff.1 (List.mem_append_left _ hc)
    have hjob : c.2 ∈ plan := map_snd_numbered 0 plan ▸ List.mem_map_of_mem hmem
    exact absurd hkind (hplan c.2 hjob)
  | summarizing ended hred hpending hsettled =>
    rw [hpending, List.mem_singleton] at hc
    exact ⟨ended, hred, hsettled, hc⟩
  | summarized ended s hred hs hpending hsettled => simp [hpending] at hc
  | documenting ended s highLevel hred hs hhigh hpending hsettled =>
    rw [hpending, List.mem_singleton] at hc
    rw [hc] at hkind
    cases hkind
  | documented ended s t highLevel hred hs hhigh ht hpending hsettled => simp [hpending] at hc

/-- A pending request for the document of all documents was made from the ended plan and the summary
    of all summaries. -/
theorem Stage.of_pending_document (h : Stage plan r) {c : Nat × Job} (hc : c ∈ r.pending)
    (hplan : ∀ job ∈ plan, job.kind ≠ .combined) (hkind : c.2.kind = .combined) :
    ∃ ended s highLevel, Reducing plan r ended ∧ s.number = plan.length ∧
      s.outcome = .ok highLevel ∧ r.settled = ended ++ [s] ∧
      c = (plan.length + 1, documentJob highLevel ended) := by
  cases h with
  | chunks hentries =>
    have hmem := hentries.mem_iff.1 (List.mem_append_left _ hc)
    have hjob : c.2 ∈ plan := map_snd_numbered 0 plan ▸ List.mem_map_of_mem hmem
    exact absurd hkind (hplan c.2 hjob)
  | summarizing ended hred hpending hsettled =>
    rw [hpending, List.mem_singleton] at hc
    rw [hc] at hkind
    cases hkind
  | summarized ended s hred hs hpending hsettled => simp [hpending] at hc
  | documenting ended s highLevel hred hs hhigh hpending hsettled =>
    rw [hpending, List.mem_singleton] at hc
    exact ⟨ended, s, highLevel, hred, number_of_entry hs, hhigh, hsettled, hc⟩
  | documented ended s t highLevel hred hs hhigh ht hpending hsettled => simp [hpending] at hc

/-- The texts of an ended plan, by the outcomes of its requests. -/
theorem Reducing.exists_texts {cs : List Chunk} {stores : ContextStores}
    {ended corpus : List SettledJob} (h : Reducing (jobs true cs stores) r ended)
    (hnodup : (r.settled.map SettledJob.number).Nodup) (hsettled : r.settled = ended ++ corpus) :
    ∃ outcome, EndedAs true cs outcome r ∧ Summarized cs outcome ∧
      ∀ kind ∈ chunkKinds true, textsIn kind (inPlanOrder ended) = textsAt cs outcome kind := by
  obtain ⟨outcome, houtcome⟩ := h.hended.exists_outcome
  have htexts : ∀ kind ∈ chunkKinds true,
      textsIn kind (inPlanOrder ended) = textsAt cs outcome kind := by
    intro kind hkind
    rw [houtcome, textsIn_endedJobs hkind]
  have hsome := h.hsummaries
  rw [htexts .summary (mem_chunkKinds.2 (Or.inr ⟨rfl, rfl⟩)), textsAt_summary_ne_nil] at hsome
  exact ⟨outcome, endedAs_of_endedJobs hnodup hsettled houtcome, hsome, htexts⟩

/-! ## Calls and outcomes -/

/-- Without a cancellation, a request ends by its calls. -/
theorem History.call_of_outcome (h : History r es) (hlive : r.cancelled = false) {number : Nat}
    {o : Outcome} (ho : r.outcome? number = some o) : ∃ c ∈ r.calls, c.1 = number := by
  obtain ⟨s, hs, rfl, rfl⟩ := mem_settled_of_outcome? ho
  obtain ⟨hcount, hconcluded⟩ := h.hsettled s hs
  refine exists_call_of_callCount_pos (hcount ▸ List.length_pos_iff.2 fun hnone => ?_)
  rw [hnone] at hconcluded
  exact absurd (hconcluded.of_tried tried_nil).2 (by simp [hlive])

/-- Without a cancellation, the requests that end are those that calls are made for. -/
theorem History.called_iff (h : History r es) (hstage : Stage plan r) (hdone : r.isComplete = true)
    (hlive : r.cancelled = false) {number : Nat} :
    (∃ c ∈ r.calls, c.1 = number) ↔ ∃ o, r.outcome? number = some o := by
  constructor
  · rintro ⟨c, hc, rfl⟩
    exact h.outcome_of_call hstage hdone hc
  · rintro ⟨o, ho⟩
    exact h.call_of_outcome hlive ho

/-- The summary of all summaries is asked for if there is a summary. -/
theorem Accounts.outcome_summary_iff {cs : List Chunk} {outcome : Nat → ArtifactKind → Outcome}
    (h : Accounts true cs outcome r) :
    (∃ o, r.outcome? r.planned = some o) ↔ Summarized cs outcome := by
  obtain ⟨artifacts, failures, hcorpus, -, -⟩ := h.hentries
  cases hcorpus with
  | noSummary hnone hsummary _ => simp [hsummary, hnone]
  | summaryFailed f hsome hsummary _ => simp [hsummary, hsome]
  | documentFailed text f hsome hsummary _ => simp [hsummary, hsome]
  | documented text document hsome hsummary _ => simp [hsummary, hsome]

/-- What a request about a chunk gives is of its kind. -/
theorem kind_of_mem_chunkEntries {hierarchical : Bool} {cs : List Chunk}
    {outcome : Nat → ArtifactKind → Outcome} {entry : Artifact ⊕ Failure}
    (h : entry ∈ chunkEntries hierarchical cs outcome) :
    entry.elim Artifact.kind Failure.kind ∈ chunkKinds hierarchical := by
  obtain ⟨x, -, hx⟩ := List.mem_flatMap.1 h
  obtain ⟨kind, hkind, rfl⟩ := List.mem_map.1 hx
  cases outcome x.2 kind with
  | ok text => exact hkind
  | error f => exact hkind

/-- Without the summary of all summaries, the output does not mention the document of all
    documents. -/
theorem Accounts.no_document {cs : List Chunk} {outcome : Nat → ArtifactKind → Outcome}
    (h : Accounts true cs outcome r) (hnone : ∀ text, r.outcome? r.planned ≠ some (.ok text)) :
    (∀ a ∈ r.artifacts, a.kind ≠ .combined) ∧ ∀ f ∈ r.failures, f.kind ≠ .combined := by
  have hchunks : ∀ entry ∈ chunkEntries true cs outcome,
      entry.elim Artifact.kind Failure.kind ≠ .combined := fun entry hentry hkind =>
    (not_mem_chunkKinds true).2 (hkind ▸ kind_of_mem_chunkEntries hentry)
  have hchunkArtifacts : ∀ a ∈ chunkArtifacts true cs outcome, a.kind ≠ .combined := by
    intro a ha
    obtain ⟨entry, hentry, hleft⟩ := List.mem_filterMap.1 ha
    rw [Sum.getLeft?_eq_some_iff] at hleft
    exact hchunks (.inl a) (hleft ▸ hentry)
  have hchunkFailures : ∀ f ∈ chunkFailures true cs outcome, f.kind ≠ .combined := by
    intro f hf
    obtain ⟨entry, hentry, hright⟩ := List.mem_filterMap.1 hf
    rw [Sum.getRight?_eq_some_iff] at hright
    exact hchunks (.inr f) (hright ▸ hentry)
  obtain ⟨artifacts, failures, hcorpus, hartifacts, hfailures⟩ := h.hentries
  cases hcorpus with
  | noSummary _ _ hdocument =>
    refine ⟨fun a ha => hchunkArtifacts a (by simpa [hartifacts] using ha), ?_⟩
    intro f hf
    rw [hfailures, List.mem_append, List.mem_singleton] at hf
    rcases hf with hf | rfl
    · exact hchunkFailures f hf
    · simp [noSummaries]
  | summaryFailed failure _ _ hdocument =>
    refine ⟨fun a ha => hchunkArtifacts a (by simpa [hartifacts] using ha), ?_⟩
    intro f hf
    rw [hfailures, List.mem_append, List.mem_singleton] at hf
    rcases hf with hf | rfl
    · exact hchunkFailures f hf
    · simp
  | documentFailed text f hsome hsummary hdocument => exact absurd hsummary (hnone text)
  | documented text document hsome hsummary hdocument => exact absurd hsummary (hnone text)

/-! ## Every hierarchical run -/

section Start

variable {options : SynthesisOptions} {cs : List Chunk} {stores : ContextStores}

/-- The summary of all summaries is asked for when the plan has ended, from all of its summaries. -/
theorem summary_call_of_start (hhierarchical : options.hierarchical = true) {e : Event}
    {c : Nat × Job} (h : (start options cs stores).after? es = some r) (hstep : Step r e r')
    (hcall : r'.calls = r.calls ++ [c]) (hkind : c.2.kind = .combinedSummary) :
    c.1 = r.planned ∧ ∃ outcome, EndedAs true cs outcome r ∧ Summarized cs outcome ∧
      c.2.prompt = Prompt.combinedSummary (textsAt cs outcome .summary) := by
  have hstage := stage_of_start h
  have hplanned := (frame_of_start h).2
  rw [hhierarchical] at hstage hplanned
  obtain ⟨ended, hred, hsettled, rfl⟩ := hstage.of_pending_summary (hstep.pending_of_call hcall)
    (fun job hjob hk => (not_mem_chunkKinds true).1 (hk ▸ kind_of_mem_jobs hjob)) hkind
  have hall : r.settled = ended ++ [] := by rw [hsettled, List.append_nil]
  obtain ⟨outcome, hended, hsome, htexts⟩ := hred.exists_texts hstage.nodup_settled hall
  refine ⟨hplanned.symm, outcome, hended, hsome, ?_⟩
  rw [← htexts .summary (mem_chunkKinds.2 (Or.inr ⟨rfl, rfl⟩))]
  rfl

/-- The document of all documents is asked for when there is the summary of all summaries, from it
    and all documents. -/
theorem document_call_of_start (hhierarchical : options.hierarchical = true) {e : Event}
    {c : Nat × Job} (h : (start options cs stores).after? es = some r) (hstep : Step r e r')
    (hcall : r'.calls = r.calls ++ [c]) (hkind : c.2.kind = .combined) :
    c.1 = r.planned + 1 ∧ ∃ outcome text, EndedAs true cs outcome r ∧
      r.outcome? r.planned = some (.ok text) ∧
      c.2.prompt = Prompt.combined text (textsAt cs outcome .detailed) := by
  have hstage := stage_of_start h
  have hplanned := (frame_of_start h).2
  rw [hhierarchical] at hstage hplanned
  obtain ⟨ended, s, highLevel, hred, hnumber, hhigh, hsettled, rfl⟩ :=
    hstage.of_pending_document (hstep.pending_of_call hcall)
      (fun job hjob hk => (not_mem_chunkKinds true).2 (hk ▸ kind_of_mem_jobs hjob)) hkind
  obtain ⟨outcome, hended, -, htexts⟩ := hred.exists_texts hstage.nodup_settled hsettled
  refine ⟨by rw [hplanned], outcome, highLevel, hended, ?_, ?_⟩
  · rw [hplanned, ← hnumber, ← hhigh]
    exact outcome?_number hstage.nodup_settled (by simp [hsettled])
  · rw [← htexts .detailed (mem_chunkKinds.2 (Or.inl rfl))]
    rfl

/-- In a complete run that was not cancelled, the calls about the corpus are those that its outcomes
    ask for. -/
theorem corpus_calls_of_start (h : (start options cs stores).after? es = some r)
    (hdone : r.isComplete = true) (hlive : r.cancelled = false)
    {outcome : Nat → ArtifactKind → Outcome} (haccounts : Accounts true cs outcome r) :
    ((∃ c ∈ r.calls, c.2.kind = .combinedSummary) ↔ Summarized cs outcome) ∧
      ((∃ c ∈ r.calls, c.2.kind = .combined) ↔ ∃ text, r.outcome? r.planned = some (.ok text)) := by
  have hcalled : ∀ number, (∃ c ∈ r.calls, c.1 = number) ↔ ∃ o, r.outcome? number = some o :=
    fun _ => (history_of_start h).called_iff (stage_of_start h) hdone hlive
  -- the kind of a call about the corpus is settled by its number, and that by the outcome
  constructor
  · rw [← haccounts.outcome_summary_iff, ← hcalled]
    exact exists_congr fun c => and_congr_right fun hc => (kind_iff_of_call h hc).1
  · rw [← haccounts.outcome_document_iff, ← hcalled]
    exact exists_congr fun c => and_congr_right fun hc => (kind_iff_of_call h hc).2

/-- **The corpus is asked about after all chunks, and about what they gave.** In every hierarchical
    run a call for the summary of all summaries comes when all requests about chunks have ended and
    holds their summaries; a call for the document of all documents comes when that summary was
    given and holds it with all documents. Without a cancellation both are made as soon as there is
    something to ask about, and without the summary of all summaries the document is not
    mentioned. -/
theorem reduction_follows_chunks (options : SynthesisOptions) (cs : List Chunk)
    (stores : ContextStores) (hhierarchical : options.hierarchical = true) :
    (∀ es e r r' c, (start options cs stores).after? es = some r → r.next? e = some r' →
      r'.calls = r.calls ++ [c] →
      (c.2.kind = .combinedSummary → c.1 = r.planned ∧
        ∃ outcome, EndedAs true cs outcome r ∧ Summarized cs outcome ∧
          c.2.prompt = Prompt.combinedSummary (textsAt cs outcome .summary)) ∧
      (c.2.kind = .combined → c.1 = r.planned + 1 ∧
        ∃ outcome text, EndedAs true cs outcome r ∧ r.outcome? r.planned = some (.ok text) ∧
          c.2.prompt = Prompt.combined text (textsAt cs outcome .detailed))) ∧
    ∀ es r, (start options cs stores).after? es = some r → r.isComplete = true →
      ∃ outcome, Accounts true cs outcome r ∧
        (r.cancelled = false →
          ((∃ c ∈ r.calls, c.2.kind = .combinedSummary) ↔ Summarized cs outcome) ∧
          ((∃ c ∈ r.calls, c.2.kind = .combined) ↔
            ∃ text, r.outcome? r.planned = some (.ok text))) ∧
        ((∀ text, r.outcome? r.planned ≠ some (.ok text)) →
          (∀ c ∈ r.calls, c.2.kind ≠ .combined) ∧ (∀ a ∈ r.artifacts, a.kind ≠ .combined) ∧
            ∀ f ∈ r.failures, f.kind ≠ .combined) := by
  constructor
  · intro es e r r' c h hnext hcall
    have hstep := Step.of_next? hnext
    exact ⟨summary_call_of_start hhierarchical h hstep hcall,
      document_call_of_start hhierarchical h hstep hcall⟩
  · intro es r h hdone
    obtain ⟨outcome, haccounts⟩ := accounts_of_start h hdone
    rw [hhierarchical] at haccounts
    exact ⟨outcome, haccounts, fun hlive => corpus_calls_of_start h hdone hlive haccounts,
      fun hnone => ⟨no_document_call h hdone haccounts hnone, haccounts.no_document hnone⟩⟩

/-- Twins are reduced to one document, from the only document and both summaries that were given. -/
theorem twin_chunks_reduced :
    pairOptions.hierarchical = true ∧
      (∃ r r' c, (start pairOptions twinChunks {}).after? (twinEvents ++ [.reduce, .begin]) = some r ∧
        r.next? (.resume 4) = some r' ∧ r'.calls = r.calls ++ [c] ∧
        c.2.kind = .combinedSummary ∧ ∃ outcome, EndedAs true twinChunks outcome r ∧
          c.2.prompt = Prompt.combinedSummary (textsAt twinChunks outcome .summary)) ∧
      ∃ r, (start pairOptions twinChunks {}).after? (twinEvents ++ [.reduce, .begin, .resume 4,
          .reply 4 (.ok "all"), .reduce, .begin, .resume 5, .reply 5 (.ok "done")]) = some r ∧
        r.isComplete = true ∧ r.cancelled = false ∧
        ∃ c ∈ r.calls, c.2.kind = .combined := by
  have hreduction := reduction_follows_chunks pairOptions twinChunks {} rfl
  refine ⟨rfl, ?_, ?_⟩
  · obtain ⟨r, hr, r', hr', c, hcall, hkind⟩ : ∃ r,
        (start pairOptions twinChunks {}).after? (twinEvents ++ [.reduce, .begin]) = some r ∧
        ∃ r', r.next? (.resume 4) = some r' ∧
        ∃ c, r'.calls = r.calls ++ [c] ∧ c.2.kind = .combinedSummary := by
      exact ⟨_,
        after?_append_reduce rfl rfl rfl rfl rfl (List.mem_of_getElem? (i := 0) rfl) rfl rfl rfl,
        _, rfl, _, rfl, rfl⟩
    obtain ⟨-, outcome, hended, -, hprompt⟩ := (hreduction.1 _ _ r r' c hr hr' hcall).1 hkind
    exact ⟨r, r', c, hr, hr', hcall, hkind, outcome, hended, hprompt⟩
  · obtain ⟨r, hr, hdone, hlive, htext⟩ : ∃ r,
        (start pairOptions twinChunks {}).after? (twinEvents ++ [.reduce, .begin, .resume 4,
          .reply 4 (.ok "all"), .reduce, .begin, .resume 5, .reply 5 (.ok "done")]) = some r ∧
        r.isComplete = true ∧ r.cancelled = false ∧
        r.outcome? r.planned = some (.ok "all") := by
      exact ⟨_,
        after?_append_reduce rfl rfl rfl rfl rfl (List.mem_of_getElem? (i := 0) rfl) rfl rfl rfl,
        rfl, rfl, rfl⟩
    obtain ⟨outcome, -, hcalls, -⟩ := hreduction.2 _ r hr hdone
    exact ⟨r, hr, hdone, hlive, (hcalls hlive).2.2 ⟨_, htext⟩⟩

end Start

end Run

end SourceDocs
