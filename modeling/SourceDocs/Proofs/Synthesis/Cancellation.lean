import SourceDocs.Proofs.Synthesis.Output

set_option autoImplicit false

/-! # Cancellation: what becomes of every request

Once a run is cancelled no call starts any more, so the calls of a request are those it had made by
then, and its replies are the ones before the cancellation and at most one after it, to the call
that was under way. With the history of the run that settles how each request ends (`Fate`). -/

namespace SourceDocs

namespace Run

/-- The phase of the request with a number, if it is active. -/
def phase? (r : Run) (number : Nat) : Option Phase := (r.find? number).map ActiveJob.phase

/-- How a request of a run `r` ends that is cancelled when `later` is what comes after it. -/
inductive Fate (r : Run) (later : List Event) (number : Nat) : Outcome → Prop where
  | ended (o : Outcome) (houtcome : r.outcome? number = some o) : Fate r later number o
  | unstarted (hphase : r.phase? number = none) (houtcome : r.outcome? number = none) :
      Fate r later number (.error ⟨.cancelled, 0⟩)
  | waiting (hphase : r.phase? number = some (.waiting (r.callCount number))) :
      Fate r later number (.error ⟨.cancelled, r.callCount number⟩)
  | succeeded (text : String)
      (hphase : r.phase? number = some (.calling (r.callCount number)))
      (hreply : repliesTo number later = [.ok text]) : Fate r later number (.ok text)
  | failed (e : GenerationError)
      (hphase : r.phase? number = some (.calling (r.callCount number)))
      (hreply : repliesTo number later = [.error e])
      (hstop : r.options.policy.goesOn (r.callCount number) e = false) :
      Fate r later number (.error ⟨e, r.callCount number⟩)
  | dropped (e : GenerationError)
      (hphase : r.phase? number = some (.calling (r.callCount number)))
      (hreply : repliesTo number later = [.error e])
      (hgo : r.options.policy.goesOn (r.callCount number) e = true) :
      Fate r later number (.error ⟨.cancelled, r.callCount number⟩)

/-! ## No call starts in a cancelled run -/

variable {plan : List Job} {r r' : Run} {es later : List Event}

theorem Step.calls_of_cancelled {e : Event} (h : Step r e r') (hcancelled : r.cancelled = true) :
    r'.calls = r.calls ∧ r'.cancelled = true := by
  cases h with
  | call _ _ hlive => simp [hlive] at hcancelled
  | cancel => exact ⟨rfl, rfl⟩
  | begin _ _ => exact ⟨rfl, hcancelled⟩
  | giveUp _ _ _ => exact ⟨rfl, hcancelled⟩
  | succeed _ _ => exact ⟨rfl, hcancelled⟩
  | retry _ _ _ => exact ⟨rfl, hcancelled⟩
  | fail _ _ _ => exact ⟨rfl, hcancelled⟩
  | reduce _ _ _ => exact ⟨rfl, hcancelled⟩

theorem calls_of_cancelled (hcancelled : r.cancelled = true) (h : r.after? es = some r') :
    r'.calls = r.calls ∧ r'.cancelled = true := by
  refine after?_induction (P := fun _ s => s.calls = r.calls ∧ s.cancelled = true)
    ⟨rfl, hcancelled⟩ ?_ h
  intro _ _ s s' _ hs hstep
  exact ⟨(hstep.calls_of_cancelled hs.2).1.trans hs.1, (hstep.calls_of_cancelled hs.2).2⟩

/-! ## Ended requests stay as they are -/

theorem Step.settled_mono {e : Event} (h : Step r e r') : r.settled <+: r'.settled := by
  cases h with
  | begin _ _ => exact List.prefix_rfl
  | call _ _ _ => exact List.prefix_rfl
  | giveUp _ _ _ => exact List.prefix_append _ _
  | succeed _ _ => exact List.prefix_append _ _
  | retry _ _ _ => exact List.prefix_rfl
  | fail _ _ _ => exact List.prefix_append _ _
  | cancel => exact List.prefix_rfl
  | reduce _ _ _ => exact List.prefix_rfl

theorem settled_mono (h : r.after? es = some r') : r.settled <+: r'.settled := by
  refine after?_induction (P := fun _ s => r.settled <+: s.settled) List.prefix_rfl ?_ h
  intro _ _ s s' _ hs hstep
  exact hs.trans hstep.settled_mono

/-- An outcome is never revised. -/
theorem outcome?_of_after? {number : Nat} {o : Outcome} (h : r.after? es = some r')
    (ho : r.outcome? number = some o) : r'.outcome? number = some o := by
  obtain ⟨s, hs, rfl⟩ := Option.map_eq_some_iff.1 ho
  exact Option.map_eq_some_iff.2 ⟨s, (settled_mono h).find?_eq_some hs, rfl⟩

/-! ## The fate of a request -/

theorem not_mem_of_find?_eq_none {number : Nat} (h : r.find? number = none) :
    number ∉ r.active.map ActiveJob.number := by
  rw [find?, List.find?_eq_none] at h
  simpa using h

theorem not_mem_of_outcome?_eq_none {number : Nat} (h : r.outcome? number = none) :
    number ∉ r.settled.map SettledJob.number := by
  rw [outcome?, Option.map_eq_none_iff, List.find?_eq_none] at h
  simpa using h

/-- A request that ended without a call has given up at once. -/
theorem History.outcome_of_no_call {number : Nat} {o : Outcome} (h : History r es)
    (ho : r.outcome? number = some o) (hcalls : r.callCount number = 0) :
    o = .error ⟨.cancelled, 0⟩ := by
  obtain ⟨s, hs, rfl, rfl⟩ := mem_settled_of_outcome? ho
  obtain ⟨hcount, hconcluded⟩ := h.hsettled s hs
  have hnone : repliesTo s.number es = [] := List.eq_nil_of_length_eq_zero (hcount ▸ hcalls)
  rw [hnone] at hconcluded
  exact (hconcluded.of_tried tried_nil).1

/-- **The fate of every request of a cancelled run**, by its history up to the cancellation and
    until the end. -/
theorem fate_of_history {number : Nat} {o : Outcome} (h : History r es)
    (h' : History r' (es ++ .cancel :: later)) (hoptions : r'.options = r.options)
    (hcalls : r'.calls = r.calls)
    (hkept : ∀ o, r.outcome? number = some o → r'.outcome? number = some o)
    (ho : r'.outcome? number = some o) : Fate r later number o := by
  obtain ⟨s, hs, rfl, rfl⟩ := mem_settled_of_outcome? ho
  obtain ⟨hcount, hconcluded⟩ := h'.hsettled s hs
  have hsame : r'.callCount s.number = r.callCount s.number := by
    unfold callCount
    rw [hcalls]
  have hreplies : repliesTo s.number (es ++ .cancel :: later) =
      repliesTo s.number es ++ repliesTo s.number later := repliesTo_append _ _ _
  rw [hoptions, hreplies] at hconcluded
  rw [hsame, hreplies, List.length_append] at hcount
  cases hfind : r.find? s.number with
  | none =>
    cases hout : r.outcome? s.number with
    | some o =>
      obtain rfl := Option.some.inj ((hkept o hout).symm.trans ho)
      exact .ended _ hout
    | none =>
      obtain ⟨hzero, -⟩ := h.hfresh s.number (not_mem_of_find?_eq_none hfind)
        (not_mem_of_outcome?_eq_none hout)
      rw [h'.outcome_of_no_call ho (hsame.trans hzero)]
      exact .unstarted (by rw [phase?, hfind]; rfl) hout
  | some a =>
    cases hphase : a.phase with
    | waiting attempts =>
      obtain ⟨hattempts, hlength, htried⟩ := h.of_waiting hfind hphase
      have hnone : repliesTo s.number later = [] := List.eq_nil_of_length_eq_zero (by omega)
      rw [hnone, List.append_nil] at hconcluded
      rw [(hconcluded.of_tried htried).1, hlength, ← hattempts]
      exact .waiting (by rw [phase?, hfind, Option.map_some, hphase, hattempts])
    | calling attempts =>
      obtain ⟨hattempts, hlength, htried⟩ := h.of_calling hfind hphase
      have hcalling : r.phase? s.number = some (.calling (r.callCount s.number)) := by
        rw [phase?, hfind, Option.map_some, hphase, hattempts]
      have hmade : (repliesTo s.number es).length + 1 = r.callCount s.number := by omega
      -- every other call has been answered before, so the reply to this one is the only one later
      obtain ⟨reply, hreply⟩ : ∃ reply, repliesTo s.number later = [reply] :=
        List.length_eq_one_iff.1 (by omega)
      rw [hreply] at hconcluded
      rcases hconcluded.of_reply htried with ⟨text, rfl, ho⟩ | ⟨e, rfl, hstop, ho⟩ | ⟨e, rfl, hgo, ho⟩
      · rw [ho]
        exact .succeeded text hcalling hreply
      · rw [hmade] at hstop ho
        rw [ho]
        exact .failed e hcalling hreply hstop
      · rw [hmade] at hgo ho
        rw [ho]
        exact .dropped e hcalling hreply hgo

/-! ## Every cancelled run -/

theorem History.place_of_call (h : History r es) (hstage : Stage plan r) {c : Nat × Job}
    (hc : c ∈ r.calls) :
    (c.1 < plan.length ∧ c.2 ∈ plan) ∨ (c.1 = plan.length ∧ c.2.kind = .combinedSummary) ∨
      (c.1 = plan.length + 1 ∧ c.2.kind = .combined) :=
  hstage.place_of_entry (mem_entries_of_started (h.started_of_call hc))

/-- A request that no call was made for has no calls. -/
theorem callCount_eq_zero {number : Nat} (h : ∀ c ∈ r.calls, c.1 ≠ number) :
    r.callCount number = 0 :=
  List.countP_eq_zero.2 fun c hc => by simpa using h c hc

/-- In a complete run, what was called has ended. -/
theorem History.outcome_of_call (h : History r es) (hstage : Stage plan r)
    (hdone : r.isComplete = true) {c : Nat × Job} (hc : c ∈ r.calls) :
    ∃ o, r.outcome? c.1 = some o := by
  simp only [isComplete, Bool.and_eq_true, List.isEmpty_iff] at hdone
  rcases h.hcalls c hc with hactive | hsettled
  · simp [hdone.1.2] at hactive
  · obtain ⟨s, hs, rfl⟩ := List.mem_map.1 hsettled
    exact ⟨s.outcome, outcome?_number hstage.nodup_settled hs⟩

/-- The document of all documents is asked for if there is the summary of all summaries. -/
theorem Accounts.outcome_document_iff {cs : List Chunk} {outcome : Nat → ArtifactKind → Outcome}
    (h : Accounts true cs outcome r) :
    (∃ o, r.outcome? (r.planned + 1) = some o) ↔ ∃ text, r.outcome? r.planned = some (.ok text) := by
  obtain ⟨artifacts, failures, hcorpus, -, -⟩ := h.hentries
  cases hcorpus with
  | noSummary _ hsummary hdocument => simp [hsummary, hdocument]
  | summaryFailed f _ hsummary hdocument => simp [hsummary, hdocument]
  | documentFailed text f _ hsummary hdocument => simp [hsummary, hdocument]
  | documented text document _ hsummary hdocument => simp [hsummary, hdocument]

section Start

variable {options : SynthesisOptions} {cs : List Chunk} {stores : ContextStores}
  {outcome : Nat → ArtifactKind → Outcome}

/-- The calls about the corpus are those that are numbered after the plan. -/
theorem kind_iff_of_call (h : (start options cs stores).after? es = some r) {c : Nat × Job}
    (hc : c ∈ r.calls) :
    (c.2.kind = .combinedSummary ↔ c.1 = r.planned) ∧
      (c.2.kind = .combined ↔ c.1 = r.planned + 1) := by
  have hplanned := (frame_of_start h).2
  rcases (history_of_start h).place_of_call (stage_of_start h) hc with
    ⟨hlt, hjob⟩ | ⟨hnumber, hkind⟩ | ⟨hnumber, hkind⟩
  · have hkinds := kind_of_mem_jobs hjob
    have hnot := not_mem_chunkKinds options.hierarchical
    exact ⟨iff_of_false (fun hk => hnot.1 (hk ▸ hkinds)) (by omega),
      iff_of_false (fun hk => hnot.2 (hk ▸ hkinds)) (by omega)⟩
  · exact ⟨iff_of_true hkind (by omega), iff_of_false (by simp [hkind]) (by omega)⟩
  · exact ⟨iff_of_false (by simp [hkind]) (by omega), iff_of_true hkind (by omega)⟩

/-- Without the summary of all summaries, the document of all documents is not asked for. -/
theorem no_document_call (h : (start options cs stores).after? es = some r)
    (hdone : r.isComplete = true) (haccounts : Accounts true cs outcome r)
    (hnone : ∀ text, r.outcome? r.planned ≠ some (.ok text)) :
    ∀ c ∈ r.calls, c.2.kind ≠ .combined := by
  intro c hc hkind
  have ho := (history_of_start h).outcome_of_call (stage_of_start h) hdone hc
  rw [(kind_iff_of_call h hc).2.1 hkind] at ho
  obtain ⟨text, htext⟩ := haccounts.outcome_document_iff.1 ho
  exact hnone text htext

/-- If no call for the summary of all summaries was made, no other about the corpus was made, and a
    complete run says so. -/
theorem failures_without_summary_call (h : (start options cs stores).after? es = some r)
    (hdone : r.isComplete = true) (haccounts : Accounts true cs outcome r)
    (hcalls : ∀ c ∈ r.calls, c.2.kind ≠ .combinedSummary) :
    (∀ c ∈ r.calls, c.2.kind ≠ .combined) ∧ r.artifacts = chunkArtifacts true cs outcome ∧
      (Summarized cs outcome → r.failures = chunkFailures true cs outcome ++
        [{ kind := .combinedSummary, attempts := 0, cause := "cancelled" }]) ∧
      (¬ Summarized cs outcome → r.failures = chunkFailures true cs outcome ++
        [{ kind := .combinedSummary, attempts := 0, cause := "no chunk summaries available" }]) := by
  have hnone : ∀ o, r.outcome? r.planned = some o → o = .error ⟨.cancelled, 0⟩ := by
    intro o ho
    refine (history_of_start h).outcome_of_no_call ho (callCount_eq_zero fun c hc hn => ?_)
    exact hcalls c hc ((kind_iff_of_call h hc).1.2 hn)
  have hfailed : ∀ text, r.outcome? r.planned ≠ some (.ok text) := by
    intro text htext
    cases hnone _ htext
  refine ⟨no_document_call h hdone haccounts hfailed, ?_⟩
  obtain ⟨artifacts, failures, hcorpus, hartifacts, hfailures⟩ := haccounts.hentries
  cases hcorpus with
  | noSummary hnone _ _ =>
    refine ⟨by simpa using hartifacts, fun hsome => absurd hsome hnone, fun _ => ?_⟩
    exact hfailures
  | summaryFailed f hsome hsummary _ =>
    cases hnone _ hsummary
    refine ⟨by simpa using hartifacts, fun _ => ?_, fun hnone => absurd hsome hnone⟩
    exact hfailures
  | documentFailed text f hsome hsummary hdocument => cases hnone _ hsummary
  | documented text document hsome hsummary hdocument => cases hnone _ hsummary

/-- If the summary of all summaries was given and no call for the document of all documents was
    made, a complete run says so about the corpus. -/
theorem failures_without_document_call (h : (start options cs stores).after? es = some r)
    (haccounts : Accounts true cs outcome r) (hcalls : ∀ c ∈ r.calls, c.2.kind ≠ .combined)
    {text : String} (htext : r.outcome? r.planned = some (.ok text)) :
    r.artifacts = chunkArtifacts true cs outcome ++ [{ kind := .combinedSummary, text }] ∧
      r.failures = chunkFailures true cs outcome ++
        [{ kind := .combined, attempts := 0, cause := "cancelled" }] := by
  have hnone : ∀ o, r.outcome? (r.planned + 1) = some o → o = .error ⟨.cancelled, 0⟩ := by
    intro o ho
    refine (history_of_start h).outcome_of_no_call ho (callCount_eq_zero fun c hc hn => ?_)
    exact hcalls c hc ((kind_iff_of_call h hc).2.2 hn)
  obtain ⟨artifacts, failures, hcorpus, hartifacts, hfailures⟩ := haccounts.hentries
  cases hcorpus with
  | noSummary _ hsummary _ =>
    rw [htext] at hsummary
    cases hsummary
  | summaryFailed f hsome hsummary _ =>
    rw [htext] at hsummary
    cases hsummary
  | documentFailed text f hsome hsummary hdocument =>
    rw [htext] at hsummary
    cases hsummary
    cases hnone _ hdocument
    exact ⟨hartifacts, hfailures⟩
  | documented text document hsome hsummary hdocument => cases hnone _ hdocument

/-- **Cancellation is safe in every run**, at whatever moment it comes. No call starts after it, and
    the run still comes to an end with every request accounted for. How each request ends follows
    from where it stood; what has not been called by then, on the chunks or on the corpus, is
    cancelled without an attempt. -/
theorem cancelled_run_settles (options : SynthesisOptions) (cs : List Chunk)
    (stores : ContextStores) (hmax : 1 ≤ options.maxConcurrency) :
    Terminates (start options cs stores) (start options cs stores).potential ∧
      ∀ es later r r', (start options cs stores).after? es = some r →
        r.after? (.cancel :: later) = some r' →
        r'.calls = r.calls ∧
          (r'.isComplete = true →
            (∀ number o, r'.outcome? number = some o → Fate r later number o) ∧
              ∃ outcome, Accounts options.hierarchical cs outcome r' ∧
                (options.hierarchical = true → (∀ c ∈ r.calls, c.2.kind ≠ .combinedSummary) →
                  (∀ c ∈ r'.calls, c.2.kind ≠ .combined) ∧
                  r'.artifacts = chunkArtifacts true cs outcome ∧
                  (Summarized cs outcome → r'.failures = chunkFailures true cs outcome ++
                    [{ kind := .combinedSummary, attempts := 0, cause := "cancelled" }]) ∧
                  (¬ Summarized cs outcome → r'.failures = chunkFailures true cs outcome ++
                    [{ kind := .combinedSummary, attempts := 0
                       cause := "no chunk summaries available" }])) ∧
                (options.hierarchical = true → (∀ c ∈ r.calls, c.2.kind ≠ .combined) →
                  ∀ text, r'.outcome? r'.planned = some (.ok text) →
                  r'.artifacts =
                    chunkArtifacts true cs outcome ++ [{ kind := .combinedSummary, text }] ∧
                  r'.failures = chunkFailures true cs outcome ++
                    [{ kind := .combined, attempts := 0, cause := "cancelled" }])) := by
  refine ⟨terminates_start hmax, fun es later r r' h h' => ?_⟩
  have hall : (start options cs stores).after? (es ++ .cancel :: later) = some r' :=
    after?_append_eq_some.2 ⟨r, h, h'⟩
  have hcalls : r'.calls = r.calls := by
    obtain ⟨s, hs, hlater⟩ := after?_cons_eq_some.1 h'
    cases hs
    exact (calls_of_cancelled rfl hlater).1
  refine ⟨hcalls, fun hdone => ⟨fun number o ho => ?_, ?_⟩⟩
  · exact fate_of_history (history_of_start h) (history_of_start hall) (after?_frame h').1 hcalls
      (fun o => outcome?_of_after? h') ho
  · obtain ⟨outcome, haccounts⟩ := accounts_of_start hall hdone
    refine ⟨outcome, haccounts, ?_, ?_⟩
    · intro hhierarchical hnone
      rw [hhierarchical] at haccounts
      exact failures_without_summary_call hall hdone haccounts (hcalls ▸ hnone)
    · intro hhierarchical hnone text htext
      rw [hhierarchical] at haccounts
      exact failures_without_document_call hall haccounts (hcalls ▸ hnone) htext

/-- A cancellation that finds one request in a backoff, one ended, one called and one queued. -/
theorem cancelled_midway :
    1 ≤ pairOptions.maxConcurrency ∧
      ∃ r r', (start pairOptions twinChunks {}).after?
          [.begin, .begin, .resume 0, .resume 1, .reply 1 (.ok "s"), .begin, .resume 2,
            .reply 0 (.error (.transport "reset"))] = some r ∧
        r.after? (.cancel :: ([.resume 0, .begin, .reply 2 (.ok "d"), .resume 3] ++
          [.reduce, .begin, .resume 4])) = some r' ∧
        r'.isComplete = true ∧ r'.calls = r.calls ∧
        ∃ outcome, Accounts true twinChunks outcome r' := by
  have hmax : 1 ≤ pairOptions.maxConcurrency := by decide
  obtain ⟨r, hr, r', hr', hdone⟩ : ∃ r, (start pairOptions twinChunks {}).after?
      [.begin, .begin, .resume 0, .resume 1, .reply 1 (.ok "s"), .begin, .resume 2,
        .reply 0 (.error (.transport "reset"))] = some r ∧
      ∃ r', r.after? (.cancel :: ([.resume 0, .begin, .reply 2 (.ok "d"), .resume 3] ++
          [.reduce, .begin, .resume 4])) = some r' ∧ r'.isComplete = true := by
    exact ⟨_, rfl, _, after?_cons_eq_some.2 ⟨_, .cancel, after?_append_reduce rfl rfl rfl rfl rfl
      (List.mem_of_getElem? (i := 0) rfl) rfl rfl rfl⟩, rfl⟩
  have hsettles := (cancelled_run_settles pairOptions twinChunks {} hmax).2 _ _ r r' hr hr'
  obtain ⟨-, outcome, haccounts, -⟩ := hsettles.2 hdone
  exact ⟨hmax, r, r', hr, hr', hdone, hsettles.1, outcome, haccounts⟩

end Start

end Run

end SourceDocs
