import SourceDocs.Proofs.Synthesis.Prompts
import SourceDocs.Proofs.Synthesis.Sequential

set_option autoImplicit false

/-! # Schedules: the result of a run does not depend on them

`AnsweredBy` says that a generator answers the k-th call with a prompt always alike. If all chunks
ask for their documentation in different words, all requests of a run do (`Stage.nodup_prompts`), so
the k-th call with a prompt is the k-th call of a request, whatever calls others make in between.
Its replies are then the answers to its prompt, which end it as they do in the sequential
program. -/

namespace SourceDocs

namespace Run

/-- Every reply is what `g` answers to its call: the last one of its request, counted among the
    calls with the same prompt. -/
def AnsweredBy (g : Answers) (r : Run) (es : List Event) : Prop :=
  ∀ before number reply later s earlier job rest,
    es = before ++ .reply number reply :: later → r.after? before = some s →
    s.calls = earlier ++ (number, job) :: rest → (∀ c ∈ rest, c.1 ≠ number) →
    reply = g job.prompt (earlier.countP (fun c => c.2.prompt = job.prompt) + 1)

/-- Every reply is the answer to the prompt of its request that is next. -/
def AnsweredNext (g : Answers) (r : Run) (es : List Event) : Prop :=
  ∀ before number reply later s, es = before ++ .reply number reply :: later →
    r.after? before = some s → ∀ x ∈ s.started, x.1 = number →
      reply = g x.2.prompt ((repliesTo number before).length + 1)

/-- The replies to every request are the answers to its prompt, in order. -/
def Replied (g : Answers) (r : Run) (es : List Event) : Prop :=
  ∀ x ∈ r.started, repliesTo x.1 es =
    (List.range (repliesTo x.1 es).length).map fun i => g x.2.prompt (i + 1)

variable {g : Answers} {r r' : Run} {es : List Event}

theorem AnsweredNext.of_append {fs : List Event} (h : AnsweredNext g r (es ++ fs)) :
    AnsweredNext g r es := by
  intro before number reply later s hes
  refine h before number reply (later ++ fs) s ?_
  rw [hes, List.append_assoc, List.cons_append]

theorem live_of_after? (hlive : r.cancelled = false) (hes : ∀ e ∈ es, e.isCancel = false)
    (h : r.after? es = some r') : r'.cancelled = false := by
  refine after?_induction (P := fun es s => (∀ e ∈ es, e.isCancel = false) → s.cancelled = false)
    (fun _ => hlive) ?_ h hes
  intro es e s s' _ ih hstep hes
  rw [hstep.cancelled_eq (hes e (by simp))]
  exact ih fun f hf => hes f (List.mem_append_left _ hf)

/-! ## Prompts stand for requests -/

section Prompts

variable {hierarchical : Bool} {cs : List Chunk} {stores : ContextStores}

/-- Started requests are told apart by their numbers. -/
theorem Stage.eq_of_number {plan : List Job} (h : Stage plan r) {x y : Nat × Job}
    (hx : x ∈ r.started) (hy : y ∈ r.started) (hxy : x.1 = y.1) : x = y :=
  List.inj_on_of_nodup_map h.nodup (mem_entries_of_started hx) (mem_entries_of_started hy) hxy

/-- Started requests are told apart by their prompts. -/
theorem Stage.prompt_iff_number (h : Stage (jobs hierarchical cs stores) r)
    (hprompts : (cs.map fun c => Prompt.detailed c (stores.contextOf c)).Nodup) {x y : Nat × Job}
    (hx : x ∈ r.started) (hy : y ∈ r.started) : x.2.prompt = y.2.prompt ↔ x.1 = y.1 := by
  constructor
  · intro hxy
    rw [List.inj_on_of_nodup_map (h.nodup_prompts hprompts) (mem_entries_of_started hx)
      (mem_entries_of_started hy) hxy]
  · intro hxy
    rw [h.eq_of_number hx hy hxy]

/-- The calls with a prompt are those of its request. -/
theorem countP_prompt_eq (h : Stage (jobs hierarchical cs stores) r) (hhistory : History r es)
    (hprompts : (cs.map fun c => Prompt.detailed c (stores.contextOf c)).Nodup)
    {calls : List (Nat × Job)} (hcalls : ∀ c ∈ calls, c ∈ r.calls) {x : Nat × Job}
    (hx : x ∈ r.started) :
    calls.countP (fun c => c.2.prompt = x.2.prompt) = calls.countP (fun c => c.1 = x.1) := by
  refine List.countP_congr fun c hc => ?_
  have hiff := h.prompt_iff_number hprompts (hhistory.started_of_call (hcalls c hc)) hx
  simpa using hiff

theorem exists_last_call {calls : List (Nat × Job)} {number : Nat}
    (h : ∃ c ∈ calls, c.1 = number) :
    ∃ earlier job rest, calls = earlier ++ (number, job) :: rest ∧ ∀ c ∈ rest, c.1 ≠ number := by
  induction calls using List.reverseRecOn with
  | nil => simp at h
  | append_singleton calls c ih =>
    by_cases hc : c.1 = number
    · subst hc
      exact ⟨calls, c.2, [], rfl, by simp⟩
    · obtain ⟨d, hd, hnumber⟩ := h
      have hmem : d ∈ calls := by
        rcases List.mem_append.1 hd with hd | hd
        · exact hd
        · exact absurd (List.mem_singleton.1 hd ▸ hnumber) hc
      obtain ⟨earlier, job, rest, hcalls, hrest⟩ := ih ⟨d, hmem, hnumber⟩
      refine ⟨earlier, job, rest ++ [c], by rw [hcalls, List.append_assoc]; rfl, ?_⟩
      intro b hb
      rcases List.mem_append.1 hb with hb | hb
      · exact hrest b hb
      · rw [List.mem_singleton.1 hb]
        exact hc

end Prompts

/-! ## Steps keep the replies -/

/-- A request that has started after a step had started before it, or starts with it. -/
theorem Step.mem_started {e : Event} {x : Nat × Job} (h : Step r e r') (hx : x ∈ r'.started) :
    x ∈ r.started ∨ (e = .begin ∧ ∃ queued, r.queued = x :: queued) := by
  have hsettle : ∀ {a : ActiveJob} {o : Outcome}, a ∈ r.active → x ∈ (r.settle a o).started →
      x ∈ r.started := by
    intro a o ha hx
    rw [started, settle_settled, List.map_append, List.mem_append, List.mem_append] at hx
    rw [started, List.mem_append]
    rcases hx with hx | hx | hx
    · obtain ⟨b, hb, rfl⟩ := List.mem_map.1 hx
      exact Or.inl (List.mem_map_of_mem (List.mem_filter.1 hb).1)
    · exact Or.inr hx
    · rw [List.map_singleton, List.mem_singleton] at hx
      rw [hx]
      exact Or.inl (List.mem_map_of_mem ha)
  cases h with
  | @begin number job queued hqueued hroom =>
    rw [started, List.map_append, List.append_assoc, List.mem_append, List.mem_append] at hx
    rcases hx with hx | hx | hx
    · exact Or.inl (List.mem_append_left _ hx)
    · rw [List.map_singleton, List.mem_singleton] at hx
      exact Or.inr ⟨rfl, queued, by rw [hqueued, hx]; rfl⟩
    · exact Or.inl (List.mem_append_right _ hx)
  | @call number attempts a hfind hphase hlive =>
    refine Or.inl ?_
    rw [started, ← setPhase_active_map_entry r number (.calling (attempts + 1))]
    exact hx
  | giveUp hfind _ _ => exact Or.inl (hsettle (mem_active_of_find? hfind) hx)
  | succeed hfind _ => exact Or.inl (hsettle (mem_active_of_find? hfind) hx)
  | @retry number attempts a e hfind hphase hgo =>
    refine Or.inl ?_
    rw [started, ← setPhase_active_map_entry r number (.waiting attempts)]
    exact hx
  | fail hfind _ _ => exact Or.inl (hsettle (mem_active_of_find? hfind) hx)
  | cancel => exact Or.inl hx
  | reduce _ _ _ => exact Or.inl hx

theorem repliesTo_singleton (number : Nat) (e : Event) :
    repliesTo number [e] = [] ∨
      ∃ reply, e = .reply number reply ∧ repliesTo number [e] = [reply] := by
  cases e with
  | reply n reply =>
    by_cases hn : n = number
    · subst hn
      exact Or.inr ⟨reply, rfl, repliesTo_reply_self n reply⟩
    · exact Or.inl (repliesTo_reply_of_ne reply (Ne.symm hn))
  | begin => exact Or.inl rfl
  | resume n => exact Or.inl rfl
  | cancel => exact Or.inl rfl
  | reduce => exact Or.inl rfl

/-- A reply comes to a request under way, whose calls number one more than its replies. -/
theorem Step.callCount_of_reply {number : Nat} {reply : Reply} (h : Step r (.reply number reply) r')
    (hhistory : History r es) : r.callCount number = (repliesTo number es).length + 1 := by
  have hcalling : ∀ {a : ActiveJob} {attempts : Nat}, r.find? number = some a →
      a.phase = .calling attempts → r.callCount number = (repliesTo number es).length + 1 := by
    intro a attempts hfind hphase
    obtain ⟨hcount, hlength, -⟩ := hhistory.of_calling hfind hphase
    omega
  cases h with
  | succeed hfind hphase => exact hcalling hfind hphase
  | retry hfind hphase _ => exact hcalling hfind hphase
  | fail hfind hphase _ => exact hcalling hfind hphase

section Start

variable {options : SynthesisOptions} {cs : List Chunk} {stores : ContextStores}

/-- A reply is the answer to the prompt of its request that is next. -/
theorem reply_eq_of_start {number : Nat} {reply : Reply} {later : List Event}
    (hprompts : (cs.map fun c => Prompt.detailed c (stores.contextOf c)).Nodup)
    (h : (start options cs stores).after? es = some r) (hstep : Step r (.reply number reply) r')
    (hanswered : AnsweredBy g (start options cs stores) (es ++ .reply number reply :: later))
    {x : Nat × Job} (hx : x ∈ r.started) (hnumber : x.1 = number) :
    reply = g x.2.prompt ((repliesTo number es).length + 1) := by
  have hhistory := history_of_start h
  have hstage := stage_of_start h
  have hcount := hstep.callCount_of_reply hhistory
  obtain ⟨earlier, job, rest, hcalls, hrest⟩ :=
    exists_last_call (exists_call_of_callCount_pos (r := r) (n := number) (by omega))
  have hcall : (number, job) ∈ r.calls := by simp [hcalls]
  obtain rfl : x = (number, job) :=
    hstage.eq_of_number hx (hhistory.started_of_call hcall) hnumber
  -- its rank among the calls with the prompt is its rank among the calls of the request
  have hrank : earlier.countP (fun c => c.2.prompt = job.prompt) = (repliesTo number es).length := by
    have hearlier : ∀ c ∈ earlier, c ∈ r.calls := fun c hc => by simp [hcalls, hc]
    have hnone : rest.countP (fun c => c.1 = number) = 0 :=
      List.countP_eq_zero.2 fun c hc => by simpa using hrest c hc
    rw [countP_prompt_eq hstage hhistory hprompts hearlier hx]
    rw [callCount, hcalls, List.countP_append, List.countP_cons, hnone] at hcount
    simpa using hcount
  rw [← hrank]
  exact hanswered es number reply later r earlier job rest rfl h hcalls hrest

/-- Calls that are answered by their prompts are answered by those of their requests, if these have
    different prompts. -/
theorem AnsweredBy.next (hprompts : (cs.map fun c => Prompt.detailed c (stores.contextOf c)).Nodup)
    (h : (start options cs stores).after? es = some r)
    (hanswered : AnsweredBy g (start options cs stores) es) :
    AnsweredNext g (start options cs stores) es := by
  intro before number reply later s hes hs x hx hnumber
  rw [hes] at h hanswered
  obtain ⟨s', hs', hlater⟩ := after?_append_eq_some.1 h
  rw [hs, Option.some.injEq] at hs'
  subst hs'
  obtain ⟨t, hstep, -⟩ := after?_cons_eq_some.1 hlater
  exact reply_eq_of_start hprompts hs hstep hanswered hx hnumber

/-- **Requests are answered by their prompts**, in every order of events. -/
theorem replied_of_start (h : (start options cs stores).after? es = some r)
    (hanswered : AnsweredNext g (start options cs stores) es) : Replied g r es := by
  refine after?_induction (P := fun es s => AnsweredNext g (start options cs stores) es →
    Replied g s es) ?_ ?_ h hanswered
  · intro _ x hx
    simp [started, start] at hx
  · intro es e s s' hs ih hstep hanswered x hx
    have hreplied := ih hanswered.of_append
    rcases hstep.mem_started hx with hold | ⟨rfl, queued, hqueued⟩
    · rw [repliesTo_append]
      rcases repliesTo_singleton x.1 e with hnone | ⟨reply, rfl, hone⟩
      · rw [hnone, List.append_nil]
        exact hreplied x hold
      · rw [hone, List.length_append, List.length_singleton, range_answers_succ,
          ← hreplied x hold, hanswered es x.1 reply [] s rfl hs x hold rfl]
    · have hfresh := (stage_of_start hs).head_fresh hqueued
      obtain ⟨-, hnone⟩ := (history_of_start hs).hfresh x.1 hfresh.1 hfresh.2
      rw [repliesTo_append, hnone]
      rfl

/-- Every request of a run that is not cancelled ends as its prompt decides. -/
theorem ends_of_start (h : (start options cs stores).after? es = some r)
    (hes : ∀ e ∈ es, e.isCancel = false) (hanswered : AnsweredNext g (start options cs stores) es)
    {s : SettledJob} (hs : s ∈ r.settled) :
    Ends g options.policy s.job.prompt (r.callCount s.number) s.outcome := by
  obtain ⟨hcount, hconcluded⟩ := (history_of_start h).hsettled s hs
  have hstarted : s.entry ∈ r.started := List.mem_append_right _ (List.mem_map_of_mem hs)
  have hreplies := replied_of_start h hanswered s.entry hstarted
  rw [(frame_of_start h).1, live_of_after? rfl hes h] at hconcluded
  unfold Ends
  rw [hcount]
  exact hreplies ▸ hconcluded

/-! ## The same output -/

theorem Ended.map_job {plan : List Job} {ended : List SettledJob} (h : Ended plan ended)
    (hplan : InOrder plan) : (inPlanOrder ended).map SettledJob.job = plan := by
  have hentries := congrArg (List.map Prod.snd) (map_entry_inPlanOrder hplan h)
  rw [List.map_map, map_snd_numbered] at hentries
  exact hentries

end Start

section Output

variable {hierarchical : Bool} {cs : List Chunk} {stores : ContextStores} {p : RetryPolicy}
  {calls : String → Nat} {ends : String → Outcome}

/-- The program makes the requests of a plan as they ended in the run. -/
theorem run_plan_of_ended {ended corpus : List SettledJob} (latency : Nat → Nat)
    (hsolves : Solves g p calls ends) (hended : Ended (jobs hierarchical cs stores) ended)
    (hsettled : r.settled = ended ++ corpus)
    (hends : ∀ s ∈ r.settled, s.outcome = ends s.job.prompt)
    (hnodup : (r.settled.map fun s => s.job.prompt).Nodup) :
    ∃ later, (settleInTurn p (g.setting latency) (jobs hierarchical cs stores) 0 {}).run [] =
      pure ((outputOf (inPlanOrder ended), later), sentFor calls (jobs hierarchical cs stores)) := by
  rw [hsettled, List.map_append] at hnodup
  have hnodup' : ((inPlanOrder ended).map fun s => s.job.prompt).Nodup :=
    ((inPlanOrder_perm ended).map _).nodup_iff.2 hnodup.of_append_left
  have hends' : ∀ s ∈ inPlanOrder ended, s.outcome = ends s.job.prompt := fun s hs =>
    hends s (hsettled ▸ List.mem_append_left corpus (mem_inPlanOrder.1 hs))
  obtain ⟨later, hrun⟩ := run_settleInTurn latency [] 0 hsolves hends' hnodup'
    (fun _ _ => List.not_mem_nil)
  rw [hended.map_job (inOrder_jobs ..)] at hrun
  exact ⟨later, hrun⟩

/-- The prompt of a request about the corpus is new when the plan and those before it have ended. -/
theorem not_mem_sentFor (calls : String → Nat) (before : List SettledJob)
    {ended after : List SettledJob} {s : SettledJob}
    (hended : Ended (jobs hierarchical cs stores) ended)
    (hnodup : ((ended ++ (before ++ s :: after)).map fun s => s.job.prompt).Nodup) :
    s.job.prompt ∉ sentFor calls (jobs hierarchical cs stores) ++
      sentFor calls (before.map SettledJob.job) := by
  rw [← sentFor_append, ← hended.map_job (inOrder_jobs ..), ← List.map_append]
  intro hsent
  have hmem := mem_sentFor hsent
  rw [List.map_map] at hmem
  obtain ⟨t, ht, hprompt⟩ := List.mem_map.1 hmem
  rw [← List.append_assoc, List.map_append, List.nodup_append] at hnodup
  refine hnodup.2.2 _ (List.mem_map_of_mem ?_) _ (List.mem_map_of_mem List.mem_cons_self) hprompt
  rw [List.mem_append, mem_inPlanOrder] at ht
  exact List.mem_append.2 ht

theorem outputOf_ordered (h : (r.options.hierarchical && (r.textsOf .summary).isEmpty) = false) :
    outputOf r.ordered = { artifacts := r.artifacts, failures := r.failures } := by
  simp [outputOf, artifacts, failures, h]

/-- If the program makes the requests about the corpus as they ended in the run, it gives what the
    run gives. -/
theorem run_inTurn_of_reduced {ended corpus : List SettledJob}
    (latency : Nat → Nat) (hsolves : Solves g p calls ends)
    (hred : Reducing (jobs r.options.hierarchical cs stores) r ended)
    (hplanned : r.planned = (jobs r.options.hierarchical cs stores).length)
    (hsettled : r.settled = ended ++ corpus)
    (hkind : ∀ s ∈ corpus, s.job.kind ≠ .summary)
    (hends : ∀ s ∈ r.settled, s.outcome = ends s.job.prompt)
    (hnodup : (r.settled.map fun s => s.job.prompt).Nodup)
    (hreduce : ∀ now, (reduceInTurn p (g.setting latency) now (outputOf (inPlanOrder ended))).run
        (sentFor calls (jobs r.options.hierarchical cs stores)) =
      pure (outputOf (inPlanOrder ended ++ corpus),
        sentFor calls (jobs r.options.hierarchical cs stores) ++
          sentFor calls (corpus.map SettledJob.job))) :
    (inTurn p (g.setting latency) r.options.hierarchical cs stores).run [] =
      pure ({ artifacts := r.artifacts, failures := r.failures },
        sentFor calls (r.ordered.map SettledJob.job)) := by
  obtain ⟨later, hrun⟩ := run_plan_of_ended latency hsolves hred.hended hsettled hends hnodup
  have hsome : (r.textsOf .summary).isEmpty = false := by
    rw [hred.hended.textsOf_eq hplanned hsettled hkind]
    simpa using hred.hsummaries
  rw [← outputOf_ordered (by simp [hsome]), hred.hended.ordered_eq hplanned hsettled,
    List.map_append, hred.hended.map_job (inOrder_jobs ..), sentFor_append, inTurn,
    StateT.run_bind, hrun, pure_bind]
  dsimp only
  rw [if_pos hred.hhierarchical, hreduce]

/-- **The program gives what a complete run gives**, and makes calls for the same prompts. -/
theorem run_inTurn_of_finished (latency : Nat → Nat) (hsolves : Solves g p calls ends)
    (h : Finished (jobs r.options.hierarchical cs stores) r)
    (hplanned : r.planned = (jobs r.options.hierarchical cs stores).length)
    (hends : ∀ s ∈ r.settled, s.outcome = ends s.job.prompt)
    (hnodup : (r.settled.map fun s => s.job.prompt).Nodup) :
    (inTurn p (g.setting latency) r.options.hierarchical cs stores).run [] =
      pure ({ artifacts := r.artifacts, failures := r.failures },
        sentFor calls (r.ordered.map SettledJob.job)) := by
  cases h with
  | flat hended hflat =>
    obtain ⟨later, hrun⟩ := run_plan_of_ended latency hsolves hended (List.append_nil _).symm hends
      hnodup
    rw [← outputOf_ordered (by simp [hflat]), hended.ordered_settled hplanned,
      hended.map_job (inOrder_jobs ..), inTurn, StateT.run_bind, hrun, pure_bind]
    dsimp only
    rw [if_neg (by simp [hflat])]
    rfl
  | noSummary hended hhierarchical hnone =>
    obtain ⟨later, hrun⟩ := run_plan_of_ended latency hsolves hended (List.append_nil _).symm hends
      hnodup
    have hfailures : r.failures = r.ordered.filterMap failure? ++ [noSummaries] := by
      simp [failures, hhierarchical, textsOf_eq, hended.ordered_settled hplanned, hnone]
    rw [hfailures, artifacts, hended.ordered_settled hplanned, hended.map_job (inOrder_jobs ..),
      inTurn, StateT.run_bind, hrun, pure_bind]
    dsimp only
    rw [if_pos hhierarchical, run_reduceInTurn_none latency later _ (by rw [texts_outputOf, hnone])]
    rfl
  | noDocument ended s f hred hs hfailed hsettled =>
    have hfresh : s.job.prompt ∉ sentFor calls (jobs r.options.hierarchical cs stores) ++
        sentFor calls [] := not_mem_sentFor calls [] hred.hended (hsettled ▸ hnodup)
    refine run_inTurn_of_reduced latency hsolves hred hplanned hsettled
      (by simp [job_of_entry hs, summaryJob]) hends hnodup fun now => ?_
    exact run_reduceInTurn_error latency now hsolves hred.hsummaries (job_of_entry hs)
      (hends s (by simp [hsettled])) hfailed (by simpa [sentFor] using hfresh)
  | document ended s t highLevel hred hs hhigh ht hsettled =>
    have hfresh : s.job.prompt ∉ sentFor calls (jobs r.options.hierarchical cs stores) ++
        sentFor calls [] := not_mem_sentFor calls [] hred.hended (hsettled ▸ hnodup)
    have hfresh' : t.job.prompt ∉ sentFor calls (jobs r.options.hierarchical cs stores) ++
        sentFor calls ([s].map SettledJob.job) :=
      not_mem_sentFor calls [s] hred.hended (hsettled ▸ hnodup)
    refine run_inTurn_of_reduced latency hsolves hred hplanned hsettled
      (by simp [job_of_entry hs, job_of_entry ht, summaryJob, documentJob]) hends hnodup
      fun now => ?_
    exact run_reduceInTurn_ok latency now hsolves hred.hsummaries (job_of_entry hs) (job_of_entry ht)
      (hends s (by simp [hsettled])) (hends t (by simp [hsettled])) hhigh
      (by simpa [sentFor] using hfresh) hfresh'

/-- **The calls of a complete run are those of the program**, in some order. -/
theorem calls_perm_sentFor (hcalls : ∀ c ∈ r.calls, c ∈ r.settled.map SettledJob.entry)
    (hcount : ∀ s ∈ r.settled, r.callCount s.number = calls s.job.prompt)
    (hnodup : (r.settled.map fun s => s.job.prompt).Nodup)
    (hnumber : ∀ c ∈ r.calls, ∀ s ∈ r.settled, c.2.prompt = s.job.prompt ↔ c.1 = s.number) :
    (r.calls.map fun c => c.2.prompt).Perm (sentFor calls (r.ordered.map SettledJob.job)) := by
  have hordered : r.ordered.Perm r.settled := ordered_perm r
  have hnodup' : ((r.ordered.map SettledJob.job).map Job.prompt).Nodup := by
    rw [List.map_map]
    exact (hordered.map _).nodup_iff.2 hnodup
  -- both hold a prompt as often as calls were made for its request
  refine List.perm_iff_count.2 fun prompt => ?_
  rw [count_sentFor hnodup', List.count_eq_countP, List.countP_map]
  by_cases hmem : prompt ∈ (r.ordered.map SettledJob.job).map Job.prompt
  · rw [if_pos hmem]
    rw [List.map_map] at hmem
    obtain ⟨s, hs, rfl⟩ := List.mem_map.1 hmem
    have hs' : s ∈ r.settled := hordered.mem_iff.1 hs
    rw [Function.comp_apply, ← hcount s hs', callCount]
    refine List.countP_congr fun c hc => ?_
    simpa using hnumber c hc s hs'
  · rw [if_neg hmem, List.countP_eq_zero]
    intro c hc hprompt
    obtain ⟨s, hs, hentry⟩ := List.mem_map.1 (hcalls c hc)
    refine hmem ?_
    rw [List.map_map]
    have hs' : s ∈ r.ordered := hordered.mem_iff.2 hs
    have heq : s.job.prompt = prompt := by
      rw [← hentry] at hprompt
      exact eq_of_beq hprompt
    rw [← heq]
    exact List.mem_map_of_mem hs'

end Output

/-! ## Every schedule -/

/-- **The result of a run does not depend on its schedule.** If the chunks ask for their
    documentation in different words and the k-th call with a prompt is always answered alike, a run
    that is not cancelled gives what the sequential program gives, whatever order things happen in
    and however many requests are active at once, and its calls hold the same prompts. -/
theorem run_eq_inTurn (options : SynthesisOptions) (cs : List Chunk) (stores : ContextStores)
    (g : Answers) (latency : Nat → Nat) (hmax : 1 ≤ options.maxConcurrency)
    (hprompts : (cs.map fun c => Prompt.detailed c (stores.contextOf c)).Nodup) :
    Terminates (start options cs stores) (start options cs stores).potential ∧
      ∀ es r, (start options cs stores).after? es = some r → (∀ e ∈ es, e.isCancel = false) →
        AnsweredBy g (start options cs stores) es → r.isComplete = true →
        ∃ sent, (inTurn options.policy (g.setting latency) options.hierarchical cs stores).run [] =
            pure ({ artifacts := r.artifacts, failures := r.failures }, sent) ∧
          (r.calls.map fun c => c.2.prompt).Perm sent := by
  refine ⟨terminates_start hmax, fun es r h hes hanswered hdone => ?_⟩
  obtain ⟨calls, ends, hsolves⟩ := exists_solves g options.policy
  have hstage := stage_of_start h
  have hhistory := history_of_start h
  have hsolved : ∀ s ∈ r.settled,
      r.callCount s.number = calls s.job.prompt ∧ s.outcome = ends s.job.prompt := fun s hs =>
    (ends_of_start h hes (hanswered.next hprompts h) hs).unique (hsolves s.job.prompt)
  have hnodup : (r.settled.map fun s => s.job.prompt).Nodup := by
    have hall := hstage.nodup_prompts hprompts
    rw [List.map_append, List.map_map] at hall
    exact hall.of_append_right
  have hactive : r.active = [] := by
    simp only [isComplete, Bool.and_eq_true, List.isEmpty_iff] at hdone
    exact hdone.1.2
  have hcalls : ∀ c ∈ r.calls, c ∈ r.settled.map SettledJob.entry := fun c hc =>
    (hhistory.hcalls c hc).resolve_left (by simp [hactive])
  have hfinished := finished_of_start h hdone
  have hplanned := (frame_of_start h).2
  rw [← (frame_of_start h).1] at hfinished hplanned hsolves ⊢
  refine ⟨sentFor calls (r.ordered.map SettledJob.job), ?_, ?_⟩
  · exact run_inTurn_of_finished latency hsolves hfinished hplanned
      (fun s hs => (hsolved s hs).2) hnodup
  · refine calls_perm_sentFor hcalls (fun s hs => (hsolved s hs).1) hnodup fun c hc s hs => ?_
    exact hstage.prompt_iff_number hprompts (hhistory.started_of_call hc)
      (List.mem_append_right _ (List.mem_map_of_mem hs))

/-- Two chunks of one file. -/
def pairChunks : List Chunk :=
  [{ path := "a.py", language := .known "Python", content := "x", index := 0 },
    { path := "a.py", language := .known "Python", content := "y", index := 1 }]

/-- Requests that overlap and end in another order than they start in. -/
def pairEvents : List Event :=
  [.begin, .begin, .resume 1, .resume 0, .reply 1 (.ok "t"), .begin, .resume 2, .reply 2 (.ok "t"),
    .begin, .resume 3, .reply 3 (.ok "t"), .reply 0 (.ok "t")]

/-- Two overlapping requests at a time give what one after the other gives. -/
theorem pair_eq_inTurn :
    1 ≤ pairOptions.maxConcurrency ∧
      (pairChunks.map fun c => Prompt.detailed c (ContextStores.contextOf {} c)).Nodup ∧
      ∃ es r, (start pairOptions pairChunks {}).after? es = some r ∧
        (∀ e ∈ es, e.isCancel = false) ∧
        AnsweredBy (fun _ _ => .ok "t") (start pairOptions pairChunks {}) es ∧
        r.isComplete = true ∧
        ∃ sent, (inTurn pairOptions.policy (Answers.setting (fun _ _ => .ok "t") fun _ => 0) true
            pairChunks {}).run [] =
            pure ({ artifacts := r.artifacts, failures := r.failures }, sent) ∧
          (r.calls.map fun c => c.2.prompt).Perm sent := by
  have hmax : 1 ≤ pairOptions.maxConcurrency := by decide
  have hprompts : (pairChunks.map fun c =>
      Prompt.detailed c (ContextStores.contextOf {} c)).Nodup := by
    decide
  obtain ⟨r, hr, hdone⟩ : ∃ r, (start pairOptions pairChunks {}).after? (pairEvents ++
      [.reduce, .begin, .resume 4, .reply 4 (.ok "t"), .reduce, .begin, .resume 5,
        .reply 5 (.ok "t")]) = some r ∧ r.isComplete = true := by
    exact ⟨_,
      after?_append_reduce rfl rfl rfl rfl rfl (List.mem_of_getElem? (i := 0) rfl) rfl rfl rfl, rfl⟩
  have hanswered : AnsweredBy (fun _ _ => .ok "t") (start pairOptions pairChunks {})
      (pairEvents ++ [.reduce, .begin, .resume 4, .reply 4 (.ok "t"), .reduce, .begin, .resume 5,
        .reply 5 (.ok "t")]) := by
    intro before number reply later s earlier job rest hes _ _ _
    have hmem : Event.reply number reply ∈ before ++ .reply number reply :: later := by simp
    rw [← hes] at hmem
    simp [pairEvents] at hmem
    rcases hmem with h | h | h | h | h | h <;> exact h.2
  have hes : ∀ e ∈ pairEvents ++ [.reduce, .begin, .resume 4, .reply 4 (.ok "t"), .reduce, .begin,
      .resume 5, .reply 5 (.ok "t")], e.isCancel = false := by
    simp [pairEvents, Event.isCancel]
  have hsame := (run_eq_inTurn pairOptions pairChunks {} _ (fun _ => 0) hmax hprompts).2 _ r hr hes
    hanswered hdone
  exact ⟨hmax, hprompts, _, r, hr, hes, hanswered, hdone, hsame⟩

end Run

end SourceDocs
