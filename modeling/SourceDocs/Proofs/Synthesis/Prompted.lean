import SourceDocs.Proofs.Synthesis.Clocked
import SourceDocs.Proofs.Synthesis.Schedule

set_option autoImplicit false

/-! # Answers to prompts: what a run gives is decided by its plan

With a generator whose answer depends on nothing but the prompt (`AnsweredByPrompt`), a request ends
as its prompt decides, also if others have the same. A complete run then ends the requests of its
plan in one way only (`endedBy`), so that any two complete runs from one start agree
(`complete_runs_agree`). -/

namespace SourceDocs

namespace Run

/-- Every reply is what `answer` gives for the prompt of the request that it comes to. -/
def AnsweredByPrompt (answer : String → Reply) (r : Run) (es : List Event) : Prop :=
  ∀ before number reply later s a, es = before ++ .reply number reply :: later →
    r.after? before = some s → s.find? number = some a → reply = answer a.job.prompt

/-- An entry of the plan, ended as its prompt decides. -/
def settledBy (ends : String → Outcome) (x : Nat × Job) : SettledJob :=
  { number := x.1, job := x.2, outcome := ends x.2.prompt }

/-- The requests about chunks, ended as their prompts decide, in the order of the plan. -/
def planBy (ends : String → Outcome) (plan : List Job) : List SettledJob :=
  (numbered 0 plan).map (settledBy ends)

/-- The requests about the corpus that follow on those about chunks, ended as their prompts
decide. -/
def corpusBy (ends : String → Outcome) (plan : List Job) : List SettledJob :=
  let summary := settledBy ends (plan.length, summaryJob (planBy ends plan))
  match summary.outcome with
  | .ok highLevel =>
    [summary, settledBy ends (plan.length + 1, documentJob highLevel (planBy ends plan))]
  | .error _ => [summary]

/-- All requests of a complete run, ended as their prompts decide, in the order of the plan. -/
def endedBy (ends : String → Outcome) (hierarchical : Bool) (plan : List Job) : List SettledJob :=
  planBy ends plan ++
    if hierarchical && !(textsIn .summary (planBy ends plan)).isEmpty then corpusBy ends plan else []

variable {plan : List Job} {r r' : Run} {es es' : List Event} {ends : String → Outcome}

/-! ## What ended requests are -/

theorem settledBy_entry {s : SettledJob} (h : s.outcome = ends s.job.prompt) :
    settledBy ends s.entry = s := by
  obtain ⟨number, job, outcome⟩ := s
  rw [settledBy, SettledJob.entry]
  exact congrArg (SettledJob.mk number job) h.symm

theorem inPlanOrder_ended {ended : List SettledJob} (hplan : InOrder plan)
    (hended : Ended plan ended) (hends : ∀ s ∈ ended, s.outcome = ends s.job.prompt) :
    inPlanOrder ended = planBy ends plan := by
  rw [planBy, ← map_entry_inPlanOrder hplan hended, List.map_map]
  conv_lhs => rw [← List.map_id (inPlanOrder ended)]
  refine List.map_congr_left fun s hs => ?_
  exact (settledBy_entry (hends s (mem_inPlanOrder.1 hs))).symm

theorem ended_planBy (ends : String → Outcome) (plan : List Job) :
    Ended plan (planBy ends plan) := by
  rw [Ended, planBy, List.map_map]
  exact List.Perm.of_eq (List.map_id _)

theorem inPlanOrder_planBy (ends : String → Outcome) (hplan : InOrder plan) :
    inPlanOrder (planBy ends plan) = planBy ends plan := by
  refine inPlanOrder_ended hplan (ended_planBy ends plan) fun s hs => ?_
  obtain ⟨x, -, rfl⟩ := List.mem_map.1 hs
  rfl

theorem summaryJob_ended {ended : List SettledJob} (hplan : InOrder plan)
    (hended : Ended plan ended) (hends : ∀ s ∈ ended, s.outcome = ends s.job.prompt) :
    summaryJob ended = summaryJob (planBy ends plan) := by
  rw [summaryJob, summaryJob, inPlanOrder_planBy ends hplan, inPlanOrder_ended hplan hended hends]

theorem documentJob_ended {ended : List SettledJob} (highLevel : String) (hplan : InOrder plan)
    (hended : Ended plan ended) (hends : ∀ s ∈ ended, s.outcome = ends s.job.prompt) :
    documentJob highLevel ended = documentJob highLevel (planBy ends plan) := by
  rw [documentJob, documentJob, inPlanOrder_planBy ends hplan, inPlanOrder_ended hplan hended hends]

theorem settledBy_summaryJob {ended : List SettledJob} {s : SettledJob} (hplan : InOrder plan)
    (hended : Ended plan ended) (hends : ∀ t ∈ ended, t.outcome = ends t.job.prompt)
    (hs : s.entry = (plan.length, summaryJob ended)) (houtcome : s.outcome = ends s.job.prompt) :
    settledBy ends (plan.length, summaryJob (planBy ends plan)) = s := by
  rw [← summaryJob_ended hplan hended hends, ← hs]
  exact settledBy_entry houtcome

theorem settledBy_documentJob {ended : List SettledJob} {s : SettledJob} {highLevel : String}
    (hplan : InOrder plan) (hended : Ended plan ended)
    (hends : ∀ t ∈ ended, t.outcome = ends t.job.prompt)
    (hs : s.entry = (plan.length + 1, documentJob highLevel ended))
    (houtcome : s.outcome = ends s.job.prompt) :
    settledBy ends (plan.length + 1, documentJob highLevel (planBy ends plan)) = s := by
  rw [← documentJob_ended highLevel hplan hended hends, ← hs]
  exact settledBy_entry houtcome

theorem ordered_eq_of_reducing {ended corpus : List SettledJob} (hplan : InOrder plan)
    (hplanned : r.planned = plan.length) (hred : Reducing plan r ended)
    (hends : ∀ s ∈ r.settled, s.outcome = ends s.job.prompt)
    (hsettled : r.settled = ended ++ corpus) (hcorpus : corpusBy ends plan = corpus) :
    r.ordered = endedBy ends r.options.hierarchical plan := by
  have hends' : ∀ s ∈ ended, s.outcome = ends s.job.prompt := fun s hs =>
    hends s (hsettled ▸ List.mem_append_left _ hs)
  have hsummaries := hred.hsummaries
  rw [inPlanOrder_ended hplan hred.hended hends'] at hsummaries
  rw [hred.hended.ordered_eq hplanned hsettled, inPlanOrder_ended hplan hred.hended hends', endedBy,
    hred.hhierarchical, hcorpus]
  simp [hsummaries]

/-- **A complete run ends its requests in one way**, if they end as their prompts decide. -/
theorem Finished.ordered_eq_endedBy (h : Finished plan r) (hplan : InOrder plan)
    (hplanned : r.planned = plan.length)
    (hends : ∀ s ∈ r.settled, s.outcome = ends s.job.prompt) :
    r.ordered = endedBy ends r.options.hierarchical plan := by
  cases h with
  | flat hended hflat =>
    rw [hended.ordered_settled hplanned, inPlanOrder_ended hplan hended hends, endedBy, hflat]
    simp
  | noSummary hended hhierarchical hnone =>
    rw [inPlanOrder_ended hplan hended hends] at hnone
    rw [hended.ordered_settled hplanned, inPlanOrder_ended hplan hended hends, endedBy, hnone]
    simp
  | noDocument ended s f hred hs hfailed hsettled =>
    have hends' : ∀ t ∈ ended, t.outcome = ends t.job.prompt := fun t ht =>
      hends t (hsettled ▸ List.mem_append_left _ ht)
    refine ordered_eq_of_reducing hplan hplanned hred hends hsettled ?_
    rw [corpusBy, settledBy_summaryJob hplan hred.hended hends' hs (hends s (by simp [hsettled])),
      hfailed]
  | document ended s t highLevel hred hs hhigh ht hsettled =>
    have hends' : ∀ t ∈ ended, t.outcome = ends t.job.prompt := fun t ht =>
      hends t (hsettled ▸ List.mem_append_left _ ht)
    refine ordered_eq_of_reducing hplan hplanned hred hends hsettled ?_
    rw [corpusBy, settledBy_summaryJob hplan hred.hended hends' hs (hends s (by simp [hsettled])),
      hhigh]
    dsimp only
    rw [settledBy_documentJob hplan hred.hended hends' ht (hends t (by simp [hsettled]))]

/-! ## The calls of a run -/

/-- Numbered items are those under each of some numbers, if they have no others. -/
theorem perm_flatMap_filter {α : Type} {xs : List (Nat × α)} {numbers : List Nat}
    (hnodup : numbers.Nodup) (hmem : ∀ x ∈ xs, x.1 ∈ numbers) :
    xs.Perm (numbers.flatMap fun n => xs.filter fun x => x.1 = n) := by
  induction numbers generalizing xs with
  | nil =>
    obtain rfl : xs = [] := List.eq_nil_iff_forall_not_mem.2 fun x hx => List.not_mem_nil (hmem x hx)
    exact List.Perm.refl _
  | cons n rest ih =>
    rw [List.nodup_cons] at hnodup
    have hrest : ∀ x ∈ xs.filter fun x => !decide (x.1 = n), x.1 ∈ rest := by
      intro x hx
      obtain ⟨hx, hne⟩ := List.mem_filter.1 hx
      exact List.mem_of_ne_of_mem (by simpa using hne) (hmem x hx)
    have hkept : ∀ k ∈ rest, ((xs.filter fun x => !decide (x.1 = n)).filter fun x => x.1 = k) =
        xs.filter fun x => x.1 = k := by
      intro k hk
      rw [List.filter_filter]
      refine List.filter_congr fun x _ => ?_
      by_cases hx : x.1 = k
      · have hne : k ≠ n := fun heq => hnodup.1 (heq ▸ hk)
        simp [hx, hne]
      · simp [hx]
    have hsplit := List.filter_append_perm (fun x : Nat × α => decide (x.1 = n)) xs
    have hlater := ih hnodup.2 hrest
    rw [List.flatMap_congr hkept] at hlater
    rw [List.flatMap_cons]
    exact hsplit.symm.trans (hlater.append_left _)

/-- The calls for some requests, of which each takes as many as its prompt decides. -/
def callsBy (calls : String → Nat) (ss : List SettledJob) : List (Nat × Job) :=
  ss.flatMap fun s => List.replicate (calls s.job.prompt) s.entry

/-- **The calls of a run are those that its requests take**, in some order. -/
theorem calls_perm_callsBy {calls : String → Nat} (hnodup : (r.settled.map SettledJob.number).Nodup)
    (hmem : ∀ c ∈ r.calls, c ∈ r.settled.map SettledJob.entry)
    (hcount : ∀ s ∈ r.settled, r.callCount s.number = calls s.job.prompt) :
    r.calls.Perm (callsBy calls r.ordered) := by
  have hnumbers : ∀ c ∈ r.calls, c.1 ∈ r.settled.map SettledJob.number := by
    intro c hc
    obtain ⟨s, hs, rfl⟩ := List.mem_map.1 (hmem c hc)
    exact List.mem_map_of_mem hs
  have hcalls : ∀ s ∈ r.settled, (r.calls.filter fun c => c.1 = s.number) =
      List.replicate (calls s.job.prompt) s.entry := by
    intro s hs
    refine List.eq_replicate_iff.2 ⟨?_, fun c hc => ?_⟩
    · rw [← List.countP_eq_length_filter, ← callCount, hcount s hs]
    · obtain ⟨hc, hnumber⟩ := List.mem_filter.1 hc
      obtain ⟨t, ht, rfl⟩ := List.mem_map.1 (hmem c hc)
      exact congrArg _ (List.inj_on_of_nodup_map hnodup ht hs (of_decide_eq_true hnumber))
  have hperm := perm_flatMap_filter hnodup hnumbers
  rw [List.flatMap_map, List.flatMap_congr hcalls] at hperm
  exact hperm.trans ((ordered_perm r).symm.flatMap_right _)

/-! ## Any two runs -/

/-- A run has come from `r` by events of which none is a cancellation and every reply is the answer
    to a prompt. -/
def CameBy (answer : String → Reply) (r r' : Run) : Prop :=
  ∃ es, r.after? es = some r' ∧ (∀ e ∈ es, e.isCancel = false) ∧ AnsweredByPrompt answer r es

variable {answer : String → Reply}

theorem CameBy.refl (answer : String → Reply) (r : Run) : CameBy answer r r := by
  refine ⟨[], rfl, by simp, ?_⟩
  intro before number reply later s a hes
  simp at hes

theorem CameBy.of_step {r'' : Run} {e : Event} (h : CameBy answer r r') (hstep : Step r' e r'')
    (he : e.isCancel = false) (hreply : ∀ number reply a, e = .reply number reply →
      r'.find? number = some a → reply = answer a.job.prompt) : CameBy answer r r'' := by
  obtain ⟨es, hr', hes, hanswered⟩ := h
  refine ⟨es ++ [e], after?_concat_eq_some.2 ⟨r', hr', hstep⟩, ?_, ?_⟩
  · intro f hf
    rcases List.mem_append.1 hf with hf | hf
    · exact hes f hf
    · rw [List.mem_singleton.1 hf]
      exact he
  · intro before number reply later s a hsplit hs hfind
    rcases List.eq_nil_or_concat later with rfl | ⟨rest, f, rfl⟩
    · -- the reply is the last event
      obtain ⟨rfl, hlast⟩ := List.append_inj' hsplit rfl
      rw [hr', Option.some.injEq] at hs
      subst hs
      exact hreply number reply a (List.singleton_inj.1 hlast) hfind
    · rw [List.concat_eq_append, ← List.cons_append, ← List.append_assoc] at hsplit
      obtain ⟨rfl, -⟩ := List.append_inj' hsplit rfl
      exact hanswered before number reply rest s a rfl hs hfind

section Start

variable {options : SynthesisOptions} {cs : List Chunk} {stores : ContextStores}

theorem AnsweredByPrompt.next (h : (start options cs stores).after? es = some r)
    (hanswered : AnsweredByPrompt answer (start options cs stores) es) :
    AnsweredNext (fun prompt _ => answer prompt) (start options cs stores) es := by
  intro before number reply later s hes hs x hx hnumber
  rw [hes] at h
  obtain ⟨s', hs', hlater⟩ := after?_append_eq_some.1 h
  rw [hs, Option.some.injEq] at hs'
  subst hs'
  obtain ⟨t, hstep, -⟩ := after?_cons_eq_some.1 hlater
  obtain ⟨a, hfind⟩ : ∃ a, s.find? number = some a := by
    cases hstep with
    | succeed hfind _ => exact ⟨_, hfind⟩
    | retry hfind _ _ => exact ⟨_, hfind⟩
    | fail hfind _ _ => exact ⟨_, hfind⟩
  have hstarted : a.entry ∈ s.started :=
    List.mem_append_left _ (List.mem_map_of_mem (mem_active_of_find? hfind))
  obtain rfl : x = a.entry := (stage_of_start hs).eq_of_number hx hstarted
    (hnumber.trans (number_of_find? hfind).symm)
  exact hanswered before number reply later s a hes hs hfind

/-- What a complete run comes to. -/
theorem CameBy.ordered_eq {calls : String → Nat}
    (hsolves : Solves (fun prompt _ => answer prompt) options.policy calls ends)
    (h : CameBy answer (start options cs stores) r) (hdone : r.isComplete = true) :
    r.ordered = endedBy ends options.hierarchical (jobs options.hierarchical cs stores) ∧
      r.calls.Perm (callsBy calls r.ordered) := by
  obtain ⟨es, hr, hes, hanswered⟩ := h
  have hsolved : ∀ s ∈ r.settled,
      r.callCount s.number = calls s.job.prompt ∧ s.outcome = ends s.job.prompt := fun s hs =>
    (ends_of_start hr hes (hanswered.next hr) hs).unique (hsolves s.job.prompt)
  have hactive : r.active = [] := by
    simp only [isComplete, Bool.and_eq_true, List.isEmpty_iff] at hdone
    exact hdone.1.2
  have hcalls : ∀ c ∈ r.calls, c ∈ r.settled.map SettledJob.entry := fun c hc =>
    ((history_of_start hr).hcalls c hc).resolve_left (by simp [hactive])
  have hordered := (finished_of_start hr hdone).ordered_eq_endedBy (inOrder_jobs ..)
    (frame_of_start hr).2 fun s hs => (hsolved s hs).2
  rw [(frame_of_start hr).1] at hordered
  exact ⟨hordered, calls_perm_callsBy (stage_of_start hr).nodup_settled hcalls
    fun s hs => (hsolved s hs).1⟩

/-- **Complete runs agree.** With an answer for each prompt, two complete runs from one start give
    the same and have made the same calls, whatever order things happened in. -/
theorem complete_runs_agree (h : CameBy answer (start options cs stores) r)
    (h' : CameBy answer (start options cs stores) r') (hdone : r.isComplete = true)
    (hdone' : r'.isComplete = true) :
    r'.artifacts = r.artifacts ∧ r'.failures = r.failures ∧ r'.calls.Perm r.calls := by
  obtain ⟨calls, ends, hsolves⟩ := exists_solves (fun prompt _ => answer prompt) options.policy
  obtain ⟨hordered, hcalls⟩ := h.ordered_eq hsolves hdone
  obtain ⟨hordered', hcalls'⟩ := h'.ordered_eq hsolves hdone'
  have hsame : r'.ordered = r.ordered := hordered'.trans hordered.symm
  have hoptions : r'.options = r.options := by
    obtain ⟨es, hr, -⟩ := h
    obtain ⟨es', hr', -⟩ := h'
    rw [(frame_of_start hr).1, (frame_of_start hr').1]
  rw [hsame] at hcalls'
  refine ⟨?_, ?_, hcalls'.trans hcalls.symm⟩
  · rw [artifacts, artifacts, hsame]
  · have htexts : r'.textsOf .summary = r.textsOf .summary := by
      rw [textsOf, textsOf, hsame]
    rw [failures, failures, hsame, htexts, hoptions]

end Start

end Run

/-! ## Runs under a clock -/

namespace ClockedRun

open Run

variable {m : Type → Type} [Monad m] [LawfulMonad m] {service : Service m}
  {answer : String → Reply} {r : Run} {s : ClockedRun}

/-- A run under a clock that is not to be cancelled has come by answers to prompts. -/
structure Prompted (answer : String → Reply) (r : Run) (s : ClockedRun) : Prop where
  hnever : s.cancellation = .never
  hcame : CameBy answer r s.run

theorem Prompted.checkCancel_eq (h : Prompted answer r s) : s.checkCancel = s := by
  unfold checkCancel
  rw [h.hnever]
  simp [Cancellation.holds]

theorem Prompted.checkCancel (h : Prompted answer r s) : Prompted answer r s.checkCancel := by
  rw [h.checkCancel_eq]
  exact h

theorem Prompted.later (h : Prompted answer r s) (time number : Nat) :
    Prompted answer r (s.later time number) := by
  unfold ClockedRun.later
  split
  · exact ⟨h.hnever, h.hcame⟩
  · exact ⟨h.hnever, h.hcame⟩

theorem Prompted.moveTo (h : Prompted answer r s) (instant : Nat) :
    Prompted answer r (s.moveTo instant) := by
  have hnow : Prompted answer r { s with now := instant } := ⟨h.hnever, h.hcame⟩
  exact ⟨hnow.checkCancel.hnever, hnow.checkCancel.hcame⟩

theorem gives_prompted_proceed (number : Nat)
    (hanswer : ∀ prompt, Gives (fun reply => reply = answer prompt) (service.generator.answer prompt))
    (h : Prompted answer r s) : Gives (Prompted answer r) (proceed service s number) := by
  unfold proceed
  split
  · rename_i job attempts hfind
    split
    · exact .of_pure h
    · rename_i run hnext
      have hcame : CameBy answer r run := h.hcame.of_step (Step.of_next? hnext) rfl (by simp)
      split
      · exact .of_pure ⟨h.hnever, hcame⟩
      · refine .of_pure (Prompted.later (Prompted.checkCancel ?_) _ _)
        exact ⟨h.hnever, hcame⟩
  · rename_i n job attempts hfind
    refine (hanswer job.prompt).bind fun reply hreply => ?_
    split
    · exact .of_pure h
    · rename_i run hnext
      have hcame : CameBy answer r run := by
        refine h.hcame.of_step (Step.of_next? hnext) rfl ?_
        rintro _ _ a ⟨⟩ hfind'
        rw [hfind, Option.some.injEq] at hfind'
        rw [hreply, ← hfind']
      dsimp only
      split
      · refine .of_pure (Prompted.later ?_ _ _)
        exact ⟨h.hnever, hcame⟩
      · exact .of_pure ⟨h.hnever, hcame⟩
  · exact .of_pure h

theorem gives_prompted_step?
    (hanswer : ∀ prompt, Gives (fun reply => reply = answer prompt) (service.generator.answer prompt))
    (h : Prompted answer r s) :
    Gives (fun next => ∀ s', next = some s' → Prompted answer r s') (step? service s) := by
  have hgoes : ∀ {s' : ClockedRun}, Prompted answer r s' →
      ∀ t, some s' = some t → Prompted answer r t := by
    intro s' hs' t ht
    exact Option.some.inj ht ▸ hs'
  unfold step?
  split
  · rename_i hbegin
    exact .of_pure (hgoes ⟨h.hnever, h.hcame.of_step (Step.of_next? hbegin) rfl (by simp)⟩)
  · split
    · rename_i number ready hready
      have hrest : Prompted answer r { s with ready } := ⟨h.hnever, h.hcame⟩
      exact (gives_prompted_proceed number hanswer hrest).bind fun s' hs' => .of_pure (hgoes hs')
    · split
      · exact .bind_of_forall fun _ => .of_pure (hgoes (h.moveTo _))
      · cases hreduce : s.run.next? .reduce with
        | none => exact .of_pure nofun
        | some run =>
          exact .of_pure (hgoes ⟨h.hnever, h.hcame.of_step (Step.of_next? hreduce) rfl (by simp)⟩)

theorem gives_prompted_steps (n : Nat)
    (hanswer : ∀ prompt, Gives (fun reply => reply = answer prompt) (service.generator.answer prompt))
    (h : Prompted answer r s) : Gives (Prompted answer r) (steps service n s) := by
  induction n generalizing s with
  | zero => exact .of_pure h
  | succ n ih =>
    refine (gives_prompted_step? hanswer h).bind fun next hnext => ?_
    cases next with
    | none => exact .of_pure h
    | some s' => exact .bind_of_forall fun _ => ih (hnext s' rfl)

/-- **A run under a clock comes by the answers of its service**, if these depend on the prompt
only. -/
theorem gives_cameBy_drive
    (hanswer : ∀ prompt, Gives (fun reply => reply = answer prompt) (service.generator.answer prompt))
    (r : Run) : Gives (fun s => CameBy answer r s.run) (r.drive service .never) := by
  have hfirst : Prompted answer r { run := r, cancellation := .never } := ⟨rfl, .refl answer r⟩
  unfold Run.drive
  rw [hfirst.checkCancel_eq]
  exact (gives_prompted_steps _ hanswer hfirst).mono fun s hs => hs.hcame

end ClockedRun

end SourceDocs
