import SourceDocs.Retry
import SourceDocs.Proofs.Synthesis.History

set_option autoImplicit false

/-! # Sequential runs: one request after the other

`inTurn` makes the requests of a run one after the other, each with all its calls, and then reduces
what they gave. It is the plainest program that does what a run does. `Answers` stands for a
generator that answers the k-th call with a prompt always alike; with it, how a request ends and
after how many calls depends on its prompt only (`Ends`), as long as no other request has the
same. -/

namespace SourceDocs

/-! ## The program -/

/-- What a run gives. -/
structure SynthesisOutput where
  artifacts : List Artifact := []
  failures : List Failure := []

namespace SynthesisOutput

/-- Adds what a request gave. -/
def add (out : SynthesisOutput) (job : Job) : Outcome → SynthesisOutput
  | .ok text =>
    { out with
      artifacts := out.artifacts ++
        [{ kind := job.kind, chunk := job.chunk.map Chunk.id
           language := job.chunk.map Chunk.language, text }] }
  | .error f =>
    { out with
      failures := out.failures ++
        [{ kind := job.kind, chunk := job.chunk.map Chunk.id, attempts := f.attempts
           cause := f.error.message }] }

/-- The texts of one kind. -/
def texts (out : SynthesisOutput) (kind : ArtifactKind) : List String :=
  (out.artifacts.filter fun a => a.kind = kind).map Artifact.text

end SynthesisOutput

namespace Run

section Program

variable {m : Type → Type} [Monad m] (p : RetryPolicy) (s : RetrySetting m)

/-- Makes requests one after the other; tells when the last one ended, too. -/
def settleInTurn : List Job → Nat → SynthesisOutput → m (SynthesisOutput × Nat)
  | [], now, out => return (out, now)
  | job :: rest, now, out => do
    let made ← p.retry s job.prompt now
    settleInTurn rest made.endTime (out.add job made.outcome)

/-- Asks for the summary of all summaries and, with it, for the document of all documents. -/
def reduceInTurn (now : Nat) (out : SynthesisOutput) : m SynthesisOutput := do
  match out.texts .summary with
  | [] => return { out with failures := out.failures ++ [noSummaries] }
  | summaries =>
    let job : Job := { kind := .combinedSummary, prompt := Prompt.combinedSummary summaries }
    let made ← p.retry s job.prompt now
    let out := out.add job made.outcome
    match made.outcome with
    | .error _ => return out
    | .ok highLevel =>
      let job : Job :=
        { kind := .combined, prompt := Prompt.combined highLevel (out.texts .detailed) }
      let last ← p.retry s job.prompt made.endTime
      return out.add job last.outcome

/-- Makes all requests of a run, one after the other. -/
def inTurn (hierarchical : Bool) (cs : List Chunk) (stores : ContextStores) :
    m SynthesisOutput := do
  let (out, now) ← settleInTurn p s (jobs hierarchical cs stores) 0 {}
  if hierarchical then reduceInTurn p s now out else return out

end Program

end Run

/-! ## Answers that depend on the prompt -/

/-- What is answered to the calls with each prompt, which are counted from one. -/
abbrev Answers := String → Nat → Reply

/-- A setting without cancellation in which the prompts of all calls are kept. -/
def Answers.setting (g : Answers) (latency : Nat → Nat) : RetrySetting (StateM (List String)) where
  generator :=
    { modelName := ""
      answer := fun prompt => do
        let sent ← get
        set (sent ++ [prompt])
        return g prompt (sent.count prompt + 1) }
  latency
  cancellation := .never

namespace Run

/-- A request ends by the first `count` answers to its prompt. -/
def Ends (g : Answers) (p : RetryPolicy) (prompt : String) (count : Nat) (o : Outcome) : Prop :=
  Concluded p false ((List.range count).map fun i => g prompt (i + 1)) o

variable {g : Answers} {p : RetryPolicy} {prompt : String}

theorem range_answers_succ (g : Answers) (prompt : String) (count : Nat) :
    (List.range (count + 1)).map (fun i => g prompt (i + 1)) =
      (List.range count).map (fun i => g prompt (i + 1)) ++ [g prompt (count + 1)] := by
  rw [List.range_succ, List.map_append, List.map_singleton]

/-- Each prompt has one end. -/
theorem Ends.unique {k k' : Nat} {o o' : Outcome} (h : Ends g p prompt k o)
    (h' : Ends g p prompt k' o') : k = k' ∧ o = o' := by
  have hle : ∀ {k k' : Nat} {o o' : Outcome}, Ends g p prompt k o → Ends g p prompt k' o' →
      k' ≤ k := by
    intro k k' o o' h h'
    by_contra hlt
    have htried := Concluded.tried_of_lt h' (n := k) (by simpa using hlt)
    rw [← List.map_take, List.take_range, Nat.min_eq_left (by omega)] at htried
    exact absurd (Concluded.of_tried h htried).2 (by decide)
  obtain rfl : k = k' := Nat.le_antisymm (hle h' h) (hle h h')
  refine ⟨rfl, ?_⟩
  cases k with
  | zero => exact absurd (Concluded.of_tried h tried_nil).2 (by decide)
  | succ n =>
    unfold Ends at h h'
    have hlast : ¬ Tried p ((List.range (n + 1)).map fun i => g prompt (i + 1)) := fun htried =>
      absurd (h.of_tried htried).2 (by decide)
    rw [range_answers_succ] at h h' hlast
    rw [h.of_last hlast, h'.of_last hlast]

theorem Ends.of_ok {attempts : Nat} {text : String}
    (htried : Tried p ((List.range attempts).map fun i => g prompt (i + 1)))
    (hreply : g prompt (attempts + 1) = .ok text) : Ends g p prompt (attempts + 1) (.ok text) := by
  unfold Ends
  rw [range_answers_succ, hreply]
  exact .succeeded text htried

theorem Ends.of_error {attempts : Nat} {e : GenerationError}
    (htried : Tried p ((List.range attempts).map fun i => g prompt (i + 1)))
    (hreply : g prompt (attempts + 1) = .error e) (hstop : p.goesOn (attempts + 1) e = false) :
    Ends g p prompt (attempts + 1) (.error ⟨e, attempts + 1⟩) := by
  have hlength : ((List.range attempts).map fun i => g prompt (i + 1)).length = attempts := by simp
  have hfailed : Concluded p false _ _ := .failed e htried (by rwa [hlength])
  rw [hlength] at hfailed
  unfold Ends
  rwa [range_answers_succ, hreply]

/-! ## One request of the program -/

section Retry

variable (latency : Nat → Nat)

@[simp] theorem run_answer (sent : List String) :
    ((g.setting latency).generator.answer prompt).run sent =
      pure (g prompt (sent.count prompt + 1), sent ++ [prompt]) := rfl

@[simp] theorem setting_cancellation : (g.setting latency).cancellation = .never := rfl

@[simp] theorem setting_latency : (g.setting latency).latency = latency := rfl

theorem run_retryFrom_ok {left attempts now : Nat} {sent : List String} {text : String}
    (hreply : g prompt (sent.count prompt + 1) = .ok text) :
    ∃ made, (p.retryFrom (g.setting latency) prompt left attempts now).run sent =
      pure (made, sent ++ [prompt]) ∧ made.outcome = .ok text := by
  unfold RetryPolicy.retryFrom
  simp only [setting_cancellation, Cancellation.holds, Bool.false_eq_true, if_false,
    StateT.run_bind, run_answer, pure_bind, hreply]
  exact ⟨_, rfl, rfl⟩

theorem run_retryFrom_error {left attempts now : Nat} {sent : List String} {e : GenerationError}
    (hreply : g prompt (sent.count prompt + 1) = .error e) (hstop : e.isRetryable = false ∨ left = 0) :
    ∃ made, (p.retryFrom (g.setting latency) prompt left attempts now).run sent =
      pure (made, sent ++ [prompt]) ∧ made.outcome = .error ⟨e, attempts + 1⟩ := by
  unfold RetryPolicy.retryFrom
  simp only [setting_cancellation, Cancellation.holds, Bool.false_eq_true, if_false,
    StateT.run_bind, run_answer, pure_bind, hreply]
  rcases hstop with hretryable | rfl
  · rw [if_neg (by simp [hretryable])]
    exact ⟨_, rfl, rfl⟩
  · split
    · exact ⟨_, rfl, rfl⟩
    · exact ⟨_, rfl, rfl⟩

theorem run_retryFrom_again {left attempts : Nat} (now : Nat) {sent sent' : List String}
    {e : GenerationError} {made : RetryRun} (hreply : g prompt (sent.count prompt + 1) = .error e)
    (hretryable : e.isRetryable = true)
    (hlater : (p.retryFrom (g.setting latency) prompt left (attempts + 1)
      (now + p.delayBefore (attempts + 1) + latency (attempts + 1))).run (sent ++ [prompt]) =
        pure (made, sent')) :
    ∃ made', (p.retryFrom (g.setting latency) prompt (left + 1) attempts now).run sent =
      pure (made', sent') ∧ made'.outcome = made.outcome := by
  rw [RetryPolicy.retryFrom]
  simp only [setting_cancellation, Cancellation.holds, Cancellation.endOfWait, Bool.false_eq_true,
    if_false, StateT.run_bind, run_answer, pure_bind, hreply, hretryable, if_true]
  rw [setting_latency, hlater]
  exact ⟨_, rfl, rfl⟩

/-- A request goes on with its calls until the answers end it. -/
theorem run_retryFrom {left attempts : Nat} (now : Nat) {sent : List String}
    (hleft : left = p.maxAttempts - (attempts + 1)) (hcount : sent.count prompt = attempts)
    (htried : Tried p ((List.range attempts).map fun i => g prompt (i + 1))) :
    ∃ made k, (p.retryFrom (g.setting latency) prompt left attempts now).run sent =
      pure (made, sent ++ List.replicate k prompt) ∧ Ends g p prompt (attempts + k) made.outcome := by
  -- each call puts its prompt into `sent`, so that the next one gets the next answer
  induction left generalizing attempts now sent with
  | zero =>
    cases hreply : g prompt (attempts + 1) with
    | ok text =>
      obtain ⟨made, hrun, houtcome⟩ := run_retryFrom_ok latency (hcount ▸ hreply)
      exact ⟨made, 1, hrun, houtcome ▸ Ends.of_ok htried hreply⟩
    | error e =>
      have hstop : p.goesOn (attempts + 1) e = false := by
        simp only [RetryPolicy.goesOn, Bool.and_eq_false_iff, decide_eq_false_iff_not]
        omega
      obtain ⟨made, hrun, houtcome⟩ := run_retryFrom_error latency (hcount ▸ hreply) (Or.inr rfl)
      exact ⟨made, 1, hrun, houtcome ▸ Ends.of_error htried hreply hstop⟩
  | succ left ih =>
    cases hreply : g prompt (attempts + 1) with
    | ok text =>
      obtain ⟨made, hrun, houtcome⟩ := run_retryFrom_ok latency (hcount ▸ hreply)
      exact ⟨made, 1, hrun, houtcome ▸ Ends.of_ok htried hreply⟩
    | error e =>
      cases hretryable : e.isRetryable with
      | false =>
        have hstop : p.goesOn (attempts + 1) e = false := by simp [RetryPolicy.goesOn, hretryable]
        obtain ⟨made, hrun, houtcome⟩ :=
          run_retryFrom_error latency (hcount ▸ hreply) (Or.inl hretryable)
        exact ⟨made, 1, hrun, houtcome ▸ Ends.of_error htried hreply hstop⟩
      | true =>
        have hgo : p.goesOn (attempts + 1) e = true := by
          simp only [RetryPolicy.goesOn, hretryable, Bool.true_and, decide_eq_true_eq]
          omega
        have htried' : Tried p ((List.range (attempts + 1)).map fun i => g prompt (i + 1)) := by
          rw [range_answers_succ]
          exact tried_concat.2 ⟨htried, e, hreply, by simpa using hgo⟩
        have hcount' : (sent ++ [prompt]).count prompt = attempts + 1 := by simp [hcount]
        obtain ⟨made, k, hrun, hends⟩ := ih _ (by omega) hcount' htried'
        obtain ⟨made', hrun', houtcome⟩ :=
          run_retryFrom_again latency now (hcount ▸ hreply) hretryable hrun
        refine ⟨made', k + 1, ?_, ?_⟩
        · rw [hrun', List.append_assoc, List.replicate_succ]
          rfl
        · rw [houtcome, Nat.add_comm k 1, ← Nat.add_assoc]
          exact hends

/-- A request whose prompt is new ends by the answers to it alone. -/
theorem run_retry {sent : List String} (now : Nat) (hfresh : prompt ∉ sent) :
    ∃ made k, (p.retry (g.setting latency) prompt now).run sent =
      pure (made, sent ++ List.replicate k prompt) ∧ Ends g p prompt k made.outcome := by
  obtain ⟨made, k, hrun, hends⟩ := run_retryFrom (g := g) (p := p) latency now rfl
    (List.count_eq_zero.2 hfresh) tried_nil
  exact ⟨made, k, hrun, by rwa [Nat.zero_add] at hends⟩

/-- How many calls each prompt takes and how they end. -/
def Solves (g : Answers) (p : RetryPolicy) (calls : String → Nat) (ends : String → Outcome) : Prop :=
  ∀ prompt, Ends g p prompt (calls prompt) (ends prompt)

theorem exists_solves (g : Answers) (p : RetryPolicy) :
    ∃ calls ends, Solves g p calls ends := by
  have hends : ∀ prompt, ∃ k o, Ends g p prompt k o := by
    intro prompt
    have hfresh : prompt ∉ [] := List.not_mem_nil
    obtain ⟨made, k, -, h⟩ := run_retry (g := g) (p := p) (fun _ => 0) 0 hfresh
    exact ⟨k, made.outcome, h⟩
  choose calls ends h using hends
  exact ⟨calls, ends, h⟩

variable {calls : String → Nat} {ends : String → Outcome}

theorem run_retry_of_solves {sent : List String} (now : Nat) (hsolves : Solves g p calls ends)
    (hfresh : prompt ∉ sent) :
    ∃ made, (p.retry (g.setting latency) prompt now).run sent =
      pure (made, sent ++ List.replicate (calls prompt) prompt) ∧ made.outcome = ends prompt := by
  obtain ⟨made, k, hrun, hends⟩ := run_retry (g := g) (p := p) latency now hfresh
  obtain ⟨rfl, houtcome⟩ := hends.unique (hsolves prompt)
  exact ⟨made, hrun, houtcome⟩

end Retry

/-! ## The whole program -/

/-- What ended requests give. -/
def outputOf (ss : List SettledJob) : SynthesisOutput :=
  { artifacts := ss.filterMap artifact?, failures := ss.filterMap failure? }

theorem add_outputOf (ss : List SettledJob) (s : SettledJob) :
    (outputOf ss).add s.job s.outcome = outputOf (ss ++ [s]) := by
  obtain ⟨number, job, outcome⟩ := s
  cases outcome with
  | ok text => simp [outputOf, SynthesisOutput.add, artifact?, failure?]
  | error f => simp [outputOf, SynthesisOutput.add, artifact?, failure?]

theorem texts_outputOf (ss : List SettledJob) (kind : ArtifactKind) :
    (outputOf ss).texts kind = textsIn kind ss := by
  simp only [outputOf, SynthesisOutput.texts, textsIn, List.filter_filterMap, List.map_filterMap]
  refine List.filterMap_congr fun s _ => ?_
  cases houtcome : s.outcome with
  | ok text =>
    by_cases hkind : s.job.kind = kind <;> simp [artifact?, houtcome, hkind, Except.toOption]
  | error f => simp [artifact?, houtcome, Except.toOption]

/-- The prompts that the calls of some requests hold. -/
def sentFor (calls : String → Nat) (js : List Job) : List String :=
  js.flatMap fun job => List.replicate (calls job.prompt) job.prompt

theorem sentFor_append (calls : String → Nat) (js ks : List Job) :
    sentFor calls (js ++ ks) = sentFor calls js ++ sentFor calls ks :=
  List.flatMap_append

theorem mem_sentFor {calls : String → Nat} {js : List Job} (h : prompt ∈ sentFor calls js) :
    prompt ∈ js.map Job.prompt := by
  obtain ⟨job, hjob, hprompt⟩ := List.mem_flatMap.1 h
  rw [(List.mem_replicate.1 hprompt).2]
  exact List.mem_map_of_mem hjob

theorem count_sentFor {calls : String → Nat} {js : List Job} (hnodup : (js.map Job.prompt).Nodup) :
    (sentFor calls js).count prompt = if prompt ∈ js.map Job.prompt then calls prompt else 0 := by
  induction js with
  | nil => rfl
  | cons job rest ih =>
    rw [List.map_cons, List.nodup_cons] at hnodup
    rw [sentFor, List.flatMap_cons, List.count_append, ← sentFor, ih hnodup.2, List.count_replicate]
    by_cases hjob : job.prompt = prompt
    · subst hjob
      simp [hnodup.1]
    · simp [hjob, Ne.symm hjob]

section Program

variable (latency : Nat → Nat) {calls : String → Nat} {ends : String → Outcome}

/-- Requests with different prompts that are new end as each would on its own. -/
theorem run_settleInTurn (ss : List SettledJob) {ts : List SettledJob} {sent : List String} (now : Nat)
    (hsolves : Solves g p calls ends) (hends : ∀ s ∈ ts, s.outcome = ends s.job.prompt)
    (hnodup : (ts.map fun s => s.job.prompt).Nodup) (hfresh : ∀ s ∈ ts, s.job.prompt ∉ sent) :
    ∃ later, (settleInTurn p (g.setting latency) (ts.map SettledJob.job) now (outputOf ss)).run sent =
      pure ((outputOf (ss ++ ts), later), sent ++ sentFor calls (ts.map SettledJob.job)) := by
  induction ts generalizing now ss sent with
  | nil => exact ⟨now, by simp [settleInTurn, sentFor]⟩
  | cons s rest ih =>
    rw [List.map_cons, List.nodup_cons] at hnodup
    obtain ⟨made, hrun, houtcome⟩ :=
      run_retry_of_solves latency now hsolves (hfresh s List.mem_cons_self)
    have hfresh' : ∀ t ∈ rest,
        t.job.prompt ∉ sent ++ List.replicate (calls s.job.prompt) s.job.prompt := by
      intro t ht hmem
      rcases List.mem_append.1 hmem with hmem | hmem
      · exact hfresh t (List.mem_cons_of_mem _ ht) hmem
      · refine hnodup.1 ?_
        rw [← (List.mem_replicate.1 hmem).2]
        exact List.mem_map_of_mem ht
    obtain ⟨later, hrest⟩ := ih (ss ++ [s]) made.endTime
      (fun t ht => hends t (List.mem_cons_of_mem _ ht)) hnodup.2 hfresh'
    refine ⟨later, ?_⟩
    rw [List.map_cons, settleInTurn, StateT.run_bind, hrun, pure_bind, houtcome,
      ← hends s List.mem_cons_self, add_outputOf, hrest]
    simp [sentFor]

theorem run_reduceInTurn_none {out : SynthesisOutput} (now : Nat) (sent : List String)
    (hnone : out.texts .summary = []) :
    (reduceInTurn p (g.setting latency) now out).run sent =
      pure ({ out with failures := out.failures ++ [noSummaries] }, sent) := by
  unfold reduceInTurn
  rw [hnone]
  rfl

theorem texts_add_of_ne {out : SynthesisOutput} {job : Job} (o : Outcome) {kind : ArtifactKind}
    (h : job.kind ≠ kind) : (out.add job o).texts kind = out.texts kind := by
  cases o with
  | ok text => simp [SynthesisOutput.texts, SynthesisOutput.add, h]
  | error f => rfl

/-- With summaries, the program makes the requests about the corpus that a run makes. -/
theorem reduceInTurn_of_summaries {m : Type → Type} [Monad m] (setting : RetrySetting m)
    {ended : List SettledJob} (now : Nat) (hsome : textsIn .summary (inPlanOrder ended) ≠ []) :
    reduceInTurn p setting now (outputOf (inPlanOrder ended)) = do
      let made ← p.retry setting (summaryJob ended).prompt now
      let out := (outputOf (inPlanOrder ended)).add (summaryJob ended) made.outcome
      match made.outcome with
      | .error _ => return out
      | .ok highLevel =>
        let last ← p.retry setting (documentJob highLevel ended).prompt made.endTime
        return out.add (documentJob highLevel ended) last.outcome := by
  have hdetailed : ∀ o, ((outputOf (inPlanOrder ended)).add (summaryJob ended) o).texts .detailed =
      textsIn .detailed (inPlanOrder ended) := fun o => by
    rw [texts_add_of_ne o (by simp [summaryJob]), texts_outputOf]
  unfold reduceInTurn
  rw [texts_outputOf]
  cases hsummaries : textsIn .summary (inPlanOrder ended) with
  | nil => exact absurd hsummaries hsome
  | cons text rest =>
    simp only [summaryJob, documentJob, hsummaries] at hdetailed ⊢
    simp only [hdetailed]

/-- A program whose summary of all summaries fails ends there. -/
theorem run_reduceInTurn_error {ended : List SettledJob} {s : SettledJob} {sent : List String}
    {f : RetryFailure} (now : Nat) (hsolves : Solves g p calls ends)
    (hsome : textsIn .summary (inPlanOrder ended) ≠ []) (hs : s.job = summaryJob ended)
    (hends : s.outcome = ends s.job.prompt) (hfailed : s.outcome = .error f)
    (hfresh : s.job.prompt ∉ sent) :
    (reduceInTurn p (g.setting latency) now (outputOf (inPlanOrder ended))).run sent =
      pure (outputOf (inPlanOrder ended ++ [s]), sent ++ sentFor calls [s.job]) := by
  obtain ⟨made, hrun, houtcome⟩ := run_retry_of_solves latency now hsolves hfresh
  rw [reduceInTurn_of_summaries _ now hsome, ← hs, StateT.run_bind, hrun, pure_bind]
  dsimp only
  rw [houtcome, ← hends, add_outputOf, hfailed, sentFor, List.flatMap_singleton]
  rfl

/-- A program with the summary of all summaries asks for the document of all documents. -/
theorem run_reduceInTurn_ok {ended : List SettledJob} {s t : SettledJob} {sent : List String}
    {highLevel : String} (now : Nat) (hsolves : Solves g p calls ends)
    (hsome : textsIn .summary (inPlanOrder ended) ≠ []) (hs : s.job = summaryJob ended)
    (ht : t.job = documentJob highLevel ended) (hends : s.outcome = ends s.job.prompt)
    (hends' : t.outcome = ends t.job.prompt) (hhigh : s.outcome = .ok highLevel)
    (hfresh : s.job.prompt ∉ sent) (hfresh' : t.job.prompt ∉ sent ++ sentFor calls [s.job]) :
    (reduceInTurn p (g.setting latency) now (outputOf (inPlanOrder ended))).run sent =
      pure (outputOf (inPlanOrder ended ++ [s, t]), sent ++ sentFor calls [s.job, t.job]) := by
  obtain ⟨made, hrun, houtcome⟩ := run_retry_of_solves latency now hsolves hfresh
  rw [sentFor, List.flatMap_singleton] at hfresh'
  obtain ⟨last, hrun', houtcome'⟩ := run_retry_of_solves latency made.endTime hsolves hfresh'
  rw [reduceInTurn_of_summaries _ now hsome, ← hs, StateT.run_bind, hrun, pure_bind]
  dsimp only
  rw [houtcome, ← hends, add_outputOf, hhigh]
  dsimp only
  rw [← ht, StateT.run_bind, hrun', pure_bind]
  dsimp only
  rw [houtcome', ← hends', add_outputOf]
  simp [sentFor]

end Program

end Run

end SourceDocs
