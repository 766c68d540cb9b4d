import SourceDocs.Proofs.Synthesis.Cancellation

set_option autoImplicit false

/-! # Progress of a run: one event for every request that ends

Requests about chunks end in any order, and each is told with the number of those that have ended by
then; the requests about the corpus end when the plan has ended (`Stage`). So at every moment of a
run its progress is a beginning of one list of events, and the ways in which a run is complete
(`Finished`) say how far that list goes. A clock tells the events of each step after the step. A
service that records what it is told (`Service.recorded`) changes nothing else, and what it has
recorded in the end is the progress of the run (`run_drive_recorded`). -/

namespace SourceDocs

/-- Whether a request is about a chunk. -/
def SettledJob.isAboutChunk (s : SettledJob) : Bool := s.job.chunk.isSome

namespace Run

variable {plan : List Job} {r r' : Run} {es : List Event} {kind : ArtifactKind}

/-- The progress of a plan of `total` requests, `n` of which have ended. -/
def chunkProgress (total n : Nat) : List ProgressEvent :=
  (List.range' 1 n).map fun i => .generating "chunks" i total

/-- The progress of the requests about the corpus. -/
def corpusProgress : List ProgressEvent :=
  [.generating "combined_summary" 1 1, .generating "combined" 1 1]

/-- A request of a kind has ended in a text. -/
def Gave (r : Run) (kind : ArtifactKind) : Prop :=
  ∃ s ∈ r.settled, s.job.kind = kind ∧ ∃ text, s.outcome = .ok text

theorem gave_iff : r.Gave kind ↔ r.textsOf kind ≠ [] := by
  constructor
  · rintro ⟨s, hs, hkind, text, hok⟩
    exact List.ne_nil_of_mem (mem_textsOf.2 ⟨s, hs, hkind, hok⟩)
  · intro hne
    obtain ⟨text, htext⟩ := List.exists_mem_of_ne_nil _ hne
    obtain ⟨s, hs, hkind, hok⟩ := mem_textsOf.1 htext
    exact ⟨s, hs, hkind, text, hok⟩

instance : Decidable (r.Gave kind) := decidable_of_iff _ gave_iff.symm

/-- The progress of a complete run with a plan of `total` requests: all of these, the summary of all
    summaries if there is a summary, and the document of all documents if that summary was given. -/
def fullProgress (total : Nat) (r : Run) : List ProgressEvent :=
  chunkProgress total total ++
    (if r.options.hierarchical = true ∧ r.Gave .summary then
      [.generating "combined_summary" 1 1] else []) ++
    (if r.Gave .combinedSummary then [.generating "combined" 1 1] else [])

/-! ## Progress of lists of requests -/

section Lists

variable {ss : List SettledJob}

theorem length_progressOf (planned ended : Nat) (ss : List SettledJob) :
    (progressOf planned ended ss).length = ss.length := by
  induction ss generalizing ended with
  | nil => rfl
  | cons s rest ih =>
    rw [progressOf]
    split <;> rw [List.length_cons, ih, List.length_cons]

theorem progressOf_append (planned ended : Nat) (ss ts : List SettledJob) :
    progressOf planned ended (ss ++ ts) = progressOf planned ended ss ++
      progressOf planned (ended + ss.countP SettledJob.isAboutChunk) ts := by
  induction ss generalizing ended with
  | nil => rfl
  | cons s rest ih =>
    rw [List.cons_append, progressOf, progressOf]
    split
    · rename_i hchunk
      rw [ih, List.countP_cons_of_pos (p := SettledJob.isAboutChunk) hchunk, List.cons_append,
        Nat.add_right_comm, Nat.add_assoc]
    · rename_i hcorpus
      rw [ih, List.countP_cons_of_neg (p := SettledJob.isAboutChunk) hcorpus, List.cons_append]

/-- Requests about chunks are counted. -/
theorem progressOf_of_chunks (planned ended : Nat) (h : ∀ s ∈ ss, s.job.chunk.isSome = true) :
    progressOf planned ended ss =
      (List.range' (ended + 1) ss.length).map fun i => .generating "chunks" i planned := by
  induction ss generalizing ended with
  | nil => rfl
  | cons s rest ih =>
    rw [List.forall_mem_cons] at h
    rw [progressOf, if_pos h.1, ih _ h.2, List.length_cons, List.range'_succ, List.map_cons]

/-- Requests about the corpus stand alone. -/
theorem progressOf_of_corpus (planned ended : Nat) (h : ∀ s ∈ ss, s.job.chunk = none) :
    progressOf planned ended ss = ss.map fun s => .generating s.job.kind.label 1 1 := by
  induction ss generalizing ended with
  | nil => rfl
  | cons s rest ih =>
    rw [List.forall_mem_cons] at h
    rw [progressOf, if_neg (by simp [h.1]), ih _ h.2, List.map_cons]

end Lists

/-! ## Steps -/

theorem length_progress (r : Run) : r.progress.length = r.settled.length :=
  length_progressOf _ _ _

/-- **A step tells one event if a request ends in it, and else none**, however the request ends. -/
theorem Effect.progress (h : Effect r r') (hplanned : r'.planned = r.planned) :
    (r'.settled = r.settled ∧ r'.progress = r.progress) ∨
      ∃ s told, r'.settled = r.settled ++ [s] ∧ r'.progress = r.progress ++ [told] := by
  have hsame : r'.settled = r.settled → r'.progress = r.progress := fun hsettled => by
    rw [Run.progress, Run.progress, hplanned, hsettled]
  cases h with
  | keeps _ hsettled => exact .inl ⟨hsettled, hsame hsettled⟩
  | settles s _ hsettled =>
    have happend := progressOf_append r.planned 0 r.settled [s]
    obtain ⟨told, htold⟩ := List.length_eq_one_iff.1
      (length_progressOf r.planned (0 + r.settled.countP SettledJob.isAboutChunk) [s])
    rw [htold, ← hsettled, ← hplanned] at happend
    exact .inr ⟨s, told, hsettled, happend.trans (by rw [Run.progress, hplanned])⟩
  | reduces _ _ _ _ hsettled => exact .inl ⟨hsettled, hsame hsettled⟩

/-- What has been told is not taken back. -/
theorem Step.progress_mono {e : Event} (h : Step r e r') : r.progress <+: r'.progress := by
  obtain ⟨later, hlater⟩ := h.settled_mono
  rw [progress, progress, ← hlater, h.frame.2, progressOf_append]
  exact List.prefix_append _ _

/-! ## Stages -/

theorem progress_of_chunks (h : ∀ s ∈ r.settled, s.job.chunk.isSome = true) :
    r.progress = chunkProgress r.planned r.settled.length :=
  progressOf_of_chunks _ _ h

theorem job_mem_of_entry {s : SettledJob} (h : s.entry ∈ numbered 0 plan) : s.job ∈ plan :=
  List.mem_of_getElem? (mem_numbered.1 h).2

theorem Ended.job_mem {ended : List SettledJob} (h : Ended plan ended) {s : SettledJob}
    (hs : s ∈ ended) : s.job ∈ plan :=
  job_mem_of_entry (h.mem_iff.1 (List.mem_map_of_mem hs))

/-- When the plan has ended, all of it has been counted, and each request about the corpus adds the
    event of its kind. -/
theorem progress_of_ended {ended corpus : List SettledJob} (hplanned : r.planned = plan.length)
    (hplan : ∀ job ∈ plan, job.chunk.isSome = true) (hended : Ended plan ended)
    (hsettled : r.settled = ended ++ corpus) (hcorpus : ∀ s ∈ corpus, s.job.chunk = none) :
    r.progress = chunkProgress plan.length plan.length ++
      corpus.map fun s => .generating s.job.kind.label 1 1 := by
  have hchunks : ∀ s ∈ ended, s.job.chunk.isSome = true := fun s hs => hplan _ (hended.job_mem hs)
  rw [progress, hsettled, progressOf_append, progressOf_of_chunks _ _ hchunks,
    progressOf_of_corpus _ _ hcorpus, hplanned, hended.length]
  rfl

/-- **The progress of a run at any moment**: as many requests of the plan as have ended, and after
    all of them those about the corpus. -/
theorem Stage.progress_eq (h : Stage plan r) (hplanned : r.planned = plan.length)
    (hplan : ∀ job ∈ plan, job.chunk.isSome = true) :
    r.progress = chunkProgress plan.length (min r.settled.length plan.length) ++
      corpusProgress.take (r.settled.length - plan.length) := by
  -- after the plan, the requests about the corpus that have ended are a beginning of the two
  have hafter : ∀ {ended corpus : List SettledJob}, Ended plan ended →
      r.settled = ended ++ corpus → (∀ s ∈ corpus, s.job.chunk = none) →
      (corpus.map fun s => .generating s.job.kind.label 1 1) = corpusProgress.take corpus.length →
      r.progress = chunkProgress plan.length (min r.settled.length plan.length) ++
        corpusProgress.take (r.settled.length - plan.length) := by
    intro ended corpus hended hsettled hcorpus hlabels
    have hlength : r.settled.length = plan.length + corpus.length := by
      rw [hsettled, List.length_append, hended.length]
    rw [progress_of_ended hplanned hplan hended hsettled hcorpus, hlabels, hlength,
      Nat.min_eq_right (Nat.le_add_right _ _), Nat.add_sub_cancel_left]
  cases h with
  | chunks hentries =>
    have hle : r.settled.length ≤ plan.length := by
      have hlength := hentries.length_eq
      rw [List.length_append, List.length_map, length_numbered] at hlength
      omega
    have hchunks : ∀ s ∈ r.settled, s.job.chunk.isSome = true := fun s hs =>
      hplan _ (job_mem_of_entry
        (hentries.mem_iff.1 (List.mem_append_right _ (List.mem_map_of_mem hs))))
    rw [progress_of_chunks hchunks, hplanned, Nat.min_eq_left hle, Nat.sub_eq_zero_of_le hle,
      List.take_zero, List.append_nil]
  | summarizing ended hred _ hsettled =>
    exact @hafter ended [] hred.hended (by rw [hsettled, List.append_nil]) nofun rfl
  | summarized ended s hred hs _ hsettled =>
    have hjob := job_of_entry hs
    refine hafter hred.hended hsettled (by simp [hjob, summaryJob]) ?_
    simp [hjob, summaryJob, corpusProgress, ArtifactKind.label]
  | documenting ended s highLevel hred hs _ _ hsettled =>
    have hjob := job_of_entry hs
    refine hafter hred.hended hsettled (by simp [hjob, summaryJob]) ?_
    simp [hjob, summaryJob, corpusProgress, ArtifactKind.label]
  | documented ended s t highLevel hred hs _ ht _ hsettled =>
    have hs := job_of_entry hs
    have ht := job_of_entry ht
    refine hafter hred.hended hsettled (by simp [hs, ht, summaryJob, documentJob]) ?_
    simp [hs, ht, summaryJob, documentJob, corpusProgress, ArtifactKind.label]

/-! ## Complete runs -/

section Jobs

variable {hierarchical : Bool} {cs : List Chunk} {stores : ContextStores}

theorem chunk_of_mem_jobs {job : Job} (h : job ∈ jobs hierarchical cs stores) :
    job.chunk.isSome = true := by
  obtain ⟨c, place, kind, -, -, rfl⟩ := mem_jobs.1 h
  rfl

/-- No request of a plan is for the summary of all summaries. -/
theorem Ended.kind_ne {ended : List SettledJob} (h : Ended (jobs hierarchical cs stores) ended)
    {s : SettledJob} (hs : s ∈ ended) : s.job.kind ≠ .combinedSummary := fun hkind =>
  (not_mem_chunkKinds hierarchical).1 (hkind ▸ kind_of_mem_jobs (h.job_mem hs))

/-- A plan that has ended with summaries gave one. -/
theorem Reducing.gave_summary {ended corpus : List SettledJob} (h : Reducing plan r ended)
    (hsettled : r.settled = ended ++ corpus) : r.Gave .summary := by
  obtain ⟨text, htext⟩ := List.exists_mem_of_ne_nil _ h.hsummaries
  obtain ⟨s, hs, hkind, hok⟩ := mem_textsIn.1 htext
  exact ⟨s, hsettled ▸ List.mem_append_left _ (mem_inPlanOrder.1 hs), hkind, text, hok⟩

/-- **The progress of a complete run** is told by what its plan and the summary of all summaries
    gave. -/
theorem Finished.progress_eq (h : Finished (jobs hierarchical cs stores) r)
    (hplanned : r.planned = (jobs hierarchical cs stores).length) :
    r.progress = r.fullProgress (jobs hierarchical cs stores).length := by
  have hplan : ∀ job ∈ jobs hierarchical cs stores, job.chunk.isSome = true := fun _ =>
    chunk_of_mem_jobs
  have hnoSummary : ∀ {ended : List SettledJob}, Ended (jobs hierarchical cs stores) ended →
      r.settled = ended → ¬ r.Gave .combinedSummary := by
    rintro ended hended rfl ⟨s, hs, hkind, -⟩
    exact hended.kind_ne hs hkind
  cases h with
  | flat hended hflat =>
    rw [fullProgress, if_neg (by simp [hflat]), if_neg (hnoSummary hended rfl),
      progress_of_ended hplanned hplan hended (List.append_nil _).symm nofun]
    simp
  | noSummary hended _ hnone =>
    have hnotGave : ¬ r.Gave .summary := by
      rw [gave_iff, textsOf_eq, hended.ordered_settled hplanned, hnone]
      exact fun hne => hne rfl
    rw [fullProgress, if_neg fun hgave => hnotGave hgave.2, if_neg (hnoSummary hended rfl),
      progress_of_ended hplanned hplan hended (List.append_nil _).symm nofun]
    simp
  | noDocument ended s f hred hs hfailed hsettled =>
    have hjob := job_of_entry hs
    have hnotGave : ¬ r.Gave .combinedSummary := by
      rintro ⟨t, ht, hkind, text, hok⟩
      rw [hsettled, List.mem_append, List.mem_singleton] at ht
      rcases ht with ht | rfl
      · exact hred.hended.kind_ne ht hkind
      · rw [hfailed] at hok
        cases hok
    rw [fullProgress, if_pos ⟨hred.hhierarchical, hred.gave_summary hsettled⟩, if_neg hnotGave,
      progress_of_ended hplanned hplan hred.hended hsettled (by simp [hjob, summaryJob])]
    simp [hjob, summaryJob, ArtifactKind.label]
  | document ended s t highLevel hred hs hhigh ht hsettled =>
    have hjob := job_of_entry hs
    have hjob' := job_of_entry ht
    have hgave : r.Gave .combinedSummary :=
      ⟨s, by simp [hsettled], by rw [hjob]; rfl, highLevel, hhigh⟩
    rw [fullProgress, if_pos ⟨hred.hhierarchical, hred.gave_summary hsettled⟩, if_pos hgave,
      progress_of_ended hplanned hplan hred.hended hsettled
        (by simp [hjob, hjob', summaryJob, documentJob])]
    simp [hjob, hjob', summaryJob, documentJob, ArtifactKind.label]

end Jobs

end Run

/-! ## Under a clock -/

/-- The service that also records what it is told about the progress. -/
def Service.recorded {m : Type → Type} [Monad m] (service : Service m) :
    Service (StateT (List ProgressEvent) m) where
  generator :=
    { modelName := service.generator.modelName
      answer := fun prompt => liftM (service.generator.answer prompt) }
  latency := service.latency
  sleep := fun time => liftM (service.sleep time)
  report := fun event => do
    liftM (service.report event)
    modify (· ++ [event])

@[simp] theorem Service.recorded_latency {m : Type → Type} [Monad m] (service : Service m) :
    service.recorded.latency = service.latency := rfl

section Recorded

variable {m : Type → Type} [Monad m] [LawfulMonad m] (service : Service m)

@[simp] theorem Service.run_recorded_answer (prompt : String) (told : List ProgressEvent) :
    (service.recorded.generator.answer prompt).run told =
      (fun reply => (reply, told)) <$> service.generator.answer prompt := by
  simp [recorded]

@[simp] theorem Service.run_recorded_sleep (time : Nat) (told : List ProgressEvent) :
    (service.recorded.sleep time).run told = (fun _ => ((), told)) <$> service.sleep time := by
  simp [recorded]

@[simp] theorem Service.run_recorded_report (event : ProgressEvent) (told : List ProgressEvent) :
    (service.recorded.report event).run told =
      (fun _ => ((), told ++ [event])) <$> service.report event := by
  simp [recorded]

namespace ClockedRun

open Run

theorem settled_checkCancel (s : ClockedRun) : s.checkCancel.run.settled = s.run.settled := by
  unfold checkCancel
  split <;> rfl

/-- Events that are told one after the other are recorded one after the other. -/
theorem run_forM_report (events told : List ProgressEvent) :
    (events.forM service.recorded.report).run told =
      (fun _ => ((), told ++ events)) <$> events.forM service.report := by
  induction events generalizing told with
  | nil => simp
  | cons event rest ih =>
    simp only [List.forM_eq_forM] at ih
    simp [ih]

theorem run_proceed_recorded (s : ClockedRun) (number : Nat) (told : List ProgressEvent) :
    (proceed service.recorded s number).run told =
      (fun s' => (s', told)) <$> proceed service s number := by
  unfold proceed
  split
  · split
    · simp
    · split <;> simp
  · simp only [StateT.run_bind, Service.run_recorded_answer, bind_map_left, map_bind]
    refine bind_congr fun reply => ?_
    split
    · simp
    · split <;> simp
  · simp

theorem run_step?_recorded (s : ClockedRun) (told : List ProgressEvent) :
    (step? service.recorded s).run told = (fun next => (next, told)) <$> step? service s := by
  unfold step?
  split
  · simp
  · split
    · simp [run_proceed_recorded]
    · split <;> simp

/-- What has been told at a moment is a beginning of what is told later. -/
theorem lasts_progress (told : List ProgressEvent) : Lasts fun s => told <+: s.run.progress :=
  lasts_of_run (P := fun r => told <+: r.progress) fun hstep h => h.trans hstep.progress_mono

theorem drop_append_drop {α : Type} {as bs : List α} {n : Nat} (h : as <+: bs)
    (hn : n ≤ as.length) : as.drop n ++ bs.drop as.length = bs.drop n := by
  obtain ⟨rest, rfl⟩ := h
  rw [List.drop_left, List.drop_append_of_le_length hn]

/-- What is told from a moment on is the progress that comes after it. -/
theorem run_steps_recorded (n : Nat) (s : ClockedRun) (told : List ProgressEvent) :
    (steps service.recorded n s).run told =
      (fun s' => (s', told ++ s'.run.progress.drop s.run.settled.length)) <$> steps service n s := by
  induction n generalizing s told with
  | zero => simp [steps, ← Run.length_progress]
  | succ n ih =>
    rw [steps, steps, StateT.run_bind, run_step?_recorded, bind_map_left, map_bind]
    refine ((lasts_progress s.run.progress).gives_step? service List.prefix_rfl).bind_eq
      fun next hnext => ?_
    cases next with
    | none => simp [← Run.length_progress]
    | some s' =>
      -- this step tells what is new in `s'`, and the others what comes after that
      simp only [announce, StateT.run_bind, run_forM_report, bind_map_left, map_bind, ih]
      refine bind_congr fun _ => ?_
      refine ((lasts_progress s'.run.progress).gives_steps service n List.prefix_rfl).map_eq
        fun t ht => ?_
      have hle : s.run.settled.length ≤ s'.run.progress.length := by
        rw [← Run.length_progress]
        exact (hnext s' rfl).length_le
      rw [List.append_assoc, ← Run.length_progress s'.run, drop_append_drop ht hle]

end ClockedRun

namespace Run

/-- **What a run under a clock tells is its progress**, and recording it changes nothing about the
    run. -/
theorem run_drive_recorded (options : SynthesisOptions) (cs : List Chunk) (stores : ContextStores)
    (cancellation : Cancellation) :
    ((start options cs stores).drive service.recorded cancellation).run [] =
      (fun s => (s, s.run.progress)) <$> (start options cs stores).drive service cancellation := by
  let first : ClockedRun := { run := start options cs stores, cancellation }
  have hnone : first.checkCancel.run.settled = [] := ClockedRun.settled_checkCancel first
  rw [drive, drive, ClockedRun.run_steps_recorded, hnone]
  simp only [List.length_nil, List.drop_zero, List.nil_append]

end Run

end Recorded

namespace Run

/-! ## Every run -/

/-- **Progress is exact**, in whatever order things happen. An event tells something if a request
    ends in it, and then one thing, however the request ends. At every moment the requests of the
    plan are counted from one to as many as have ended, and those about the corpus follow the last
    of them; a complete run has told of the whole plan, of the summary of all summaries if there is
    a summary, and of the document of all documents if that summary was given. Under a clock this is
    what the run tells, event by event. -/
theorem progress_exact (options : SynthesisOptions) (cs : List Chunk) (stores : ContextStores)
    (hmax : 1 ≤ options.maxConcurrency) :
    let total := (jobs options.hierarchical cs stores).length
    Terminates (start options cs stores) (start options cs stores).potential ∧
      (∀ es r, (start options cs stores).after? es = some r →
        (∀ e r', r.next? e = some r' →
          (r'.settled = r.settled ∧ r'.progress = r.progress) ∨
            ∃ s told, r'.settled = r.settled ++ [s] ∧ r'.progress = r.progress ++ [told]) ∧
        r.progress = chunkProgress total (min r.settled.length total) ++
          corpusProgress.take (r.settled.length - total) ∧
        (r.isComplete = true → r.progress = r.fullProgress total)) ∧
      ∀ (m : Type → Type) [Monad m] [LawfulMonad m] (service : Service m)
        (cancellation : Cancellation),
        ((start options cs stores).drive service.recorded cancellation).run [] =
            (fun s => (s, s.run.progress)) <$>
              (start options cs stores).drive service cancellation ∧
          Gives (fun out => out.2 = out.1.run.fullProgress total)
            (((start options cs stores).drive service.recorded cancellation).run []) := by
  intro total
  refine ⟨terminates_start hmax, fun es r h => ?_, fun m _ _ service cancellation => ?_⟩
  · have hstage := stage_of_start h
    have hplanned := (frame_of_start h).2
    refine ⟨fun e r' hnext => ?_, hstage.progress_eq hplanned fun _ => chunk_of_mem_jobs,
      fun hdone => (finished_of_start h hdone).progress_eq hplanned⟩
    have hstep := Step.of_next? hnext
    exact (hstep.effect hstage.nodup_active).progress hstep.frame.2
  · have hrecorded := run_drive_recorded service options cs stores cancellation
    refine ⟨hrecorded, ?_⟩
    rw [hrecorded, map_eq_pure_bind]
    refine (gives_drive service cancellation options cs stores hmax).bind ?_
    rintro s ⟨hdone, es, hes, -⟩
    exact .of_pure ((finished_of_start hes hdone).progress_eq (frame_of_start hes).2)

/-- The twins count to four and tell of the summary of all summaries, even if that is given up. -/
theorem twin_progress_exact :
    1 ≤ pairOptions.maxConcurrency ∧
      ∃ r, (start pairOptions twinChunks {}).after?
          (twinEvents ++ [.reduce, .cancel, .begin, .resume 4]) = some r ∧
        r.isComplete = true ∧ r.progress = r.fullProgress 4 ∧
        r.progress = [.generating "chunks" 1 4, .generating "chunks" 2 4, .generating "chunks" 3 4,
          .generating "chunks" 4 4, .generating "combined_summary" 1 1] := by
  have hmax : 1 ≤ pairOptions.maxConcurrency := by decide
  obtain ⟨r, hr, hdone, hlength⟩ : ∃ r, (start pairOptions twinChunks {}).after?
      (twinEvents ++ [.reduce, .cancel, .begin, .resume 4]) = some r ∧ r.isComplete = true ∧
        r.settled.length = 5 := by
    exact ⟨_,
      after?_append_reduce rfl rfl rfl rfl rfl (List.mem_of_getElem? (i := 0) rfl) rfl rfl rfl, rfl,
      rfl⟩
  obtain ⟨-, hprogress, hfull⟩ := (progress_exact pairOptions twinChunks {} hmax).2.1 _ r hr
  rw [hlength] at hprogress
  exact ⟨hmax, r, hr, hdone, hfull hdone, hprogress⟩

end Run

end SourceDocs
