import SourceDocs.Proofs.Command.Document
import SourceDocs.Proofs.Scan.Partition
import SourceDocs.Proofs.Synthesis.Smooth

set_option autoImplicit false

/-! # Dry runs: the number of requests that is shown

The command prepares a plan (`Config.prepare`), which a dry run shows and a real one carries out. A
dry run counts the requests about chunks. A real run in which every call succeeds makes one call for
each of these, and two more about the corpus where summaries are combined
(`Config.dry_run_omits_corpus_requests`). -/

namespace SourceDocs

open MemoryHost

variable {answer : HttpRequest → HttpReply} {mode : ProgressMode} {rules : Classifier}
  {s t : MemoryHost} {c : Config} {d : DirectorySource} {tree : WalkTree}

/-- The number of requests about the corpus that are made if no other fails. -/
def DocumentPlan.corpusRequestCount (p : DocumentPlan) : Nat :=
  if p.synthesis.hierarchical ∧ p.chunks ≠ [] then 2 else 0

namespace Config

/-- What is known before anything is generated. -/
structure Prepared where
  plan : DocumentPlan
  rules : Classifier
  localRoot : Option String

/-! ## Both ways of the command -/

section Parts

variable {m : Type → Type} [Monad m]

/-- Reads the corpus and makes the plan. -/
def prepare (host : Host m) (mode : ProgressMode) (c : Config) (hierarchical fromSnapshot : Bool) :
    Hosted m Prepared := do
  let rules ← ExceptT.mk (pure c.classifier)
  let (corpus, skipped, localRoot) ← corpusFor host mode c rules fromSnapshot
  return { plan := .ofCorpus c hierarchical corpus skipped, rules, localRoot }

theorem document_dryRun_eq [LawfulMonad m] (host : Host m) (mode : ProgressMode) (c : Config)
    (hierarchical fromSnapshot : Bool) :
    c.document host mode { hierarchical, fromSnapshot, dryRun := true } = (do
      let p ← prepare host mode c hierarchical fromSnapshot
      host.printLines (p.plan.dryRunLines c.source.location)) := by
  unfold document prepare
  simp

theorem draft_eq [LawfulMonad m] (host : Host m) (mode : ProgressMode) (c : Config)
    (hierarchical fromSnapshot : Bool) :
    draft host mode c hierarchical fromSnapshot = (do
      let p ← prepare host mode c hierarchical fromSnapshot
      let stores ← (storesFor host c p.rules p.localRoot : m ContextStores)
      generate host mode c p.plan stores) := by
  unfold draft prepare
  simp

end Parts

/-! ## What is shown and what is done -/

variable {p : Prepared} {hierarchical fromSnapshot : Bool}

theorem run_document_dryRun
    (hprepared : (prepare (answering answer) mode c hierarchical fromSnapshot).run.run s =
      (.ok p, t)) :
    (c.document (answering answer) mode
      { hierarchical, fromSnapshot, dryRun := true }).run.run s =
      (.ok (), { t with output := t.output ++ p.plan.dryRunLines c.source.location }) := by
  rw [document_dryRun_eq, run_bind_ok hprepared]
  exact run_lift (run_printLines _ _)

theorem getLast?_dryRunLines (plan : DocumentPlan) (location : String) :
    (plan.dryRunLines location).getLast? =
      some ("  generation requests: " ++ toString plan.requestCount) := by
  rw [DocumentPlan.dryRunLines, List.getLast?_append, List.getLast?_singleton]
  rfl

/-- A plan allows at least one request at a time. -/
theorem maxConcurrency_of_prepare
    (hprepared : (prepare (answering answer) mode c hierarchical fromSnapshot).run.run s =
      (.ok p, t)) : 1 ≤ p.plan.synthesis.maxConcurrency := by
  obtain ⟨rules, s₁, -, hrest⟩ := of_run_bind_eq_ok hprepared
  obtain ⟨⟨corpus, skipped, localRoot⟩, s₂, -, hplan⟩ := of_run_bind_eq_ok hrest
  cases hplan
  exact Nat.le_max_right _ _

/-- A run whose service answers every prompt with a text makes one call for each request. -/
theorem length_calls_of_drive {plan : DocumentPlan} {stores : ContextStores} {q : Provider}
    {finish : ClockedRun} (hmax : 1 ≤ plan.synthesis.maxConcurrency)
    (htexts : ∀ prompt, ∃ text, replyOf answer q prompt = .ok text)
    (hrun : ((Run.start plan.synthesis plan.chunks stores).drive
      (serviceOf (answering answer) mode q) .never).run s = (finish, t)) :
    finish.run.isComplete = true ∧
      finish.run.calls.length = plan.requestCount + plan.corpusRequestCount := by
  obtain ⟨hdone, hcame, -⟩ := isComplete_of_drive "" hmax hrun
  obtain ⟨es, hes, hsmooth⟩ := hcame.exists_smooth htexts
  exact ⟨hdone, Run.length_calls_of_smooth hes hsmooth hdone⟩

/-- What a real run comes to after the plan is made, if there is a provider. -/
theorem run_draft_ok {stores : ContextStores} {u : MemoryHost} {q : Provider}
    (hprepared : (prepare (answering answer) mode c hierarchical fromSnapshot).run.run s =
      (.ok p, t))
    (hstores : (storesFor (answering answer) c p.rules p.localRoot).run t = (stores, u))
    (hprovider : c.providerIn u.environment = .ok q)
    (htexts : ∀ prompt, ∃ text, replyOf answer q prompt = .ok text) :
    ∃ g v, (draft (answering answer) mode c hierarchical fromSnapshot).run.run s = (.ok g, v) ∧
      g.plan = p.plan ∧ g.finish.isComplete = true ∧
      g.finish.calls.length = p.plan.requestCount + p.plan.corpusRequestCount := by
  obtain ⟨finish, v, hrun⟩ : ∃ finish v,
      ((Run.start p.plan.synthesis p.plan.chunks stores).drive
        (serviceOf (answering answer) mode q) .never).run u = (finish, v) := ⟨_, _, rfl⟩
  obtain ⟨hdone, hcalls⟩ :=
    length_calls_of_drive (maxConcurrency_of_prepare hprepared) htexts hrun
  rw [draft_eq, run_bind_ok hprepared, run_bind_ok (run_lift hstores)]
  exact ⟨_, v, run_generate_ok hprovider hrun, rfl, hdone, hcalls⟩

theorem run_draft_of_prepare
    (hprepared : (prepare (answering answer) mode c hierarchical fromSnapshot).run.run s =
      (.ok p, t))
    (htexts : ∀ environment q, c.providerIn environment = .ok q →
      ∀ prompt, ∃ text, replyOf answer q prompt = .ok text) :
    (∃ e u, (draft (answering answer) mode c hierarchical fromSnapshot).run.run s =
      (.error (.provider e), u)) ∨
    ∃ g u, (draft (answering answer) mode c hierarchical fromSnapshot).run.run s = (.ok g, u) ∧
      g.plan = p.plan ∧ g.finish.isComplete = true ∧
      g.finish.calls.length = p.plan.requestCount + p.plan.corpusRequestCount := by
  obtain ⟨stores, u, hstores⟩ : ∃ stores u,
      (storesFor (answering answer) c p.rules p.localRoot).run t = (stores, u) := ⟨_, _, rfl⟩
  cases hprovider : c.providerIn u.environment with
  | error e =>
    rw [draft_eq, run_bind_ok hprepared, run_bind_ok (run_lift hstores)]
    exact .inl ⟨e, u, run_generate_error hprovider⟩
  | ok q => exact .inr (run_draft_ok hprepared hstores hprovider (htexts _ q hprovider))

/-- The plan for a directory whose corpus is not saved. -/
theorem run_prepare_directory (answer : HttpRequest → HttpReply) (mode : ProgressMode)
    (hierarchical : Bool) (hsource : c.source = .directory d) (hpath : c.output.corpus = none)
    (hrules : c.classifier = .ok rules)
    (htree : s.files.walk? d.followLinks d.root = some tree) :
    ∃ progress, (prepare (answering answer) mode c hierarchical false).run.run s =
      (.ok { plan := .ofCorpus c hierarchical (.ofTree rules d.root tree)
               (Ingestion.ofTree rules d.root tree).skipped
             rules, localRoot := some d.root }, { s with progress }) := by
  obtain ⟨progress, hingest⟩ := run_ingest answer mode rules d s
  rw [htree] at hingest
  have hcorpus : (corpusFor (answering answer) mode c rules false).run.run s =
      (.ok (.ofTree rules d.root tree, (Ingestion.ofTree rules d.root tree).skipped,
        some d.root), { s with progress }) := by
    unfold corpusFor
    rw [if_neg Bool.false_ne_true, hsource, run_bind_ok hingest, hpath]
    rfl
  refine ⟨progress, ?_⟩
  unfold prepare
  rw [run_bind_ok (run_classifier hrules s), run_bind_ok hcorpus]
  rfl

/-- **A dry run leaves out the requests about the corpus.** Once the plan is made, a dry run prints
    the number of requests about chunks last. The real run, if it has a provider and each call is
    answered with a text, makes that many calls and two more where summaries of chunks are combined.
    So the number is right in a flat run, and where there is nothing to document. -/
theorem dry_run_omits_corpus_requests (answer : HttpRequest → HttpReply) (mode : ProgressMode)
    (c : Config) (hierarchical fromSnapshot : Bool) (s t : MemoryHost) (p : Prepared)
    (hprepared : (prepare (answering answer) mode c hierarchical fromSnapshot).run.run s =
      (.ok p, t))
    (htexts : ∀ environment q, c.providerIn environment = .ok q →
      ∀ prompt, ∃ text, replyOf answer q prompt = .ok text) :
    ((c.document (answering answer) mode
        { hierarchical, fromSnapshot, dryRun := true }).run.run s =
      (.ok (), { t with output := t.output ++ p.plan.dryRunLines c.source.location }) ∧
      (p.plan.dryRunLines c.source.location).getLast? =
        some ("  generation requests: " ++ toString p.plan.requestCount)) ∧
    (c.document (answering answer) mode { hierarchical, fromSnapshot } = do
      publish (answering answer) c
        (← draft (answering answer) mode c hierarchical fromSnapshot).documentation) ∧
    ((∃ e u, (draft (answering answer) mode c hierarchical fromSnapshot).run.run s =
        (.error (.provider e), u)) ∨
      ∃ g u, (draft (answering answer) mode c hierarchical fromSnapshot).run.run s = (.ok g, u) ∧
        g.plan = p.plan ∧ g.finish.isComplete = true ∧
        g.finish.calls.length = p.plan.requestCount + p.plan.corpusRequestCount) :=
  ⟨⟨run_document_dryRun hprepared, getLast?_dryRunLines _ _⟩,
    document_eq _ mode c hierarchical fromSnapshot, run_draft_of_prepare hprepared htexts⟩

/-- The directory of `sampleHost` is documented, and no corpus is saved. -/
def directConfig : Config :=
  { source := .directory { root := "src" } }

/-- A service that has the same text for everything. -/
def textAnswer : HttpRequest → HttpReply :=
  fun _ => ServiceScript.chatReply "text"

theorem replyOf_textAnswer {environment : List (String × String)} {q : Provider}
    (hprovider : directConfig.providerIn environment = .ok q) (prompt : String) :
    replyOf textAnswer q prompt = .ok "text" := by
  cases q with
  | disabled =>
    unfold providerIn Provider.ofName at hprovider
    rw [if_neg (by decide), if_pos (by decide)] at hprovider
    split at hprovider
    · cases hprovider
    · split at hprovider <;> cases hprovider
  | chat client =>
    show ChatClient.readReply (ServiceScript.chatReply "text") = .ok "text"
    decide +kernel

/-- The plan for `sampleHost` has one chunk. -/
theorem run_prepare_sampleHost :
    ∃ p progress, (prepare (answering textAnswer) .off directConfig true false).run.run sampleHost =
        (.ok p, { sampleHost with progress }) ∧
      p.localRoot = some "src" ∧ p.plan.requestCount = 2 ∧ p.plan.corpusRequestCount = 2 := by
  have hrules : directConfig.classifier = .ok LocalSource.plainRules := rfl
  obtain ⟨progress, hprepared⟩ := run_prepare_directory (s := sampleHost) (d := { root := "src" })
    textAnswer .off true rfl rfl hrules (walk?_sampleHost [])
  exact ⟨_, progress, hprepared, rfl, by decide +kernel, by decide +kernel⟩

theorem dry_run_omits_corpus_requests_sampleHost :
    ∃ p t, (prepare (answering textAnswer) .off directConfig true false).run.run sampleHost =
        (.ok p, t) ∧
      (∀ environment q, directConfig.providerIn environment = .ok q →
        ∀ prompt, ∃ text, replyOf textAnswer q prompt = .ok text) ∧
      (p.plan.dryRunLines directConfig.source.location).getLast? =
        some "  generation requests: 2" := by
  obtain ⟨p, progress, hprepared, -, hcount, -⟩ := run_prepare_sampleHost
  have htexts : ∀ environment q, directConfig.providerIn environment = .ok q →
      ∀ prompt, ∃ text, replyOf textAnswer q prompt = .ok text :=
    fun environment q hprovider prompt => ⟨"text", replyOf_textAnswer hprovider prompt⟩
  obtain ⟨⟨-, hlast⟩, -⟩ := dry_run_omits_corpus_requests textAnswer .off directConfig true false
    sampleHost _ p hprepared htexts
  rw [hcount] at hlast
  exact ⟨p, _, hprepared, htexts, hlast⟩

/-- A dry run announces two requests. The real run makes four, all of which succeed at once. -/
theorem dry_run_differs_sampleHost :
    (∃ t, (directConfig.document (answering textAnswer) .off
        { hierarchical := true, dryRun := true }).run.run sampleHost = (.ok (), t) ∧
      t.output.getLast? = some "  generation requests: 2") ∧
    (∀ environment q, directConfig.providerIn environment = .ok q →
      ∀ prompt, replyOf textAnswer q prompt = .ok "text") ∧
    ∃ g t, (draft (answering textAnswer) .off directConfig true false).run.run sampleHost =
        (.ok g, t) ∧
      g.finish.isComplete = true ∧ g.finish.calls.length = 4 := by
  obtain ⟨p, progress, hprepared, hroot, hcount, hcorpus⟩ := run_prepare_sampleHost
  refine ⟨⟨_, run_document_dryRun hprepared, ?_⟩, fun _ _ => replyOf_textAnswer, ?_⟩
  · rw [List.getLast?_append, getLast?_dryRunLines, hcount]
    rfl
  · obtain ⟨stores, hstores⟩ := reads_storesFor textAnswer directConfig p.rules "src"
      sampleHost.files
    rw [← hroot] at hstores
    have hprovider : directConfig.providerIn sampleHost.environment = .ok _ := rfl
    obtain ⟨g, t, hdraft, -, hdone, hcalls⟩ := run_draft_ok hprepared (hstores _ rfl) hprovider
      fun prompt => ⟨"text", replyOf_textAnswer hprovider prompt⟩
    rw [hcount, hcorpus] at hcalls
    exact ⟨g, t, hdraft, hdone, hcalls⟩

end Config

end SourceDocs
