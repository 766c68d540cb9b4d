import SourceDocs.Command.Document
import SourceDocs.Proofs.Corpus.Snapshot
import SourceDocs.Proofs.MemoryHost
import SourceDocs.Proofs.Scan.Agreement
import SourceDocs.Proofs.Synthesis.Prompted

set_option autoImplicit false

/-! # Documenting from a snapshot and from the source

The command that documents a source takes its corpus from there or from the snapshot that was saved
before. Everything after that is one program (`Config.document_eq`), which a host with a reply for
each request runs alike from either corpus: the snapshot is read as the corpus that it was made of,
saving it again changes no file, and what has been told about the progress makes no difference
(`Config.document_from_snapshot`). -/

namespace SourceDocs

open MemoryHost

variable {answer : HttpRequest → HttpReply} {mode : ProgressMode} {rules : Classifier}
  {s t : MemoryHost} {c : Config} {d : DirectorySource} {tree : WalkTree} {path : String}

/-! ## Reading the source -/

theorem LocalSource.run_read {α : Type} (role : ScanRole) (root : String) (follow : Bool)
    (read : WalkTree → α) (s : MemoryHost) :
    (do return read (← LocalSource.tree (answering answer) role root follow) :
      Hosted (StateM MemoryHost) α).run.run s =
      (match s.files.walk? follow root with
        | none => .error (.noDirectory role root)
        | some tree => .ok (read tree), s) := by
  have hwalk : ((answering answer).walk root follow).run s = (s.files.walk? follow root, s) := rfl
  rw [LocalSource.run_tree, StateT.run_bind, hwalk]
  show StateT.run (match s.files.walk? follow root with
    | none => pure _
    | some tree => pure _) s = _
  cases s.files.walk? follow root with
  | none => rfl
  | some tree => rfl

/-- What is read from a directory in which a walk finds a tree. -/
def Ingestion.ofTree (rules : Classifier) (root : String) (tree : WalkTree) : Ingestion :=
  { files := (Scan.ingest rules tree).1, skipped := (Scan.ingest rules tree).2
    localRoot := some root }

/-- The corpus of a directory in which a walk finds a tree. -/
def Corpus.ofTree (rules : Classifier) (root : String) (tree : WalkTree) : Corpus :=
  .organize (Ingestion.ofTree rules root tree).files

theorem Corpus.unambiguous_ofTree (rules : Classifier) (root : String) (tree : WalkTree) :
    (Corpus.ofTree rules root tree).Unambiguous :=
  unambiguous_organizeBy fun f => Language.detect_ne f.path f.content

theorem run_ingest (answer : HttpRequest → HttpReply) (mode : ProgressMode) (rules : Classifier)
    (d : DirectorySource) (s : MemoryHost) :
    ∃ progress, ((SourceConfig.directory d).ingest (answering answer) mode rules).run.run s =
      (match s.files.walk? d.followLinks d.root with
        | none => .error (.noDirectory .source d.root)
        | some tree => .ok (.ofTree rules d.root tree), { s with progress }) := by
  obtain ⟨progress, hreport⟩ := run_report answer mode
    (.discovering ((SourceConfig.directory d).kind ++ ":" ++ (SourceConfig.directory d).location)) s
  refine ⟨progress, ?_⟩
  unfold SourceConfig.ingest
  rw [run_bind_ok (run_lift hreport)]
  exact LocalSource.run_read .source d.root d.followLinks (Ingestion.ofTree rules d.root)
    { s with progress }

theorem of_run_ingest {ingestion : Ingestion}
    (h : ((SourceConfig.directory d).ingest (answering answer) mode rules).run.run s =
      (.ok ingestion, t)) :
    ∃ tree progress, s.files.walk? d.followLinks d.root = some tree ∧
      ingestion = .ofTree rules d.root tree ∧ t = { s with progress } := by
  obtain ⟨progress, hrun⟩ := run_ingest answer mode rules d s
  rw [hrun] at h
  cases htree : s.files.walk? d.followLinks d.root with
  | none =>
    rw [htree] at h
    cases h
  | some tree =>
    rw [htree] at h
    cases h
    exact ⟨tree, progress, rfl, rfl, rfl⟩

theorem of_run_printLines {lines : List String}
    (h : (liftM ((answering answer).printLines lines) : Hosted (StateM MemoryHost) Unit).run.run s =
      (.ok (), t)) : ∃ output, t = { s with output } := by
  rw [run_lift (run_printLines lines s)] at h
  cases h
  exact ⟨_, rfl⟩

/-! ## What is generated -/

/-- What a run of the command comes to before it is published. -/
structure Generated where
  model : String
  plan : DocumentPlan
  stores : ContextStores
  /-- The finished run. -/
  finish : Run

namespace Generated

/-- The documentation that is published. -/
def documentation (g : Generated) : Documentation :=
  .ofRun g.model g.plan g.finish

/-- The run before its first event. -/
def start (g : Generated) : Run :=
  .start g.plan.synthesis g.plan.chunks g.stores

/-- The prompts that were sent. -/
def prompts (g : Generated) : List String :=
  g.finish.calls.map fun c => c.2.prompt

/-- The texts are those of a complete run in which each prompt has its reply, and of any other such
    run, whatever order things happen in. -/
structure IsComplete (reply : String → Reply) (g : Generated) : Prop where
  complete : g.finish.isComplete = true
  came : Run.CameBy reply g.start g.finish
  anyOrder : ∀ r, Run.CameBy reply g.start r → r.isComplete = true →
    r.artifacts = g.finish.artifacts ∧ r.failures = g.finish.failures ∧
      (r.calls.map fun c => c.2.prompt).Perm g.prompts

/-- What was generated from a snapshot, `g'`, is what was generated from the source, `g`, except
    that no files are reported as left out. -/
structure Agrees (g g' : Generated) : Prop where
  model : g'.model = g.model
  elements : g'.plan.corpus.elements = g.plan.corpus.elements
  chunks : g'.plan.chunks = g.plan.chunks
  prompts : g'.prompts = g.prompts
  artifacts : g'.documentation.artifacts = g.documentation.artifacts
  failures : g'.documentation.failures = g.documentation.failures
  report : g'.documentation.report = { g.documentation.report with skipped := .empty }

end Generated

namespace Config

/-! ## The command in parts -/

section Parts

variable {m : Type → Type} [Monad m]

/-- The stores that prompts are told from. -/
def storesFor (host : Host m) (c : Config) (rules : Classifier) (localRoot : Option String) :
    m ContextStores := do
  let metadata ← metadataFor host c rules localRoot
  let tree ← directoryTreeFor host c rules localRoot
  return { metadata, tree }

/-- The service that a provider and a host are to a run. -/
def serviceOf (host : Host m) (mode : ProgressMode) (p : Provider) : Service m :=
  { generator := p.generator host.send, latency := fun _ => 0, sleep := host.sleep
    report := host.report mode }

/-- Generates what a plan asks for. -/
def generate (host : Host m) (mode : ProgressMode) (c : Config) (plan : DocumentPlan)
    (stores : ContextStores) : Hosted m Generated := do
  let p ← provider host c.generation
  let finish ← ((Run.start plan.synthesis plan.chunks stores).drive (serviceOf host mode p) .never :
    m ClockedRun)
  return { model := (p.generator host.send).modelName, plan, stores, finish := finish.run }

/-- Reads the corpus and what prompts are told from, and generates. -/
def draft (host : Host m) (mode : ProgressMode) (c : Config) (hierarchical fromSnapshot : Bool) :
    Hosted m Generated := do
  let rules ← ExceptT.mk (pure c.classifier)
  let (corpus, skipped, localRoot) ← corpusFor host mode c rules fromSnapshot
  let stores ← (storesFor host c rules localRoot : m ContextStores)
  generate host mode c (.ofCorpus c hierarchical corpus skipped) stores

/-- Saves the documentation and tells about it. -/
def publish (host : Host m) (c : Config) (d : Documentation) : Hosted m Unit := do
  let path := c.output.documentation.getD "documentation.json"
  host.save path d.toJson.indentedText
  host.printLines (d.lines c.source.location path)

/-- The command publishes what it generates. -/
theorem document_eq [LawfulMonad m] (host : Host m) (mode : ProgressMode) (c : Config)
    (hierarchical fromSnapshot : Bool) :
    c.document host mode { hierarchical, fromSnapshot } = (do
      let generated ← draft host mode c hierarchical fromSnapshot
      publish host c generated.documentation) := by
  unfold document draft storesFor generate publish serviceOf
  simp [Generated.documentation]

/-- For a directory, it makes no difference whether its root is passed on. -/
theorem storesFor_directory (host : Host m) (hsource : c.source = .directory d) :
    storesFor host c rules (some d.root) = storesFor host c rules none := by
  unfold storesFor metadataFor directoryTreeFor
  rw [hsource]
  rfl

end Parts

/-! ## The corpus -/

theorem run_classifier (hrules : c.classifier = .ok rules) (s : MemoryHost) :
    (ExceptT.mk (pure c.classifier) : Hosted (StateM MemoryHost) Classifier).run.run s =
      (.ok rules, s) := by
  rw [hrules]
  rfl

/-- Grouping the files of a directory saves their corpus, if there is a file for it, and tells about
    itself. -/
theorem of_run_organize (hsource : c.source = .directory d) (hpath : c.output.corpus = some path)
    (h : (c.organize (answering answer) mode).run.run s = (.ok (), t)) :
    ∃ rules tree files progress output, c.classifier = .ok rules ∧
      s.files.walk? d.followLinks d.root = some tree ∧
      s.files.save? path (Corpus.ofTree rules d.root tree).snapshot.toUTF8 .epoch = some files ∧
      t = { s with files, progress, output } := by
  unfold organize at h
  obtain ⟨⟨corpus, ingestion⟩, s₁, hcorpus, h⟩ := of_run_bind_eq_ok h
  unfold Config.corpus at hcorpus
  obtain ⟨rules, s₂, hrules, hcorpus⟩ := of_run_bind_eq_ok hcorpus
  obtain ⟨hclassifier, rfl⟩ := Prod.mk.inj
    (show (c.classifier, s) = (Except.ok rules, s₂) from hrules)
  obtain ⟨ingestion', s₃, hingest, hcorpus⟩ := of_run_bind_eq_ok hcorpus
  rw [hsource] at hingest
  obtain ⟨tree, progress, htree, rfl, rfl⟩ := of_run_ingest hingest
  cases hcorpus
  obtain ⟨_, s₄, hprint, h⟩ := of_run_bind_eq_ok h
  obtain ⟨output, rfl⟩ := of_run_printLines hprint
  rw [hpath] at h
  dsimp only at h
  obtain ⟨_, s₅, hsave, h⟩ := of_run_bind_eq_ok h
  obtain ⟨files, hfiles, rfl⟩ := run_save_eq_ok.1 hsave
  cases h
  exact ⟨rules, tree, files, progress, _, hclassifier, htree, hfiles, rfl⟩

/-- It ends well if the files can be read and the corpus can be saved. -/
theorem run_organize (answer : HttpRequest → HttpReply) (mode : ProgressMode) {files : FileSystem}
    (hsource : c.source = .directory d) (hpath : c.output.corpus = some path)
    (hrules : c.classifier = .ok rules) (htree : s.files.walk? d.followLinks d.root = some tree)
    (hsave : s.files.save? path (Corpus.ofTree rules d.root tree).snapshot.toUTF8 .epoch =
      some files) :
    ∃ progress output, (c.organize (answering answer) mode).run.run s =
      (.ok (), { s with files, progress, output }) := by
  obtain ⟨progress, hingest⟩ := run_ingest answer mode rules d s
  rw [htree] at hingest
  have hcorpus : (c.corpus (answering answer) mode).run.run s =
      (.ok (.ofTree rules d.root tree, .ofTree rules d.root tree), { s with progress }) := by
    unfold Config.corpus
    rw [run_bind_ok (run_classifier hrules s), hsource]
    exact run_bind_ok hingest
  have hsaved : ∀ output, ((answering answer).save path
      (Corpus.ofTree rules d.root tree).snapshot).run.run { s with progress, output } =
        (.ok (), { s with files, progress, output }) :=
    fun output => run_save_eq_ok.2 ⟨files, hsave, rfl⟩
  unfold organize
  rw [run_bind_ok hcorpus]
  dsimp only
  rw [run_bind_ok (run_lift (run_printLines _ _)), hpath]
  dsimp only
  exact ⟨progress, _, run_bind_ok (hsaved _)⟩

/-- The corpus of the source is saved as before, so that only the progress changes. -/
theorem run_corpusFor_source (answer : HttpRequest → HttpReply) (mode : ProgressMode)
    (hsource : c.source = .directory d) (hpath : c.output.corpus = some path)
    (htree : s.files.walk? d.followLinks d.root = some tree)
    (hsave : s.files.save? path (Corpus.ofTree rules d.root tree).snapshot.toUTF8 .epoch =
      some s.files) :
    ∃ progress, (corpusFor (answering answer) mode c rules false).run.run s =
      (.ok (.ofTree rules d.root tree, (Ingestion.ofTree rules d.root tree).skipped, some d.root),
        { s with progress }) := by
  obtain ⟨progress, hrun⟩ := run_ingest answer mode rules d s
  rw [htree] at hrun
  refine ⟨progress, ?_⟩
  have hsaved : ((answering answer).save path
      (Corpus.ofTree rules d.root tree).snapshot).run.run { s with progress } =
        (.ok (), { s with progress }) :=
    run_save_eq_ok.2 ⟨s.files, hsave, rfl⟩
  unfold corpusFor
  rw [if_neg Bool.false_ne_true, hsource, run_bind_ok hrun, hpath]
  exact run_bind_ok hsaved

/-- The corpus of a snapshot is the one that it was made of. -/
theorem run_corpusFor_snapshot (answer : HttpRequest → HttpReply) (mode : ProgressMode)
    (rules : Classifier) {corpus : Corpus} (hpath : c.output.corpus = some path)
    (hread : s.files.read? path = some corpus.snapshot.toUTF8) (hcorpus : corpus.Unambiguous) :
    (corpusFor (answering answer) mode c rules true).run.run s = (.ok (corpus, [], none), s) := by
  have htext : ((answering answer).readText path).run s = (some corpus.snapshot, s) := by
    show ((s.files.read? path).bind Text.decode?, s) = _
    rw [hread, Option.bind_some, Text.decode?_toUTF8]
  unfold corpusFor
  rw [if_pos rfl, hpath]
  dsimp only
  rw [run_bind_ok (run_lift htext), Option.bind_some, Corpus.ofSnapshot?_snapshot hcorpus]
  rfl

/-! ## What prompts are told from -/

theorem reads_saved? {α : Type} (path : Option String) (parse : String → Option α) :
    Reads ((answering answer).saved? path parse) := by
  cases path with
  | none => exact .of_pure _
  | some path =>
    refine (reads_isFile path).bind fun found => ?_
    cases found with
    | false => exact .of_pure _
    | true => exact (reads_readText path).bind fun text => .of_pure _

theorem reads_getD {α : Type} (role : ScanRole) (root : String) (follow : Bool)
    (read : WalkTree → α) (otherwise : α) :
    Reads (Hosted.getD (do return read (← LocalSource.tree (answering answer) role root follow))
      otherwise) := by
  unfold Hosted.getD
  rw [LocalSource.run_tree]
  refine Reads.bind ((reads_walk root follow).bind fun found => ?_) fun r => ?_
  · cases found with
    | none => exact .of_pure _
    | some tree => exact .of_pure _
  · cases r with
    | ok a => exact .of_pure _
    | error e => exact .of_pure _

theorem reads_storesFor (answer : HttpRequest → HttpReply) (c : Config) (rules : Classifier)
    (root : String) : Reads (storesFor (answering answer) c rules (some root)) := by
  unfold storesFor
  refine Reads.bind ?_ fun metadata => Reads.bind ?_ fun tree => .of_pure _
  · refine (reads_saved? _ _).bind fun saved => ?_
    cases saved with
    | none => exact reads_getD .metadata root false (Scan.metadata rules) .empty
    | some store => exact .of_pure _
  · refine (reads_saved? _ _).bind fun saved => ?_
    cases saved with
    | none => exact reads_getD .tree root false (Scan.directoryTree rules) .empty
    | some tree => exact .of_pure _

/-! ## Generating -/

/-- The provider that a host with given environment variables has. -/
def providerIn (c : Config) (environment : List (String × String)) :
    Except ProviderError Provider :=
  Provider.ofName c.generation.provider c.generation.model c.generation.baseUrl
    (environment.lookup ProviderError.keyVariable)

/-- What a provider replies to each prompt when its service has a reply for each request. -/
def replyOf (answer : HttpRequest → HttpReply) : Provider → String → Reply
  | .disabled, _ => .error .disabled
  | .chat client, prompt => ChatClient.readReply (answer (client.request prompt))

variable {plan : DocumentPlan} {stores : ContextStores} {p : Provider} {finish : ClockedRun}

theorem run_provider (answer : HttpRequest → HttpReply) (c : Config) (s : MemoryHost) :
    (provider (answering answer) c.generation).run.run s =
      ((c.providerIn s.environment).mapError .provider, s) := rfl

/-- Without a provider there is nothing but a fault. -/
theorem run_generate_error {e : ProviderError} (h : c.providerIn s.environment = .error e) :
    (generate (answering answer) mode c plan stores).run.run s = (.error (.provider e), s) := by
  refine run_bind_error ?_
  rw [run_provider, h]
  rfl

theorem run_generate_ok (h : c.providerIn s.environment = .ok p)
    (hrun : ((Run.start plan.synthesis plan.chunks stores).drive
      (serviceOf (answering answer) mode p) .never).run s = (finish, t)) :
    (generate (answering answer) mode c plan stores).run.run s =
      (.ok { model := (p.generator (answering answer).send).modelName, plan, stores
             finish := finish.run }, t) := by
  have hprovider : (provider (answering answer) c.generation).run.run s = (.ok p, s) := by
    rw [run_provider, h]
    rfl
  unfold generate
  rw [run_bind_ok hprovider]
  exact run_bind_ok (run_lift hrun)

theorem gives_answer (answer : HttpRequest → HttpReply) (p : Provider) (prompt : String) :
    Gives (fun reply => reply = replyOf answer p prompt)
      ((p.generator (answering answer).send).answer prompt) := by
  cases p with
  | disabled => exact .of_pure rfl
  | chat client =>
    have hsend : Gives (fun reply => reply = answer (client.request prompt))
        ((answering answer).send (client.request prompt)) :=
      ⟨fun s => (⟨_, rfl⟩, { s with requests := s.requests ++ [client.request prompt] }), rfl⟩
    show Gives _ (ChatClient.readReply <$> _)
    rw [map_eq_pure_bind]
    exact hsend.bind fun reply hreply => .of_pure (congrArg _ hreply)

theorem serviceSkipsProgress (answer : HttpRequest → HttpReply) (mode : ProgressMode)
    (p : Provider) : ServiceSkipsProgress (serviceOf (answering answer) mode p) := by
  refine ⟨fun prompt => ?_, fun _ _ progress => ⟨progress, rfl⟩, skipsProgress_report mode⟩
  cases p with
  | disabled => exact .of_pure _
  | chat client => exact (skipsProgress_send _).map _

/-- What a finished run gives is decided by its start and the replies. -/
theorem isComplete_of_drive (model : String) (hmax : 1 ≤ plan.synthesis.maxConcurrency)
    (hrun : ((Run.start plan.synthesis plan.chunks stores).drive
      (serviceOf (answering answer) mode p) .never).run s = (finish, t)) :
    Generated.IsComplete (replyOf answer p) { model, plan, stores, finish := finish.run } := by
  have hdone := of_run_of_gives (Run.gives_drive (serviceOf (answering answer) mode p) .never
    plan.synthesis plan.chunks stores hmax) hrun
  have hcame := of_run_of_gives (ClockedRun.gives_cameBy_drive (gives_answer answer p)
    (Run.start plan.synthesis plan.chunks stores)) hrun
  refine ⟨hdone.1, hcame, fun r hr hcomplete => ?_⟩
  obtain ⟨hartifacts, hfailures, hcalls⟩ := Run.complete_runs_agree hcame hr hdone.1 hcomplete
  exact ⟨hartifacts, hfailures, hcalls.map _⟩

/-! ## The command from either corpus -/

theorem run_draft (hierarchical : Bool) {fromSnapshot : Bool} {corpus : Corpus}
    {skipped : List SkippedFile} {localRoot : Option String} (hrules : c.classifier = .ok rules)
    (hcorpus : (corpusFor (answering answer) mode c rules fromSnapshot).run.run s =
      (.ok (corpus, skipped, localRoot), t))
    (hstores : (storesFor (answering answer) c rules localRoot).run t = (stores, t)) :
    (draft (answering answer) mode c hierarchical fromSnapshot).run.run s =
      (generate (answering answer) mode c (.ofCorpus c hierarchical corpus skipped) stores).run.run
        t := by
  unfold draft
  rw [run_bind_ok (run_classifier hrules s), run_bind_ok hcorpus]
  exact run_bind_ok (run_lift hstores)

/-- **Documenting from a snapshot is documenting from the source.** After the files of a directory
    were grouped and their corpus was saved, which left what a walk finds in the directory as it
    was, the command ends from either with the same fault, if there is no provider, or else
    publishes the same texts for the same prompts. They are those of a complete run, whatever order
    things happen in, and the reports differ in the files that were left out, of which the snapshot
    tells nothing. -/
theorem document_from_snapshot (answer : HttpRequest → HttpReply) (mode : ProgressMode) (c : Config)
    (d : DirectorySource) (path : String) (hierarchical : Bool) (s s' : MemoryHost)
    (hsource : c.source = .directory d) (hpath : c.output.corpus = some path)
    (horganized : (c.organize (answering answer) mode).run.run s = (.ok (), s'))
    (hunchanged : s'.files.walk? d.followLinks d.root = s.files.walk? d.followLinks d.root) :
    (∀ fromSnapshot, c.document (answering answer) mode { hierarchical, fromSnapshot } = do
      publish (answering answer) c
        (← draft (answering answer) mode c hierarchical fromSnapshot).documentation) ∧
    match c.providerIn s'.environment with
    | .error e => ∀ fromSnapshot, ∃ t,
      (draft (answering answer) mode c hierarchical fromSnapshot).run.run s' =
        (.error (.provider e), t)
    | .ok p => ∃ g g' t t',
      (draft (answering answer) mode c hierarchical false).run.run s' = (.ok g, t) ∧
        (draft (answering answer) mode c hierarchical true).run.run s' = (.ok g', t') ∧
        g.IsComplete (replyOf answer p) ∧ g'.IsComplete (replyOf answer p) ∧
        g.Agrees g' ∧ t'.requests = t.requests := by
  refine ⟨fun fromSnapshot => document_eq _ mode c hierarchical fromSnapshot, ?_⟩
  obtain ⟨rules, tree, files, progress, output, hrules, htree, hsaved, hs'⟩ :=
    of_run_organize hsource hpath horganized
  rw [htree] at hunchanged
  obtain ⟨hagain, hread⟩ := FileSystem.save?_again hsaved
  obtain rfl : files = s'.files := by rw [hs']
  -- both ways lead to the same corpus and stores; the one from the source tells about its progress
  obtain ⟨told, hcorpus⟩ := run_corpusFor_source answer mode hsource hpath hunchanged hagain
  have hcorpus' := run_corpusFor_snapshot answer mode rules hpath hread
    (Corpus.unambiguous_ofTree rules d.root tree)
  obtain ⟨stores, hstores⟩ := reads_storesFor answer c rules d.root s'.files
  have hstores' : (storesFor (answering answer) c rules none).run s' = (stores, s') := by
    rw [← storesFor_directory _ hsource]
    exact hstores s' rfl
  have hdirect := run_draft hierarchical hrules hcorpus (hstores _ rfl)
  have hreused := run_draft hierarchical hrules hcorpus' hstores'
  cases hprovider : c.providerIn s'.environment with
  | error e =>
    intro fromSnapshot
    cases fromSnapshot with
    | false => exact ⟨_, hdirect.trans (run_generate_error hprovider)⟩
    | true => exact ⟨_, hreused.trans (run_generate_error hprovider)⟩
  | ok p =>
    dsimp only
    -- the runs start alike, and what was told before makes no difference to them
    let plan := DocumentPlan.ofCorpus c hierarchical (.ofTree rules d.root tree) []
    obtain ⟨finish, t', hrun'⟩ : ∃ finish t',
        ((Run.start plan.synthesis plan.chunks stores).drive
          (serviceOf (answering answer) mode p) .never).run s' = (finish, t') := ⟨_, _, rfl⟩
    obtain ⟨told', hrun⟩ := skipsProgress_drive (serviceSkipsProgress answer mode p) .never
      (Run.start plan.synthesis plan.chunks stores) s' told
    rw [hrun'] at hrun
    have hmax : 1 ≤ plan.synthesis.maxConcurrency := Nat.le_max_right _ _
    refine ⟨_, _, _, _, hdirect.trans (run_generate_ok hprovider hrun),
      hreused.trans (run_generate_ok hprovider hrun'), isComplete_of_drive _ hmax hrun,
      isComplete_of_drive _ hmax hrun', ?_, rfl⟩
    exact ⟨rfl, rfl, rfl, rfl, rfl, rfl, rfl⟩

/-- What is in the directory of `sampleHost`. -/
def sampleSource : List (FileName × FileNode) :=
  [(.text "a.py", .file "def f(): pass".toUTF8 .epoch)]

/-- A host with a directory and a key for the chat service. -/
def sampleHost : MemoryHost :=
  { files := ⟨[(.text "src", .directory sampleSource)]⟩
    environment := [(ProviderError.keyVariable, "key")] }

/-- Its configuration: the snapshot lies beside the directory. -/
def sampleConfig : Config :=
  { source := .directory { root := "src" }, output := { corpus := some "corpus.json" } }

theorem save?_sampleHost (content : ByteArray) :
    sampleHost.files.save? "corpus.json" content .epoch =
      some ⟨[(.text "src", .directory sampleSource), (.text "corpus.json", .file content .epoch)]⟩ := by
  have hparent : Path.parent? "corpus.json" = some "" := by decide +kernel
  have hsegments : FileName.segments "corpus.json" = [.text "corpus.json"] := by decide +kernel
  have hrelative : FileSystem.isRelative "corpus.json" = true := by decide +kernel
  have hname : (FileName.text "corpus.json" == .text "src") = false := by decide
  unfold FileSystem.save?
  rw [hparent]
  simp [FileSystem.makeDirectories?, FileSystem.write?, FileSystem.writeFrom?, hrelative, hsegments,
    FileSystem.placeFrom?, FileSystem.at?, FileNode.at?, List.lookup, hname, FileSystem.putAt,
    FileNode.putAt, FileNode.put, sampleHost]

theorem walk?_sampleHost (more : List (FileName × FileNode)) :
    FileSystem.walk? ⟨(.text "src", .directory sampleSource) :: more⟩ false "src" =
      some (FileNode.shownIn sampleSource) := by
  have hsegments : FileName.segments "src" = [.text "src"] := by decide +kernel
  have hrelative : FileSystem.isRelative "src" = true := by decide +kernel
  rw [FileSystem.walk?_eq_shownIn]
  simp [FileSystem.find?, FileSystem.resolve?, hsegments, hrelative, FileSystem.resolveFrom?,
    FileSystem.at?, FileNode.at?, List.lookup]

/-- The snapshot lies beside the directory, in which a walk finds what it found before. -/
theorem document_from_snapshot_sampleHost :
    ∃ s', (sampleConfig.organize (answering fun _ => ServiceScript.chatReply "text") .off).run.run
        sampleHost = (.ok (), s') ∧
      s'.files.walk? false "src" = sampleHost.files.walk? false "src" ∧
      ∃ g g' t t',
        (draft (answering fun _ => ServiceScript.chatReply "text") .off sampleConfig true
          false).run.run s' = (.ok g, t) ∧
        (draft (answering fun _ => ServiceScript.chatReply "text") .off sampleConfig true
          true).run.run s' = (.ok g', t') ∧
        g.Agrees g' ∧ t'.requests = t.requests := by
  obtain ⟨rules, hrules⟩ : ∃ rules, sampleConfig.classifier = .ok rules := ⟨_, rfl⟩
  obtain ⟨progress, output, horganized⟩ := run_organize (fun _ => ServiceScript.chatReply "text")
    .off rfl rfl hrules (walk?_sampleHost []) (save?_sampleHost _)
  have hunchanged : ∀ more, FileSystem.walk? ⟨(.text "src", .directory sampleSource) :: more⟩ false
      "src" = sampleHost.files.walk? false "src" :=
    fun more => (walk?_sampleHost more).trans (walk?_sampleHost []).symm
  have hboth := (document_from_snapshot _ .off sampleConfig { root := "src" } "corpus.json" true
    sampleHost _ rfl rfl horganized (hunchanged _)).2
  have hprovider : sampleConfig.providerIn sampleHost.environment = .ok _ := rfl
  dsimp only at hboth
  rw [hprovider] at hboth
  obtain ⟨g, g', t, t', hdirect, hreused, -, -, hagrees, hrequests⟩ := hboth
  exact ⟨_, horganized, hunchanged _, g, g', t, t', hdirect, hreused, hagrees, hrequests⟩

end Config

end SourceDocs
