import SourceDocs.Proofs.ObjectStore.Listing
import SourceDocs.Proofs.Scan.Partition

set_option autoImplicit false

/-! # Buckets as corpora: every listed object is accounted for

The objects of a listing are examined one after the other, and only those whose paths pass are
fetched. So the reply for an object is found by counting the objects before it that pass
(`ReplySequence.findings`), and what becomes of an object depends on no reply but its own
(`findings_withReply`). The files and what is left out are a partition of the listing
(`ingest_accounts`). -/

namespace SourceDocs

open Scan (findingPath)

/-! ## What becomes of an object -/

theorem HttpReply.content?_eq_some {reply : HttpReply} {body : ByteArray} :
    reply.content? = some body ↔
      ∃ status, reply = .response status body ∧ isSuccess status = true := by
  cases reply with
  | noConnection => simp [content?]
  | interrupted status => simp [content?]
  | response status body' => simp [content?, and_comm]

namespace StoredObject

/-- Whether the path of an object passes, seen from a prefix. -/
def passes (rules : Classifier) (keyPrefix : String) (o : StoredObject) : Bool :=
  (rules.checkPath? (BucketSource.relativeKey keyPrefix o.key)).isNone

/-- What becomes of an object, given the reply that it gets if it is fetched. -/
def treatment (rules : Classifier) (keyPrefix : String) (reply : HttpReply) (o : StoredObject) :
    Except SkippedFile SourceFile :=
  match rules.checkPath? (BucketSource.relativeKey keyPrefix o.key) with
  | some reason => .error { path := o.key, reason }
  | none => o.finding reply

/-- Why an object is left out, given the reply that it gets if it is fetched. -/
inductive LeftOut (rules : Classifier) (keyPrefix : String) (reply : HttpReply) (o : StoredObject) :
    SkipReason → Prop
  | path {reason : SkipReason} :
      rules.checkPath? (BucketSource.relativeKey keyPrefix o.key) = some reason →
      LeftOut rules keyPrefix reply o reason
  | unreadable : o.passes rules keyPrefix = true → reply.content? = none →
      LeftOut rules keyPrefix reply o .unreadable
  | content {body : ByteArray} {reason : SkipReason} :
      o.passes rules keyPrefix = true → reply.content? = some body →
      Classifier.classify o.key body = .error reason → LeftOut rules keyPrefix reply o reason

variable {rules : Classifier} {keyPrefix : String} {reply : HttpReply} {o : StoredObject}

theorem finding_eq_ok {f : SourceFile} :
    o.finding reply = .ok f ↔ f.path = o.key ∧ ∃ body, reply.content? = some body ∧
      Text.decode? body = some f.content ∧ Classifier.sniff? f.content = none := by
  unfold finding
  cases hreply : reply.content? with
  | none => simp
  | some body =>
    simp only [Option.some.injEq, exists_eq_left', ← Scan.classify_eq_ok]
    cases Classifier.classify o.key body with
    | ok g => simp
    | error reason => simp

theorem finding_eq_error {x : SkippedFile} :
    o.finding reply = .error x ↔ x.path = o.key ∧
      (reply.content? = none ∧ x.reason = .unreadable ∨
        ∃ body, reply.content? = some body ∧
          Classifier.classify o.key body = .error x.reason) := by
  obtain ⟨path, reason⟩ := x
  unfold finding
  cases hreply : reply.content? with
  | none => simp [eq_comm]
  | some body =>
    cases hresult : Classifier.classify o.key body with
    | ok g => simp [hresult]
    | error reason' => simp [hresult, eq_comm]

theorem passes_iff : o.passes rules keyPrefix = true ↔
    rules.checkPath? (BucketSource.relativeKey keyPrefix o.key) = none := by
  rw [passes, Option.isNone_iff_eq_none]

theorem treatment_of_passes (h : o.passes rules keyPrefix = true) :
    o.treatment rules keyPrefix reply = o.finding reply := by
  rw [treatment, passes_iff.1 h]

/-- The reply for an object that is not fetched does not matter. -/
theorem treatment_congr (reply' : HttpReply) (h : o.passes rules keyPrefix = false) :
    o.treatment rules keyPrefix reply = o.treatment rules keyPrefix reply' := by
  unfold treatment
  cases hcheck : rules.checkPath? (BucketSource.relativeKey keyPrefix o.key) with
  | none => simp [passes, hcheck] at h
  | some reason => rfl

theorem treatment_eq_ok {f : SourceFile} :
    o.treatment rules keyPrefix reply = .ok f ↔ f.path = o.key ∧
      rules.checkPath? (BucketSource.relativeKey keyPrefix o.key) = none ∧
      ∃ body, reply.content? = some body ∧ Text.decode? body = some f.content ∧
        Classifier.sniff? f.content = none := by
  unfold treatment
  cases hcheck : rules.checkPath? (BucketSource.relativeKey keyPrefix o.key) with
  | some reason => simp
  | none => simp [finding_eq_ok]

theorem treatment_eq_error {x : SkippedFile} :
    o.treatment rules keyPrefix reply = .error x ↔
      x.path = o.key ∧ o.LeftOut rules keyPrefix reply x.reason := by
  obtain ⟨path, reason⟩ := x
  cases hcheck : rules.checkPath? (BucketSource.relativeKey keyPrefix o.key) with
  | some reason' =>
    simp only [treatment, hcheck, Except.error.injEq, SkippedFile.mk.injEq]
    constructor
    · rintro ⟨rfl, rfl⟩
      exact ⟨rfl, .path hcheck⟩
    · rintro ⟨rfl, hleft⟩
      refine ⟨rfl, ?_⟩
      -- the other reasons need a path that passes
      cases hleft with
      | path hpath => simpa [hcheck] using hpath
      | unreadable hpasses => simp [passes_iff, hcheck] at hpasses
      | content hpasses => simp [passes_iff, hcheck] at hpasses
  | none =>
    have hpasses : o.passes rules keyPrefix = true := passes_iff.2 hcheck
    rw [treatment_of_passes hpasses, finding_eq_error]
    refine and_congr_right fun _ => ?_
    constructor
    · rintro (⟨hreply, rfl⟩ | ⟨body, hreply, hresult⟩)
      · exact .unreadable hpasses hreply
      · exact .content hpasses hreply hresult
    · intro hleft
      cases hleft with
      | path hpath => simp [hcheck] at hpath
      | unreadable _ hreply => exact .inl ⟨hreply, rfl⟩
      | content _ hreply hresult => exact .inr ⟨_, hreply, hresult⟩

theorem findingPath_treatment : findingPath (o.treatment rules keyPrefix reply) = o.key := by
  cases h : o.treatment rules keyPrefix reply with
  | ok f => exact (treatment_eq_ok.1 h).1
  | error x => exact (treatment_eq_error.1 h).1

end StoredObject

/-! ## Replies to the objects that are fetched -/

namespace ReplySequence

/-- The number of the reply for the object at a place, if the first reply for an object has the
number `k`. -/
def number (rules : Classifier) (keyPrefix : String) (k : Nat) (objects : List StoredObject)
    (place : Nat) : Nat :=
  k + (objects.take place).countP (·.passes rules keyPrefix)

variable (r : ReplySequence) (rules : Classifier) (c : BucketClient) (keyPrefix : String) (k : Nat)
  (objects : List StoredObject)

/-- What becomes of objects, one by one. -/
def findings : List (Except SkippedFile SourceFile) :=
  objects.mapIdx fun place o =>
    o.treatment rules keyPrefix (r.reply (number rules keyPrefix k objects place))

/-- The requests for objects: one for each that passes, in their order. -/
def objectRequests : List HttpRequest :=
  (objects.filter (·.passes rules c.source.keyPrefix)).mapIdx fun i o =>
    c.requestFor (.object o.key) (r.time (k + i))

/-- The same replies but for one. -/
def withReply (n : Nat) (reply : HttpReply) : ReplySequence :=
  { r with reply := fun i => if i = n then reply else r.reply i }

variable {r rules c keyPrefix k objects} {o : StoredObject}

theorem number_cons_succ (place : Nat) :
    number rules keyPrefix k (o :: objects) (place + 1) =
      number rules keyPrefix (if o.passes rules keyPrefix then k + 1 else k) objects place := by
  rw [number, number, List.take_succ_cons, List.countP_cons]
  by_cases hpasses : o.passes rules keyPrefix = true
  · simp only [hpasses, if_true]
    omega
  · simp [hpasses]

theorem findings_cons :
    r.findings rules keyPrefix k (o :: objects) =
      o.treatment rules keyPrefix (r.reply k) ::
        r.findings rules keyPrefix (if o.passes rules keyPrefix then k + 1 else k) objects := by
  simp only [findings, List.mapIdx_cons, number_cons_succ]
  rfl

theorem objectRequests_cons_of_passes (h : o.passes rules c.source.keyPrefix = true) :
    r.objectRequests rules c k (o :: objects) =
      c.requestFor (.object o.key) (r.time k) :: r.objectRequests rules c (k + 1) objects := by
  rw [objectRequests, List.filter_cons_of_pos h, List.mapIdx_cons]
  simp only [objectRequests, Nat.add_comm 1, Nat.add_assoc, Nat.add_zero]

theorem objectRequests_cons_of_not_passes (h : o.passes rules c.source.keyPrefix = false) :
    r.objectRequests rules c k (o :: objects) = r.objectRequests rules c k objects := by
  rw [objectRequests, List.filter_cons_of_neg (by simp [h])]
  rfl

theorem getElem?_objectRequests (i : Nat) : (r.objectRequests rules c k objects)[i]? =
    (objects.filter (·.passes rules c.source.keyPrefix))[i]?.map fun o =>
      c.requestFor (.object o.key) (r.time (k + i)) := by
  rw [objectRequests, List.getElem?_mapIdx]

theorem getElem?_findings (place : Nat) :
    (r.findings rules keyPrefix k objects)[place]? = objects[place]?.map fun o =>
      o.treatment rules keyPrefix (r.reply (number rules keyPrefix k objects place)) := by
  rw [findings, List.getElem?_mapIdx]

theorem map_findingPath_findings :
    (r.findings rules keyPrefix k objects).map findingPath = objects.map StoredObject.key := by
  induction objects generalizing k with
  | nil => rfl
  | cons o rest ih =>
    rw [findings_cons, List.map_cons, List.map_cons, ih, StoredObject.findingPath_treatment]

/-- The reply for an object that is fetched comes before those for all later ones. -/
theorem number_lt {i j : Nat} (hij : i < j) (hi : objects[i]? = some o)
    (hpasses : o.passes rules keyPrefix = true) :
    number rules keyPrefix k objects i < number rules keyPrefix k objects j := by
  -- the object at `i` is itself counted for every later one
  have hnext : number rules keyPrefix k objects (i + 1) =
      number rules keyPrefix k objects i + 1 := by
    simp [number, List.take_add_one, hi, hpasses, Nat.add_assoc]
  have hle : number rules keyPrefix k objects (i + 1) ≤ number rules keyPrefix k objects j :=
    Nat.add_le_add_left
      ((List.take_sublist_take_left (l := objects) hij).countP_le) k
  omega

theorem number_ne {i j : Nat} {o' : StoredObject} (hij : i ≠ j) (hi : objects[i]? = some o)
    (hj : objects[j]? = some o') (hpasses : o.passes rules keyPrefix = true)
    (hpasses' : o'.passes rules keyPrefix = true) :
    number rules keyPrefix k objects j ≠ number rules keyPrefix k objects i := by
  rcases Nat.lt_or_gt_of_ne hij with hlt | hgt
  · exact (number_lt hlt hi hpasses).ne'
  · exact (number_lt hgt hj hpasses').ne

/-- Another reply for one object changes what becomes of that object and of no other. -/
theorem findings_withReply {place : Nat} {reply : HttpReply} (hplace : objects[place]? = some o)
    (hpasses : o.passes rules keyPrefix = true) :
    (r.withReply (number rules keyPrefix k objects place) reply).findings
        rules keyPrefix k objects =
      (r.findings rules keyPrefix k objects).set place (o.finding reply) := by
  refine List.ext_getElem? fun j => ?_
  rw [getElem?_findings]
  by_cases hj : place = j
  · subst hj
    have hlength : place < (r.findings rules keyPrefix k objects).length := by
      rw [findings, List.length_mapIdx]
      exact (List.getElem?_eq_some_iff.1 hplace).1
    rw [List.getElem?_set_self hlength, hplace, Option.map_some,
      StoredObject.treatment_of_passes hpasses]
    simp [withReply]
  · -- any other object: it is not fetched, or by a request with another number
    rw [List.getElem?_set_ne hj, getElem?_findings]
    cases hother : objects[j]? with
    | none => rfl
    | some o' =>
      rw [Option.map_some, Option.map_some]
      cases hpasses' : o'.passes rules keyPrefix with
      | false => rw [StoredObject.treatment_congr _ hpasses']
      | true =>
        have hne := number_ne (k := k) hj hplace hother hpasses hpasses'
        simp [withReply, hne]

end ReplySequence

/-! ## The run over a listing -/

theorem run_mapM_cons {σ α β : Type} (f : α → StateM σ β) (a : α) (rest : List α) (s : σ) :
    ((a :: rest).mapM f).run s =
      (((f a).run s).1 :: ((rest.mapM f).run ((f a).run s).2).1,
        ((rest.mapM f).run ((f a).run s).2).2) := by
  rw [List.mapM_cons]
  rfl

namespace BucketClient

open ReplySequence

variable {r : ReplySequence} {rules : Classifier} {c : BucketClient} {o : StoredObject}
  {objects : List StoredObject} {sent : List HttpRequest}

theorem run_examine_of_passes (h : o.passes rules c.source.keyPrefix = true) :
    (c.examine r.host rules o).run sent =
      (o.treatment rules c.source.keyPrefix (r.reply sent.length),
        sent ++ [c.requestFor (.object o.key) (r.time sent.length)]) := by
  rw [StoredObject.treatment_of_passes h, examine, StoredObject.passes_iff.1 h]
  rfl

theorem run_examine_of_not_passes (h : o.passes rules c.source.keyPrefix = false) :
    (c.examine r.host rules o).run sent =
      (o.treatment rules c.source.keyPrefix (r.reply sent.length), sent) := by
  unfold examine StoredObject.treatment
  cases hcheck : rules.checkPath? (BucketSource.relativeKey c.source.keyPrefix o.key) with
  | none => simp [StoredObject.passes, hcheck] at h
  | some reason => rfl

theorem run_mapM_examine :
    (objects.mapM fun o => c.examine r.host rules o).run sent =
      (r.findings rules c.source.keyPrefix sent.length objects,
        sent ++ r.objectRequests rules c sent.length objects) := by
  induction objects generalizing sent with
  | nil =>
    show (([] : List (Except SkippedFile SourceFile)), sent) = _
    simp [findings, objectRequests]
  | cons o rest ih =>
    rw [run_mapM_cons, findings_cons]
    -- an object that passes uses up one reply
    cases hpasses : o.passes rules c.source.keyPrefix with
    | true =>
      rw [run_examine_of_passes hpasses, ih, objectRequests_cons_of_passes hpasses]
      simp
    | false =>
      rw [run_examine_of_not_passes hpasses, ih, objectRequests_cons_of_not_passes hpasses]
      simp

theorem run_ingest :
    (c.ingest r.host rules objects).run sent =
      (.ofFindings (r.findings rules c.source.keyPrefix sent.length objects),
        sent ++ r.objectRequests rules c sent.length objects) := by
  rw [ingest, StateT.run_bind, run_mapM_examine]
  rfl

/-- What the objects of a listing come to, `sent` being the requests before and `sent'` those after
they have been examined. -/
structure AccountsFor (r : ReplySequence) (rules : Classifier) (c : BucketClient)
    (objects : List StoredObject) (sent : List HttpRequest) (result : Ingestion)
    (sent' : List HttpRequest) : Prop where
  /-- Every object is either a file or left out, as often as it is listed. -/
  keys : (result.files.map SourceFile.path ++ result.skipped.map SkippedFile.path).Perm
    (objects.map StoredObject.key)
  /-- A request is sent for each object that passes, in the order of the listing, and no other. -/
  requests : sent' = sent ++ r.objectRequests rules c sent.length objects
  length_requests : (r.objectRequests rules c sent.length objects).length =
    (objects.filter (·.passes rules c.source.keyPrefix)).length
  /-- It asks the bucket for the object with that key. -/
  asked (i : Nat) (o : StoredObject) :
    (objects.filter (·.passes rules c.source.keyPrefix))[i]? = some o →
    ∃ request, (r.objectRequests rules c sent.length objects)[i]? = some request ∧
      c.IsSentFor (.object o.key) (r.time (sent.length + i)) request
  /-- The files are those that objects come to, sorted by key. -/
  files : result.files.Perm (Scan.kept (r.findings rules c.source.keyPrefix sent.length objects))
  sorted : result.files.Pairwise fun a b => a.path ≤ b.path
  /-- What is left out is in the order of the listing. -/
  skipped : result.skipped =
    Scan.left (r.findings rules c.source.keyPrefix sent.length objects)
  /-- An object comes to a file if and only if its path passes, its download succeeds and its body
  is text that nothing excludes. -/
  kept (place : Nat) (f : SourceFile) :
    (r.findings rules c.source.keyPrefix sent.length objects)[place]? = some (.ok f) ↔
      ∃ o status body, objects[place]? = some o ∧ f.path = o.key ∧
        rules.checkPath? (BucketSource.relativeKey c.source.keyPrefix o.key) = none ∧
        r.reply (number rules c.source.keyPrefix sent.length objects place) =
          .response status body ∧ HttpReply.isSuccess status = true ∧
        Text.decode? body = some f.content ∧ Classifier.sniff? f.content = none
  /-- Any other object is left out under its key, for its own reason. -/
  left (place : Nat) (x : SkippedFile) :
    (r.findings rules c.source.keyPrefix sent.length objects)[place]? = some (.error x) ↔
      ∃ o, objects[place]? = some o ∧ x.path = o.key ∧
        o.LeftOut rules c.source.keyPrefix
          (r.reply (number rules c.source.keyPrefix sent.length objects place)) x.reason
  /-- If a download fails instead, that object is unreadable and all others come to the same. -/
  independent (place : Nat) (o : StoredObject) (reply : HttpReply) : objects[place]? = some o →
    o.passes rules c.source.keyPrefix = true → reply.content? = none →
    (c.ingest (r.withReply (number rules c.source.keyPrefix sent.length objects place)
      reply).host rules objects).run sent =
        (.ofFindings ((r.findings rules c.source.keyPrefix sent.length objects).set place
          (.error { path := o.key, reason := .unreadable })), sent')

theorem accountsFor : AccountsFor r rules c objects sent
    ((c.ingest r.host rules objects).run sent).1 ((c.ingest r.host rules objects).run sent).2 where
  keys := by
    rw [run_ingest, ← map_findingPath_findings]
    exact (((List.mergeSort_perm _ _).map _).append_right _).trans Scan.kept_left_perm
  requests := by rw [run_ingest]
  length_requests := by rw [objectRequests, List.length_mapIdx]
  asked i o ho := by
    rw [getElem?_objectRequests, ho]
    exact ⟨_, rfl, isSentFor_requestFor c _ _⟩
  files := by
    rw [run_ingest]
    exact List.mergeSort_perm _ _
  sorted := by
    rw [run_ingest]
    exact Scan.pairwise_le_mergeSort SourceFile.path _
  skipped := by
    rw [run_ingest]
    rfl
  kept place f := by
    rw [getElem?_findings, Option.map_eq_some_iff]
    simp only [StoredObject.treatment_eq_ok, HttpReply.content?_eq_some]
    constructor
    · rintro ⟨o, hplace, hpath, hcheck, body, ⟨status, hreply, hstatus⟩, htext, hsniff⟩
      exact ⟨o, status, body, hplace, hpath, hcheck, hreply, hstatus, htext, hsniff⟩
    · rintro ⟨o, status, body, hplace, hpath, hcheck, hreply, hstatus, htext, hsniff⟩
      exact ⟨o, hplace, hpath, hcheck, body, ⟨status, hreply, hstatus⟩, htext, hsniff⟩
  left place x := by
    rw [getElem?_findings, Option.map_eq_some_iff]
    simp only [StoredObject.treatment_eq_error]
  independent place o reply hplace hpasses hreply := by
    have hfinding : o.finding reply = .error { path := o.key, reason := .unreadable } :=
      StoredObject.finding_eq_error.2 ⟨rfl, .inl ⟨hreply, rfl⟩⟩
    rw [run_ingest, run_ingest, findings_withReply hplace hpasses, hfinding]
    rfl

end BucketClient

namespace BucketSource

open ReplySequence

variable {r : ReplySequence} {s : BucketSource} {sent : List HttpRequest}

/-- The client that the environment gives access to a bucket. -/
def client (r : ReplySequence) (s : BucketSource) : Except Fault BucketClient :=
  match r.environment "AWS_ACCESS_KEY_ID", r.environment "AWS_SECRET_ACCESS_KEY" with
  | none, _ => .error (.missingVariable "AWS_ACCESS_KEY_ID")
  | some _, none => .error (.missingVariable "AWS_SECRET_ACCESS_KEY")
  | some accessKey, some secretKey => .ok
    { source := s
      credentials :=
        { accessKey, secretKey, sessionToken := r.environment "AWS_SESSION_TOKEN" } }

theorem run_requiredVariable (name : String) :
    (BucketClient.requiredVariable r.host name).run.run sent =
      (match r.environment name with
        | some value => .ok value
        | none => .error (.missingVariable name), sent) := by
  have henvironment : (r.host.environment name).run sent = (r.environment name, sent) := rfl
  rw [BucketClient.requiredVariable, Hosted.run_bind, Hosted.run_liftM, henvironment]
  cases r.environment name with
  | none => rfl
  | some value => rfl

theorem run_connect : (BucketClient.connect r.host s).run.run sent = (client r s, sent) := by
  rw [BucketClient.connect, Hosted.run_bind, run_requiredVariable, client]
  cases r.environment "AWS_ACCESS_KEY_ID" with
  | none => rfl
  | some accessKey =>
    dsimp only
    rw [Hosted.run_bind, run_requiredVariable]
    cases r.environment "AWS_SECRET_ACCESS_KEY" with
    | none => rfl
    | some secretKey => rfl

/-- **Every listed object is accounted for**: the objects of a bucket are those of its listing, and
each of them is either a file or left out for a reason of its own. -/
theorem ingest_accounts (r : ReplySequence) (rules : Classifier) (s : BucketSource) :
    (∀ sent, (s.ingest r.host rules).run.run sent =
      match client r s with
      | .error fault => (.error fault, sent)
      | .ok c =>
        match (c.list r.host).run.run sent with
        | (.error fault, sent') => (.error fault, sent')
        | (.ok objects, sent') =>
          (.ok ((c.ingest r.host rules objects).run sent').1,
            ((c.ingest r.host rules objects).run sent').2)) ∧
    ∀ (c : BucketClient) objects sent, BucketClient.AccountsFor r rules c objects sent
      ((c.ingest r.host rules objects).run sent).1
      ((c.ingest r.host rules objects).run sent).2 := by
  refine ⟨fun sent => ?_, fun _ _ _ => BucketClient.accountsFor⟩
  rw [ingest, Hosted.run_bind, run_connect]
  cases client r s with
  | error fault => rfl
  | ok c =>
    dsimp only
    rw [Hosted.run_bind]
    rcases (c.list r.host).run.run sent with ⟨_ | objects, sent'⟩ <;> rfl

/-- No connection for the first object that is fetched, and a text for any other. -/
def textAfterFailure : ReplySequence where
  reply number := if number = 0 then .noConnection else .response 200 "fn b() {}".toUTF8
  time _ := .epoch
  environment _ := none

def mixedObjects : List StoredObject :=
  [⟨"src/venv/x.py", 1, .epoch⟩, ⟨"src/b.rs", 9, .epoch⟩, ⟨"src/a.rs", 9, .epoch⟩]

def prefixedClient : BucketClient where
  source := { bucket := "corpus", keyPrefix := "src" }
  credentials := { accessKey := "id", secretKey := "key" }

theorem findings_mixedObjects :
    textAfterFailure.findings LocalSource.plainRules "src" 0 mixedObjects =
      [.error ⟨"src/venv/x.py", .excludedDirectory⟩, .error ⟨"src/b.rs", .unreadable⟩,
        .ok ⟨"src/a.rs", "fn b() {}"⟩] := by
  decide +kernel

theorem filter_mixedObjects :
    mixedObjects.filter (·.passes LocalSource.plainRules prefixedClient.source.keyPrefix) =
      [⟨"src/b.rs", 9, .epoch⟩, ⟨"src/a.rs", 9, .epoch⟩] := by
  decide +kernel

theorem url_objectRequests_mixedObjects :
    (textAfterFailure.objectRequests LocalSource.plainRules prefixedClient 0 mixedObjects).map
      HttpRequest.url = ["https://corpus.s3.us-east-1.amazonaws.com/src/b.rs",
        "https://corpus.s3.us-east-1.amazonaws.com/src/a.rs"] := by
  simp only [objectRequests, filter_mixedObjects, List.mapIdx_cons, List.mapIdx_nil, List.map_cons,
    List.map_nil, (BucketClient.sends_requestFor prefixedClient _ _).url, BucketClient.query_object]
  decide

theorem ingest_accounts_mixedObjects :
    ((prefixedClient.ingest textAfterFailure.host LocalSource.plainRules
      mixedObjects).run []).1.files = [⟨"src/a.rs", "fn b() {}"⟩] ∧
    ((prefixedClient.ingest textAfterFailure.host LocalSource.plainRules
      mixedObjects).run []).1.skipped =
        [⟨"src/venv/x.py", .excludedDirectory⟩, ⟨"src/b.rs", .unreadable⟩] ∧
    ((prefixedClient.ingest textAfterFailure.host LocalSource.plainRules
      mixedObjects).run []).2.map HttpRequest.url =
        ["https://corpus.s3.us-east-1.amazonaws.com/src/b.rs",
          "https://corpus.s3.us-east-1.amazonaws.com/src/a.rs"] := by
  have haccounts := (ingest_accounts textAfterFailure LocalSource.plainRules
    prefixedClient.source).2 prefixedClient mixedObjects []
  refine ⟨?_, ?_, ?_⟩
  · have hfiles := haccounts.files
    have hfindings : textAfterFailure.findings LocalSource.plainRules
        prefixedClient.source.keyPrefix ([] : List HttpRequest).length mixedObjects = _ :=
      findings_mixedObjects
    rw [hfindings] at hfiles
    exact List.perm_singleton.1 hfiles
  · rw [haccounts.skipped]
    exact congrArg Scan.left findings_mixedObjects
  · rw [haccounts.requests]
    exact url_objectRequests_mixedObjects

end BucketSource

end SourceDocs
