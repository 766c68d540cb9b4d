import SourceDocs.ObjectStore.Endpoint
import SourceDocs.ObjectStore.Listing
import SourceDocs.ObjectStore.Signature
import SourceDocs.Source

set_option autoImplicit false

/-! # Buckets as sources

A listing asks for one page after the other, each with the token of the page before it, and ends at
the first page that is not truncated or has no token. Then every object that no rule excludes is
fetched; one that cannot be fetched is skipped as unreadable. -/

namespace SourceDocs

/-- Access to a bucket. -/
structure BucketClient where
  source : BucketSource
  credentials : Credentials

/-- A listing under way. -/
structure Listing where
  /-- The token of the page to be asked for; none for the first page. -/
  token : Option String := none
  /-- The objects of the pages so far. -/
  found : List StoredObject := []

/-- The parameters of the request for the page with a token. -/
def Listing.parameters (keyPrefix : String) (token : Option String) : List (String × String) :=
  [("list-type", "2"), ("max-keys", "1000")] ++
    (if keyPrefix = "" then [] else [("prefix", keyPrefix)]) ++
    token.toList.map fun t => ("continuation-token", t)

/-- The page in the reply to its request, or why there is none. -/
def ListingPage.ofReply (s : BucketSource) : HttpReply → Except Fault ListingPage
  | .noConnection => .error (.listingNotSent s.bucket s.keyPrefix)
  | .interrupted _ => .error .listingInterrupted
  | .response status body =>
    let text := Text.forgiving body
    if HttpReply.isSuccess status then
      match ListingPage.parse? text with
      | some page => .ok page
      | none => .error .listingMalformed
    else .error (.listingRefused s.bucket status (Refusal.describe text))

/-- What becomes of an object, given the reply to the request for it. -/
def StoredObject.finding (o : StoredObject) (reply : HttpReply) : Except SkippedFile SourceFile :=
  match reply.content? with
  | none => .error { path := o.key, reason := .unreadable }
  | some content =>
    match Classifier.classify o.key content with
    | .ok file => .ok file
    | .error reason => .error { path := o.key, reason }

/-- The files of findings, sorted by path, and what is left out, in the order in which it was
found. -/
def Ingestion.ofFindings (findings : List (Except SkippedFile SourceFile)) : Ingestion where
  files := (Scan.kept findings).mergeSort fun a b => a.path ≤ b.path
  skipped := Scan.left findings

namespace BucketClient

/-- Parameters as a query. -/
def queryText (parameters : List (String × String)) : String :=
  "&".intercalate
    (parameters.map fun p => Text.percentEncode p.1 ++ "=" ++ Text.percentEncode p.2)

/-- The signed request for a path of the service. Its parameters are sorted. -/
def request (c : BucketClient) (path : String) (parameters : List (String × String))
    (time : Instant) : HttpRequest :=
  let endpoint := Endpoint.ofBucket c.source
  let query := queryText (Fields.sorted parameters)
  let signed := UnsignedRequest.sign { host := endpoint.host, path, query, time } c.credentials
    c.source.region
  { method := .get
    url := endpoint.scheme ++ "://" ++ endpoint.host ++ path ++
      (if query = "" then "" else "?" ++ query)
    headers :=
      [("Authorization", signed.authorization), ("x-amz-content-sha256", signed.payloadHash),
        ("x-amz-date", signed.date)] ++
        c.credentials.sessionToken.toList.map fun t => ("x-amz-security-token", t) }

variable {m : Type → Type} [Monad m]

/-- A variable that has to be set. -/
def requiredVariable (host : Host m) (name : String) : Hosted m String := do
  match ← host.environment name with
  | some value => return value
  | none => throw (.missingVariable name)

/-- The client for a bucket, with the credentials from the environment. -/
def connect (host : Host m) (source : BucketSource) : Hosted m BucketClient := do
  let accessKey ← requiredVariable host "AWS_ACCESS_KEY_ID"
  let secretKey ← requiredVariable host "AWS_SECRET_ACCESS_KEY"
  let sessionToken ← host.environment "AWS_SESSION_TOKEN"
  return { source, credentials := { accessKey, secretKey, sessionToken } }

/-- Sends the request for a path of the service. -/
def send (host : Host m) (c : BucketClient) (path : String)
    (parameters : List (String × String)) : m HttpReply := do
  host.send (c.request path parameters (← host.now))

/-- Asks for the next page of a listing, which may be its last. -/
def advance (host : Host m) (c : BucketClient) (l : Listing) :
    Hosted m (Listing ⊕ List StoredObject) := do
  let reply ← (c.send host (Endpoint.ofBucket c.source).listingPath
    (Listing.parameters c.source.keyPrefix l.token) : m HttpReply)
  let page ← ListingPage.ofReply c.source reply
  let found := l.found ++ page.objects
  match page.following? with
  | some token => return .inl { token := some token, found }
  | none => return .inr found

/-- The objects of the bucket. -/
def list (host : Host m) (c : BucketClient) : Hosted m (List StoredObject) :=
  repeatM (c.advance host) {}

/-- What becomes of an object: an excluded one is not even fetched. -/
def examine (host : Host m) (rules : Classifier) (c : BucketClient) (o : StoredObject) :
    m (Except SkippedFile SourceFile) := do
  match rules.checkPath? (BucketSource.relativeKey c.source.keyPrefix o.key) with
  | some reason => return .error { path := o.key, reason }
  | none => return o.finding (← c.send host ((Endpoint.ofBucket c.source).objectPath o.key) [])

/-- The source files among objects and what is left out of them. -/
def ingest (host : Host m) (rules : Classifier) (c : BucketClient) (objects : List StoredObject) :
    m Ingestion := do
  return .ofFindings (← objects.mapM fun o => c.examine host rules o)

end BucketClient

namespace BucketSource

variable {m : Type → Type} [Monad m]

/-- The objects of a bucket. -/
def list (host : Host m) (s : BucketSource) : Hosted m (List StoredObject) := do
  (← BucketClient.connect host s).list host

/-- The source files of a bucket and what is left out of it. -/
def ingest (host : Host m) (rules : Classifier) (s : BucketSource) : Hosted m Ingestion := do
  let client ← BucketClient.connect host s
  let objects ← client.list host
  liftM (client.ingest host rules objects)

end BucketSource

namespace StoredObject

/-- The metadata of objects; of two objects with one key the later counts. -/
def metadata (objects : List StoredObject) : MetadataStore :=
  .ofList (objects.map fun o => (o.key, { size := o.size, lastModified := o.lastModified }))

/-- The structure of objects, with their keys as paths. -/
def directoryTree (objects : List StoredObject) : DirectoryTree :=
  .ofPaths (objects.map StoredObject.key)

end StoredObject

end SourceDocs
