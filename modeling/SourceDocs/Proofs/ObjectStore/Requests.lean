import SourceDocs.ObjectStore.Bucket
import SourceDocs.Proofs.ObjectStore.Signature

set_option autoImplicit false

/-! # Requests: nothing is lost and nothing slips in

What is percent-encoded has no separator in it, so a path falls apart at its slashes, and a query at
its ampersands, into what they were made of. A request has its path and its query in its address and
in the text that is signed (`BucketClient.sends_request`), and what is asked for can be read back
from them (`BucketClient.asks`). So no two requests with one canonical form ask for different things
(`BucketClient.writes_requests`). -/

namespace SourceDocs

open Text

/-! ## Parameters of listings -/

namespace Listing

variable {keyPrefix name value : String} {token : Option String}

theorem mem_parameters :
    (name, value) ∈ parameters keyPrefix token ↔
      name = "list-type" ∧ value = "2" ∨ name = "max-keys" ∧ value = "1000" ∨
        name = "prefix" ∧ value = keyPrefix ∧ keyPrefix ≠ "" ∨
        name = "continuation-token" ∧ token = some value := by
  have hprefix : (name, value) ∈ (if keyPrefix = "" then [] else [("prefix", keyPrefix)]) ↔
      name = "prefix" ∧ value = keyPrefix ∧ keyPrefix ≠ "" := by
    by_cases hempty : keyPrefix = "" <;> simp [hempty]
  have htoken : (name, value) ∈ token.toList.map (fun t => ("continuation-token", t)) ↔
      name = "continuation-token" ∧ token = some value := by
    cases token with
    | none => simp
    | some t => simp [eq_comm]
  simp only [parameters, List.mem_append, hprefix, htoken, List.mem_cons, Prod.mk.injEq,
    List.not_mem_nil, or_false, or_assoc]

/-- The parameters of a listing, sorted. -/
def sortedParameters (keyPrefix : String) (token : Option String) : List (String × String) :=
  token.toList.map (fun t => ("continuation-token", t)) ++
    ([("list-type", "2"), ("max-keys", "1000")] ++
      if keyPrefix = "" then [] else [("prefix", keyPrefix)])

theorem names_sublist (keyPrefix : String) (token : Option String) :
    ((sortedParameters keyPrefix token).map Prod.fst).Sublist
      ["continuation-token", "list-type", "max-keys", "prefix"] := by
  by_cases hempty : keyPrefix = "" <;> cases token <;> simp [sortedParameters, hempty]

theorem sorted_parameters (keyPrefix : String) (token : Option String) :
    Fields.sorted (parameters keyPrefix token) = sortedParameters keyPrefix token := by
  have hnames : ["continuation-token", "list-type", "max-keys", "prefix"].Pairwise (· < ·) := by
    decide
  exact Fields.sorted_eq List.perm_append_comm (hnames.sublist (names_sublist keyPrefix token))

end Listing

/-! ## Queries -/

namespace BucketClient

variable {ps : List (String × String)}

/-- The parameter that a part of a query stands for: its name up to the first equals sign, and its
value after that. -/
def parameter? (part : List Char) : Option (String × String) :=
  match part.dropWhile (· ≠ '=') with
  | [] => none
  | _ :: value => do return (← decodedText? (part.takeWhile (· ≠ '=')), ← decodedText? value)

/-- The written form of a parameter. -/
def parameterText (p : String × String) : List Char :=
  (percentEncode p.1).toList ++ '=' :: (percentEncode p.2).toList

theorem takeWhile_parameterText (p : String × String) :
    (parameterText p).takeWhile (· ≠ '=') = (percentEncode p.1).toList := by
  have hname : ∀ ch ∈ (percentEncode p.1).toList, decide (ch ≠ '=') = true := by
    intro ch hch
    rw [decide_eq_true_eq]
    rintro rfl
    exact notMem_percentEncode (by decide) _ hch
  rw [parameterText, List.takeWhile_append_of_pos hname, List.takeWhile_cons_of_neg (by decide),
    List.append_nil]

theorem parameter?_parameterText (p : String × String) : parameter? (parameterText p) = some p := by
  have hrest : (parameterText p).dropWhile (· ≠ '=') = '=' :: (percentEncode p.2).toList := by
    have hsplit := List.takeWhile_append_dropWhile (p := (· ≠ '=')) (l := parameterText p)
    rw [takeWhile_parameterText] at hsplit
    exact List.append_cancel_left hsplit
  simp only [parameter?, hrest, takeWhile_parameterText, decodedText?_percentEncode,
    Option.bind_eq_bind, Option.bind_some]
  rfl

theorem toList_queryText (ps : List (String × String)) :
    (queryText ps).toList = ['&'].intercalate (ps.map parameterText) := by
  rw [queryText, String.toList_intercalate, List.map_map]
  refine congrArg _ (List.map_congr_left fun p _ => ?_)
  simp [parameterText]

/-- A query falls apart into its parameters. -/
theorem splitOn_queryText (h : ps ≠ []) :
    (queryText ps).toList.splitOn '&' = ps.map parameterText := by
  rw [toList_queryText]
  refine List.splitOn_intercalate '&' ?_ (by simpa using h)
  simp only [List.forall_mem_map, parameterText, List.mem_append, List.mem_cons, not_or]
  exact fun p _ => ⟨notMem_percentEncode (by decide) _, by decide,
    notMem_percentEncode (by decide) _⟩

theorem mem_queryText {ch : Char} (h : ch ∈ (queryText ps).toList) :
    ch = '&' ∨ ch = '=' ∨ ch = '%' ∨ ch ∈ unreserved := by
  rw [toList_queryText] at h
  rcases eq_or_mem_of_mem_intercalate h with h | ⟨part, hpart, h⟩
  · exact .inl h
  · obtain ⟨p, -, rfl⟩ := List.mem_map.1 hpart
    rcases List.mem_append.1 h with h | h
    · exact .inr (.inr (mem_percentEncode h))
    · rcases List.mem_cons.1 h with h | h
      · exact .inr (.inl h)
      · exact .inr (.inr (mem_percentEncode h))

/-! ## What a client asks for -/

/-- What a client asks for. -/
inductive Demand where
  /-- The page of a listing with a token. -/
  | page (token : Option String)
  /-- The object with a key. -/
  | object (key : String)

variable {c c' : BucketClient} {d d' : Demand} {time time' : Instant}

/-- A query falls apart into parameters, each of them once and in the order of their written
names. -/
structure HasParameters (query : String) (ps : List (String × String)) : Prop where
  parameters : (query.toList.splitOn '&').map parameter? = ps.map some
  sorted : ((query.toList.splitOn '&').map (·.takeWhile (· ≠ '='))).Pairwise (· < ·)

/-- What a path and a query ask a store for, read back from them. -/
def Asks (s : BucketSource) (path query : String) : Demand → Prop
  | .page token =>
    path = (Endpoint.ofBucket s).bucketPath ++ "/" ∧
      ∃ ps, HasParameters query ps ∧ ∀ name value, (name, value) ∈ ps ↔
        name = "list-type" ∧ value = "2" ∨ name = "max-keys" ∧ value = "1000" ∨
          name = "prefix" ∧ value = s.keyPrefix ∧ s.keyPrefix ≠ "" ∨
          name = "continuation-token" ∧ token = some value
  | .object key =>
    query = "" ∧ ∃ inside : List Char,
      path.toList = (Endpoint.ofBucket s).bucketPath.toList ++ '/' :: inside ∧
      (inside.splitOn '/').map decodedText? =
        (key.toList.splitOn '/').map fun segment => some (String.ofList segment)

/-- The text that is signed by its digest in a request for a path and a query. -/
def canonicalForm (c : BucketClient) (path query : String) (time : Instant) : String :=
  "\n".intercalate (UnsignedRequest.canonicalLines
    { host := (Endpoint.ofBucket c.source).host, path, query, time } c.credentials.sessionToken)

/-- How a request for a path and a query is sent, and what is signed in it. -/
structure Sends (c : BucketClient) (path query : String) (time : Instant) (request : HttpRequest) :
    Prop where
  method : request.method = .get
  body : request.body = ""
  /-- The address has the path, and the query unless it is empty. -/
  url : request.url = (Endpoint.ofBucket c.source).scheme ++ "://" ++
    (Endpoint.ofBucket c.source).host ++ path ++ if query = "" then "" else "?" ++ query
  date : request.header? "x-amz-date" = some time.timeStamp
  payload : request.header? "x-amz-content-sha256" = some (hexOfBytes (Sha256.digest []))
  token : request.header? "x-amz-security-token" = c.credentials.sessionToken
  /-- The signature is that of the canonical form, which has the same path and the same query. -/
  authorization : request.header? "Authorization" = some
    ("AWS4-HMAC-SHA256 Credential=" ++ c.credentials.accessKey ++ "/" ++ time.dateStamp ++ "/" ++
      c.source.region ++ "/s3/aws4_request, SignedHeaders=" ++
      UnsignedRequest.signedNames c.credentials.sessionToken ++ ", Signature=" ++
      hexOfBytes (UnsignedRequest.signatureOf c.credentials.secretKey c.source.region time
        (c.canonicalForm path query time)))

/-- **What a request sends**: its path and its parameters, signed. -/
theorem sends_request (c : BucketClient) (path : String) (ps : List (String × String))
    (time : Instant) :
    c.Sends path (queryText (Fields.sorted ps)) time (c.request path ps time) where
  method := rfl
  body := rfl
  url := rfl
  date := rfl
  payload := rfl
  token := by
    unfold HttpRequest.header? request
    dsimp only
    cases c.credentials.sessionToken with
    | none => rfl
    | some t => rfl
  authorization := congrArg some <|
    UnsignedRequest.authorization_sign _ c.credentials c.source.region

/-- A request is sent for what is asked for. -/
def IsSentFor (c : BucketClient) (d : Demand) (time : Instant) (request : HttpRequest) : Prop :=
  ∃ path query, c.Sends path query time request ∧ Asks c.source path query d

/-- The path of what is asked for. -/
def path (c : BucketClient) : Demand → String
  | .page _ => (Endpoint.ofBucket c.source).listingPath
  | .object key => (Endpoint.ofBucket c.source).objectPath key

/-- The parameters of what is asked for. -/
def parameters (c : BucketClient) : Demand → List (String × String)
  | .page token => Listing.parameters c.source.keyPrefix token
  | .object _ => []

/-- The query of what is asked for. -/
def query (c : BucketClient) (d : Demand) : String :=
  queryText (Fields.sorted (c.parameters d))

/-- The request for what is asked for. -/
def requestFor (c : BucketClient) (d : Demand) (time : Instant) : HttpRequest :=
  c.request (c.path d) (c.parameters d) time

/-- The request that is signed. -/
def unsigned (c : BucketClient) (d : Demand) (time : Instant) : UnsignedRequest :=
  { host := (Endpoint.ofBucket c.source).host, path := c.path d, query := c.query d, time }

theorem query_page (c : BucketClient) (token : Option String) :
    c.query (.page token) = queryText (Listing.sortedParameters c.source.keyPrefix token) := by
  rw [query, parameters, Listing.sorted_parameters]

theorem query_object (c : BucketClient) (key : String) : c.query (.object key) = "" := by
  rw [query, parameters, Fields.sorted_eq (.refl []) List.Pairwise.nil]
  rfl

theorem mem_bucketPath {s : BucketSource} {ch : Char}
    (h : ch ∈ (Endpoint.ofBucket s).bucketPath.toList) :
    ch = '/' ∨ ch = '%' ∨ ch ∈ unreserved := by
  rw [Endpoint.ofBucket] at h
  split at h
  · rw [String.toList_append, List.mem_append] at h
    rcases h with h | h
    · exact .inl (List.mem_singleton.1 h)
    · exact .inr (mem_percentEncode h)
  · cases h

theorem mem_path {ch : Char} (h : ch ∈ (c.path d).toList) :
    ch = '/' ∨ ch = '%' ∨ ch ∈ unreserved := by
  cases d with
  | page token =>
    rw [path, Endpoint.listingPath, String.toList_append, List.mem_append] at h
    rcases h with h | h
    · exact mem_bucketPath h
    · exact .inl (List.mem_singleton.1 h)
  | object key =>
    rw [path, Endpoint.objectPath, String.toList_append, String.toList_append, List.mem_append,
      List.mem_append] at h
    rcases h with (h | h) | h
    · exact mem_bucketPath h
    · exact .inl (List.mem_singleton.1 h)
    · exact mem_percentEncodePath h

/-- Neither the host of a client nor its token breaks a line. -/
def IsOneLine (c : BucketClient) : Prop :=
  '\n' ∉ (Endpoint.ofBucket c.source).host.toList ∧
    ∀ t ∈ c.credentials.sessionToken, '\n' ∉ t.toList

theorem IsOneLine.unsigned (h : c.IsOneLine) (d : Demand) (time : Instant) :
    (c.unsigned d time).IsOneLine c.credentials.sessionToken where
  path hmem := by
    rcases mem_path hmem with h | h | h
    · exact absurd h (by decide)
    · exact absurd h (by decide)
    · exact absurd h (by decide)
  query hmem := by
    rcases mem_queryText hmem with h | h | h | h
    · exact absurd h (by decide)
    · exact absurd h (by decide)
    · exact absurd h (by decide)
    · exact absurd h (by decide)
  host := h.1
  token := h.2

/-! ## What is asked for, told by what is sent -/

theorem sortedParameters_ne_nil (keyPrefix : String) (token : Option String) :
    Listing.sortedParameters keyPrefix token ≠ [] := by
  simp [Listing.sortedParameters]

theorem map_parameter?_splitOn (h : ps ≠ []) :
    ((queryText ps).toList.splitOn '&').map parameter? = ps.map some := by
  rw [splitOn_queryText h, List.map_map]
  refine List.map_congr_left fun p _ => ?_
  rw [Function.comp_apply, parameter?_parameterText]

/-- The names of a listing's parameters ascend in their written form. -/
theorem hasParameters_page (c : BucketClient) (token : Option String) :
    HasParameters (c.query (.page token))
      (Listing.sortedParameters c.source.keyPrefix token) where
  parameters := by
    rw [query_page]
    exact map_parameter?_splitOn (sortedParameters_ne_nil _ _)
  sorted := by
    have hnames : ((c.query (.page token)).toList.splitOn '&').map (·.takeWhile (· ≠ '=')) =
        ((Listing.sortedParameters c.source.keyPrefix token).map Prod.fst).map
          fun name => (percentEncode name).toList := by
      rw [query_page, splitOn_queryText (sortedParameters_ne_nil _ _), List.map_map, List.map_map]
      refine List.map_congr_left fun p _ => ?_
      rw [Function.comp_apply, takeWhile_parameterText, Function.comp_apply]
    have hall : (["continuation-token", "list-type", "max-keys", "prefix"].map fun name =>
        (percentEncode name).toList).Pairwise (· < ·) := by
      decide
    rw [hnames]
    exact hall.sublist ((Listing.names_sublist _ _).map _)

/-- What is asked for can be read back from path and query. -/
theorem asks (c : BucketClient) (d : Demand) : Asks c.source (c.path d) (c.query d) d := by
  cases d with
  | page token =>
    refine ⟨rfl, _, hasParameters_page c token, fun name value => ?_⟩
    rw [← Listing.mem_parameters, ← Listing.sorted_parameters, Fields.mem_sorted]
  | object key =>
    refine ⟨query_object c key, (percentEncodePath key).toList, ?_,
      decodedText?_percentEncodePath key⟩
    simp [path, Endpoint.objectPath]

theorem sends_requestFor (c : BucketClient) (d : Demand) (time : Instant) :
    c.Sends (c.path d) (c.query d) time (c.requestFor d time) :=
  sends_request c _ _ _

theorem isSentFor_requestFor (c : BucketClient) (d : Demand) (time : Instant) :
    c.IsSentFor d time (c.requestFor d time) :=
  ⟨c.path d, c.query d, sends_requestFor c d time, asks c d⟩

theorem HasParameters.ne_empty {q : String} (h : HasParameters q ps) : q ≠ "" := by
  rintro rfl
  -- an empty query has one part, which is no parameter
  have hnone : none ∈ ps.map some := by
    rw [← h.parameters]
    exact List.mem_singleton.2 rfl
  obtain ⟨p, -, hp⟩ := List.mem_map.1 hnone
  cases hp

/-- Path and query ask for one thing only. -/
theorem Asks.demand_eq {s : BucketSource} {p q : String} (h : Asks s p q d) (h' : Asks s p q d') :
    d = d' := by
  cases d with
  | page token =>
    obtain ⟨-, ps, hps, hmem⟩ := h
    cases d' with
    | page token' =>
      obtain ⟨-, ps', hps', hmem'⟩ := h'
      have hsame : ps = ps' :=
        (List.map_inj_right fun _ _ => Option.some.inj).1
          (hps.parameters.symm.trans hps'.parameters)
      have hvalue : ∀ value, token = some value ↔ token' = some value := by
        intro value
        have hiff := (hmem "continuation-token" value).symm.trans
          (hsame ▸ hmem' "continuation-token" value)
        simpa using hiff
      exact congrArg Demand.page (Option.ext hvalue)
    | object key' => exact absurd h'.1 hps.ne_empty
  | object key =>
    cases d' with
    | page token' =>
      obtain ⟨-, ps, hps, -⟩ := h'
      exact absurd h.1 hps.ne_empty
    | object key' =>
      obtain ⟨-, inside, hinside, hsegments⟩ := h
      obtain ⟨-, inside', hinside', hsegments'⟩ := h'
      have hsame := List.append_cancel_left (hinside.symm.trans hinside')
      rw [(List.cons.inj hsame).2, hsegments'] at hsegments
      exact congrArg Demand.object (eq_of_map_segments hsegments.symm)

/-- How the requests of a client are written. -/
structure WritesRequests (c : BucketClient) : Prop where
  /-- A text is read back byte for byte, and written with characters that stand for themselves and
  percent signs that two digits follow. -/
  text (s : String) : percentDecode? (percentEncode s).toList = some s.toUTF8.data.toList ∧
    ∃ parts : List (List Char), (percentEncode s).toList = parts.flatten ∧
      ∀ part ∈ parts, IsWritten part
  /-- What is sent has path and query in its address and in the text that is signed. -/
  sent (d : Demand) (time : Instant) : c.Sends (c.path d) (c.query d) time (c.requestFor d time)
  /-- After the path of the bucket, the path of an object has the segments of its key. The query of
  a listing has its parameters and nothing else, each once, in the order of their written names. -/
  asks (d : Demand) : Asks c.source (c.path d) (c.query d) d
  /-- No other character gets into a path or a query. -/
  characters (d : Demand) :
    (∀ ch ∈ (c.path d).toList, ch ∈ '/' :: '%' :: unreserved) ∧
    ∀ ch ∈ (c.query d).toList, ch ∈ '&' :: '=' :: '%' :: unreserved
  /-- What is asked for follows from path and query. -/
  demand (d d' : Demand) : c.path d = c.path d' → c.query d = c.query d' → d = d'
  /-- The text that is signed tells path, query, host, date and token. -/
  canonical (c' : BucketClient) (d d' : Demand) (time time' : Instant) :
    c.IsOneLine → c'.IsOneLine →
    (c.canonicalForm (c.path d) (c.query d) time =
        c'.canonicalForm (c'.path d') (c'.query d') time' ↔
      c.path d = c'.path d' ∧ c.query d = c'.query d' ∧
        (Endpoint.ofBucket c.source).host = (Endpoint.ofBucket c'.source).host ∧
        (time.date = time'.date ∧ time.hour = time'.hour ∧ time.minute = time'.minute ∧
          time.writtenSecond = time'.writtenSecond) ∧
        c.credentials.sessionToken = c'.credentials.sessionToken)

/-- **Requests are written without loss**, and nothing in a key, a prefix or a token gets out of its
place. -/
theorem writes_requests (c : BucketClient) : WritesRequests c where
  text s := ⟨percentDecode?_percentEncode s, exists_written s⟩
  sent := sends_requestFor c
  asks := asks c
  characters d := by
    constructor
    · intro ch hch
      simpa using mem_path hch
    · intro ch hch
      simpa using mem_queryText hch
  demand d d' hpath hquery := (asks c d).demand_eq (hpath ▸ hquery ▸ asks c d')
  canonical c' d d' time time' h h' := by
    have hforms := UnsignedRequest.canonical_eq_iff (h.unsigned d time) (h'.unsigned d' time')
    rw [UnsignedRequest.canonical_eq, UnsignedRequest.canonical_eq] at hforms
    rw [← Instant.timeStamp_eq_iff]
    exact hforms

def plainClient : BucketClient where
  source := { bucket := "corpus" }
  credentials := { accessKey := "id", secretKey := "key" }

/-- A listing and the object whose key is empty have the same path, but neither the same address nor
the same canonical form. -/
theorem writes_requests_plainClient :
    plainClient.IsOneLine ∧
      (plainClient.requestFor (.object "a b/\n") .epoch).url =
        "https://corpus.s3.us-east-1.amazonaws.com/a%20b/%0A" ∧
      (plainClient.requestFor (.page (some "&")) .epoch).url =
        "https://corpus.s3.us-east-1.amazonaws.com/" ++
          "?continuation-token=%26&list-type=2&max-keys=1000" ∧
      plainClient.path (.page none) = plainClient.path (.object "") ∧
      plainClient.canonicalForm (plainClient.path (.page none)) (plainClient.query (.page none))
          .epoch ≠
        plainClient.canonicalForm (plainClient.path (.object "")) (plainClient.query (.object ""))
          .epoch := by
  have hline : plainClient.IsOneLine := ⟨by decide, fun _ h => by cases h⟩
  have hwrites := writes_requests plainClient
  have hpath : plainClient.path (.page none) = plainClient.path (.object "") := by
    decide
  refine ⟨hline, ?_, ?_, hpath, fun heq => ?_⟩
  · rw [(hwrites.sent _ _).url, query_object]
    decide
  · rw [(hwrites.sent _ _).url, query_page]
    decide
  · have hquery := ((hwrites.canonical plainClient _ _ _ _ hline hline).1 heq).2.1
    cases hwrites.demand _ _ hpath hquery

end BucketClient

end SourceDocs
