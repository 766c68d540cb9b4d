import SourceDocs.Digest.Hmac
import SourceDocs.Text.Hex
import SourceDocs.Text.Utf8
import SourceDocs.Time.Instant

set_option autoImplicit false

/-! # Signed requests

A request is signed as one text, its canonical form: method, path, query, headers, the names of the
headers, and the digest of the body. The key of the signature is derived from the secret key, the
day, the region and the service. -/

namespace SourceDocs

/-- What identifies a user of an object store. -/
structure Credentials where
  accessKey : String
  secretKey : String
  /-- A token that comes with credentials that expire. -/
  sessionToken : Option String := none

/-- A request for something, before it is signed. -/
structure UnsignedRequest where
  host : String
  /-- The path, percent-encoded. -/
  path : String
  /-- The query, percent-encoded. -/
  query : String
  time : Instant

/-- The headers that sign a request. -/
structure SigningHeaders where
  authorization : String
  date : String
  payloadHash : String
  deriving DecidableEq

/-- Names with values, such as headers or the parameters of a query, in the order of the names and,
where a name comes more than once, of the values. -/
def Fields.sorted (fields : List (String × String)) : List (String × String) :=
  fields.mergeSort fun a b => a.1 < b.1 || (a.1 = b.1 && a.2 ≤ b.2)

namespace UnsignedRequest

/-- The hexadecimal digest of a text. -/
def hexDigest (s : String) : String :=
  Text.hexOfBytes (Sha256.digest (Text.encode s))

/-- The digest of the body, which is empty. -/
def payloadHash : String := hexDigest ""

/-- The headers that are signed, in the order of their names. -/
def signedHeaders (r : UnsignedRequest) (token : Option String) : List (String × String) :=
  Fields.sorted ([("host", r.host), ("x-amz-content-sha256", payloadHash),
    ("x-amz-date", r.time.timeStamp)] ++ token.toList.map fun t => ("x-amz-security-token", t))

/-- The names of the signed headers. -/
def headerNames (r : UnsignedRequest) (token : Option String) : String :=
  ";".intercalate ((r.signedHeaders token).map Prod.fst)

/-- The signed headers as lines. -/
def headerLines (r : UnsignedRequest) (token : Option String) : String :=
  String.join ((r.signedHeaders token).map fun h => h.1 ++ ":" ++ h.2 ++ "\n")

/-- The canonical form of a request. -/
def canonical (r : UnsignedRequest) (token : Option String) : String :=
  "\n".intercalate
    ["GET", r.path, r.query, r.headerLines token, r.headerNames token, payloadHash]

/-- What a signature holds for: a day, a region and a service. -/
def scope (r : UnsignedRequest) (region : String) : String :=
  r.time.dateStamp ++ "/" ++ region ++ "/s3/aws4_request"

/-- The text that is signed. -/
def textToSign (r : UnsignedRequest) (region : String) (token : Option String) : String :=
  "\n".intercalate
    ["AWS4-HMAC-SHA256", r.time.timeStamp, r.scope region, hexDigest (r.canonical token)]

/-- The key that texts are signed with on a day. -/
def signingKey (secretKey dateStamp region : String) : List UInt8 :=
  [dateStamp, region, "s3", "aws4_request"].foldl
    (fun key step => Hmac.digest key (Text.encode step)) (Text.encode ("AWS4" ++ secretKey))

/-- The headers that sign a request. -/
def sign (r : UnsignedRequest) (c : Credentials) (region : String) : SigningHeaders :=
  let signature := Hmac.digest (signingKey c.secretKey r.time.dateStamp region)
    (Text.encode (r.textToSign region c.sessionToken))
  { authorization :=
      "AWS4-HMAC-SHA256 Credential=" ++ c.accessKey ++ "/" ++ r.scope region ++
        ", SignedHeaders=" ++ r.headerNames c.sessionToken ++
        ", Signature=" ++ Text.hexOfBytes signature
    date := r.time.timeStamp
    payloadHash }

end UnsignedRequest

end SourceDocs
