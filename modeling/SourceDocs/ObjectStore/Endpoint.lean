import SourceDocs.Config
import SourceDocs.Text.Percent

set_option autoImplicit false

/-! # Endpoints and keys

A bucket is reached through a host of its own at the usual service and through a path at any other.
Exclusion rules see a key without the configured prefix, where the prefix ends at a slash of it. -/

namespace SourceDocs

/-- How requests to a bucket are addressed. -/
structure Endpoint where
  scheme : String
  /-- The host, with its port if it has one. -/
  host : String
  /-- The path of the bucket, without a slash at its end. -/
  bucketPath : String
  deriving DecidableEq

namespace Endpoint

/-- The scheme of an address and what follows its `://`; none if it has no scheme. -/
def splitScheme? : List Char → Option (List Char × List Char)
  | ':' :: '/' :: '/' :: rest => some ([], rest)
  | c :: cs => (splitScheme? cs).map fun (scheme, rest) => (c :: scheme, rest)
  | [] => none

/-- The endpoint of a bucket. -/
def ofBucket (s : BucketSource) : Endpoint :=
  match s.endpoint with
  | some address =>
    let (scheme, rest) := (splitScheme? address.toList).getD ("https".toList, address.toList)
    { scheme := String.ofList scheme
      host := String.ofList (rest.reverse.dropWhile (· = '/')).reverse
      bucketPath := "/" ++ Text.percentEncode s.bucket }
  | none =>
    { scheme := "https", host := s.bucket ++ ".s3." ++ s.region ++ ".amazonaws.com"
      bucketPath := "" }

/-- The path of the object with a key. -/
def objectPath (e : Endpoint) (key : String) : String :=
  e.bucketPath ++ "/" ++ Text.percentEncodePath key

/-- The path under which a bucket is listed. -/
def listingPath (e : Endpoint) : String := e.bucketPath ++ "/"

end Endpoint

namespace BucketSource

/-- What follows a prefix that ends at a slash of the key: at its own last character or just before
the slash. -/
def belowPrefix? (keyPrefix key : List Char) : Option (List Char) :=
  if keyPrefix.getLast? = some '/' then keyPrefix.isPrefixOf? key
  else (keyPrefix.isPrefixOf? key).bind fun rest => ['/'].isPrefixOf? rest

/-- A key without a prefix; the whole key if the prefix is empty or ends inside a segment. -/
def relativeKey (keyPrefix key : String) : String :=
  if keyPrefix = "" then key
  else ((belowPrefix? keyPrefix.toList key.toList).map String.ofList).getD key

end BucketSource

end SourceDocs
