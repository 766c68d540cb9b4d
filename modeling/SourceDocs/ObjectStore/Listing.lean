import SourceDocs.Time.Reader
import SourceDocs.Xml.Record

set_option autoImplicit false

/-! # Pages of a listing

An object store lists a bucket page by page. Objects without a name below the last slash of their
key stand for folders and are left out. -/

namespace SourceDocs

/-- An object of a bucket. -/
structure StoredObject where
  key : String
  size : Nat
  lastModified : Instant
  deriving DecidableEq

/-- A page of a listing. -/
structure ListingPage where
  /-- All that is listed, in the order of the document. -/
  entries : List StoredObject
  /-- Whether more pages follow. -/
  isTruncated : Bool
  /-- What asks for the next page. -/
  nextToken : Option String
  deriving DecidableEq

namespace StoredObject

/-- The fields of an object in a page. -/
def fields : List (List Char) :=
  ["Key".toList, "LastModified".toList, "Size".toList]

/-- The object that an element describes. An instant that cannot be read counts as the epoch. -/
def ofNode? : Xml.Node → Option StoredObject
  | .text _ => none
  | .element _ attributes parts => do
    guard (Xml.areAttributes [] attributes && Xml.areReadable fields parts)
    let key ← (← Xml.optionalText? "Key".toList parts)
    let modified ← Xml.optionalText? "LastModified".toList parts
    let size ← Xml.optionalField? "Size".toList Xml.size? parts
    return { key, size := size.getD 0
             lastModified := (modified.bind Instant.parseStrict?).getD .epoch }

/-- Whether an object stands for a folder. -/
def isPlaceholder (o : StoredObject) : Bool :=
  o.key = "" || o.key.toList.getLast? = some '/'

end StoredObject

namespace ListingPage

/-- The fields of a page. -/
def fields : List (List Char) :=
  ["Contents".toList, "IsTruncated".toList, "NextContinuationToken".toList]

/-- The page that an element describes. -/
def ofNode? : Xml.Node → Option ListingPage
  | .text _ => none
  | .element _ attributes parts => do
    guard (Xml.areAttributes [] attributes && Xml.areReadable fields parts)
    let contents ← Xml.repeatedField? "Contents".toList parts
    let entries ← contents.mapM StoredObject.ofNode?
    let truncated ← Xml.optionalField? "IsTruncated".toList Xml.truth? parts
    let nextToken ← Xml.optionalText? "NextContinuationToken".toList parts
    return { entries, isTruncated := truncated.getD false, nextToken }

/-- The page that a document describes. -/
def parse? (s : String) : Option ListingPage :=
  (Xml.Node.ofDocument? s).bind ofNode?

/-- The objects of a page; what stands for a folder is none of them. -/
def objects (p : ListingPage) : List StoredObject :=
  p.entries.filter (!·.isPlaceholder)

/-- The token of the page that follows, if one does. -/
def following? (p : ListingPage) : Option String :=
  match p.nextToken with
  | some token => if p.isTruncated then some token else none
  | none => none

end ListingPage

/-! ## Refusals -/

namespace Refusal

/-- The fields of a refusal. -/
def fields : List (List Char) :=
  ["Code".toList, "Message".toList]

/-- The code and the message of the refusal that an element describes. -/
def ofNode? : Xml.Node → Option (String × String)
  | .text _ => none
  | .element _ attributes parts => do
    guard (Xml.areAttributes [] attributes && Xml.areReadable fields parts)
    let code ← (← Xml.optionalText? "Code".toList parts)
    let message ← Xml.optionalText? "Message".toList parts
    return (code, message.getD "")

/-- A refusal as text. A body that describes none is shown itself, up to 500 characters. -/
def describe (body : String) : String :=
  match (Xml.Node.ofDocument? body).bind ofNode? with
  | some (code, message) => if message = "" then code else code ++ ": " ++ message
  | none => String.ofList (body.toList.take 500)

end Refusal

end SourceDocs
