import SourceDocs.Text.Utf8

set_option autoImplicit false

/-! # HTTP messages as a client sees them -/

namespace SourceDocs

/-- What a request asks for. -/
inductive HttpMethod where
  | get
  | post
  deriving DecidableEq

namespace HttpMethod

/-- The method as it stands in a request. -/
def name : HttpMethod → String
  | get => "GET"
  | post => "POST"

end HttpMethod

/-- A request. -/
structure HttpRequest where
  method : HttpMethod
  /-- The address, as it is handed to the client that sends the request. What the client makes of
  it, such as a path without dot segments, is not said here. -/
  url : String
  headers : List (String × String) := []
  body : String := ""

namespace HttpRequest

/-- Scheme and authority of an address, and what follows them. -/
def splitOrigin : List Char → List Char × List Char
  | ':' :: '/' :: '/' :: rest =>
    (':' :: '/' :: '/' :: rest.takeWhile (· ≠ '/'), rest.dropWhile (· ≠ '/'))
  | c :: rest =>
    let (origin, target) := splitOrigin rest
    (c :: origin, target)
  | [] => ([], [])

/-- Scheme and authority of a request's address. -/
def origin (r : HttpRequest) : String := String.ofList (splitOrigin r.url.toList).1

/-- Path and query of a request's address. -/
def target (r : HttpRequest) : String := String.ofList (splitOrigin r.url.toList).2

/-- The value of a header. -/
def header? (r : HttpRequest) (name : String) : Option String :=
  r.headers.lookup name

end HttpRequest

/-- What became of a request. -/
inductive HttpReply where
  /-- There was no connection. -/
  | noConnection
  /-- A response began, but its body broke off. -/
  | interrupted (status : Nat)
  | response (status : Nat) (body : ByteArray)

namespace HttpReply

/-- What is reported where there was no connection. -/
def noConnectionMessage : String := "error sending request"

/-- What is reported where a body broke off or is not of the form that it has to be of. -/
def bodyMessage : String := "error decoding response body"

/-- Whether a status reports success. -/
def isSuccess (status : Nat) : Bool := 200 ≤ status && status < 300

/-- What a reply delivers: the whole body of a response that reports success. -/
def content? : HttpReply → Option ByteArray
  | response status body => if isSuccess status then some body else none
  | interrupted _ => none
  | noConnection => none

/-- The reasons that go with statuses. -/
def reasons : List (Nat × String) :=
  [(100, "Continue"), (101, "Switching Protocols"), (102, "Processing"), (103, "Early Hints"),
    (200, "OK"), (201, "Created"), (202, "Accepted"), (203, "Non Authoritative Information"),
    (204, "No Content"), (205, "Reset Content"), (206, "Partial Content"), (207, "Multi-Status"),
    (208, "Already Reported"), (226, "IM Used"), (300, "Multiple Choices"),
    (301, "Moved Permanently"), (302, "Found"), (303, "See Other"), (304, "Not Modified"),
    (305, "Use Proxy"), (307, "Temporary Redirect"), (308, "Permanent Redirect"),
    (400, "Bad Request"), (401, "Unauthorized"), (402, "Payment Required"), (403, "Forbidden"),
    (404, "Not Found"), (405, "Method Not Allowed"), (406, "Not Acceptable"),
    (407, "Proxy Authentication Required"), (408, "Request Timeout"), (409, "Conflict"),
    (410, "Gone"), (411, "Length Required"), (412, "Precondition Failed"),
    (413, "Payload Too Large"), (414, "URI Too Long"), (415, "Unsupported Media Type"),
    (416, "Range Not Satisfiable"), (417, "Expectation Failed"), (418, "I'm a teapot"),
    (421, "Misdirected Request"), (422, "Unprocessable Entity"), (423, "Locked"),
    (424, "Failed Dependency"), (425, "Too Early"), (426, "Upgrade Required"),
    (428, "Precondition Required"), (429, "Too Many Requests"),
    (431, "Request Header Fields Too Large"), (451, "Unavailable For Legal Reasons"),
    (500, "Internal Server Error"), (501, "Not Implemented"), (502, "Bad Gateway"),
    (503, "Service Unavailable"), (504, "Gateway Timeout"), (505, "HTTP Version Not Supported"),
    (506, "Variant Also Negotiates"), (507, "Insufficient Storage"), (508, "Loop Detected"),
    (510, "Not Extended"), (511, "Network Authentication Required")]

/-- A status with its reason. -/
def statusText (status : Nat) : String :=
  toString status ++ " " ++ (reasons.lookup status).getD "<unknown status code>"

end HttpReply

end SourceDocs
