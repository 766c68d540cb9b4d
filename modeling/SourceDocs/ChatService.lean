import SourceDocs.Generation
import SourceDocs.Http
import SourceDocs.Json.Decode

set_option autoImplicit false

/-! # Generators: the disabled one and the chat service

A chat service takes a prompt as the only message of a conversation and answers with a list of
choices, of which the first counts. -/

namespace SourceDocs

/-- Access to a chat service. -/
structure ChatClient where
  model : String
  /-- The address at which the service takes conversations. -/
  endpoint : String
  apiKey : String

namespace ChatClient

/-- An address without the slashes at its end. -/
def trimSlashes (url : String) : String :=
  String.ofList (url.toList.reverse.dropWhile (· = '/')).reverse

/-- The client for a model of the service at an address. -/
def ofAddress (model baseUrl apiKey : String) : ChatClient :=
  { model, endpoint := trimSlashes baseUrl ++ "/chat/completions", apiKey }

/-- The body of a request. -/
def body (c : ChatClient) (prompt : String) : Json :=
  .object [("messages", .array [.object [("content", .string prompt), ("role", .string "user")]]),
    ("model", .string c.model)]

/-- The request for an answer to a prompt. -/
def request (c : ChatClient) (prompt : String) : HttpRequest :=
  { method := .post, url := c.endpoint
    headers := [("Authorization", "Bearer " ++ c.apiKey), ("Content-Type", "application/json")]
    body := (c.body prompt).compactText }

/-- The text in an answer. -/
def readAnswer (j : Json) : Reply :=
  let content? := do
    let choice ← (← j.get? "choices").item? 0
    (← (← choice.get? "message").get? "content").text?
  match content? with
  | some text => .ok text
  | none => .error (.malformed "missing choices[0].message.content")

/-- What a reply of the service comes to. -/
def readReply : HttpReply → Reply
  | .noConnection => .error (.transport HttpReply.noConnectionMessage)
  | .interrupted status =>
    if HttpReply.isSuccess status then .error (.malformed HttpReply.bodyMessage)
    else .error (.status status "")
  | .response status body =>
    if HttpReply.isSuccess status then
      match (Text.decode? body).bind Json.parseWhole? with
      | some j => readAnswer j
      | none => .error (.malformed HttpReply.bodyMessage)
    else .error (.status status (Text.forgiving body))

end ChatClient

/-- Where texts come from. -/
inductive Provider where
  | disabled
  | chat (client : ChatClient)

/-- Why there is no provider. -/
inductive ProviderError where
  | missingKey
  | unknown (name : String)

namespace ProviderError

/-- The environment variable that holds the key of the chat service. -/
def keyVariable : String := "OPENAI_API_KEY"

/-- The error as text. -/
def message : ProviderError → String
  | missingKey => keyVariable ++ " environment variable not set"
  | unknown name => "Unknown generation provider: " ++ name

end ProviderError

namespace Provider

/-- The provider with a name; the chat service needs a key that is not empty. -/
def ofName (name model baseUrl : String) (key : Option String) : Except ProviderError Provider :=
  if name = "disabled" then .ok .disabled
  else if name = "openai" then
    match key with
    | none => .error .missingKey
    | some key =>
      if key = "" then .error .missingKey
      else .ok (.chat (.ofAddress model baseUrl key))
  else .error (.unknown name)

/-- The generator of a provider, given how requests are sent. -/
def generator {m : Type → Type} [Monad m] (send : HttpRequest → m HttpReply) :
    Provider → Generator m
  | disabled => { modelName := "disabled", answer := fun _ => pure (.error .disabled) }
  | chat c =>
    { modelName := c.model
      answer := fun prompt => ChatClient.readReply <$> send (c.request prompt) }

end Provider

end SourceDocs
