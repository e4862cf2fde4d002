/-
Automation.Http.Wire — calls to the web as they go over the wire.

`onWire` says what is sent to the server for a request, or why nothing is
sent; `Received.read` is what a workflow sees of the reply. A body that is
a text is sent as it stands, any other as JSON. `unreached` is what becomes
of a request on a machine without a network.
-/
import Automation.Http.Connect
import Automation.Http.Message
import Automation.Http.Url
import Automation.Services.Behaviour
import Automation.Services.Request

namespace Automation.Http

open Automation.Json (Value)

/-- What is sent to a server. -/
structure Sent where
  /-- The method, what is asked for, and the version. -/
  line : String
  /-- The names of the headers in lower case, with their values. -/
  headers : List (String × String)
  body : String
  deriving DecidableEq, Repr, Inhabited

/-- What a server sends back. -/
structure Received where
  status : Nat
  headers : List (String × String)
  body : String
  deriving DecidableEq, Repr, Inhabited

/-- Why a call has no response. -/
inductive CallError where
  | unknownMethod (method : String)
  | badUrl (error : UrlError)
  /-- The address has a scheme that no calls are made with, or no server. -/
  | badScheme (url : Url)
  /-- The address cannot be told to a server. -/
  | badTarget (url : Url)
  | badHeaderName
  | badHeaderValue
  | timeout (url : Url)
  | connect (url : Url) (error : ConnectError)
  deriving DecidableEq, Repr

/-- What is wrong with a text as an address, in words. -/
def UrlError.message : UrlError → String
  | .relative => "relative URL without a base"
  | .port => "invalid port number"
  | .host .empty => "empty host"
  | .host .badName => "invalid international domain name"
  | .host .badCharacter => "invalid domain character"
  | .host .badShort => "invalid IPv4 address"
  | .host .badLong => "invalid IPv6 address"

/-- The error as a text. -/
def CallError.message : CallError → String
  | .unknownMethod method => "Unsupported HTTP method: " ++ method
  | .badUrl e => failed ("builder error: " ++ e.message)
  | .badScheme url => failedFor url "builder error" "URL scheme is not allowed"
  | .badTarget url => failedFor url "builder error" "Parsed Url is not a valid Uri"
  | .badHeaderName => failed "builder error: invalid HTTP header name"
  | .badHeaderValue => failed "builder error: failed to parse header value"
  | .timeout url => failedFor url "error sending request" "operation timed out"
  | .connect url e =>
    failedFor url "error sending request" ("error trying to connect: " ++ e.message)
where
  /-- A call that failed for a reason. -/
  failed (reason : String) : String := "HTTP request failed: " ++ reason
  /-- A call to an address that failed for a reason of some kind. -/
  failedFor (url : Url) (kind reason : String) : String :=
    failed (kind ++ " for url (" ++ url.toText ++ "): " ++ reason)

/-! ## Sending -/

/-- The methods that a call may have. -/
def callMethods : List String :=
  ["GET", "POST", "PUT", "DELETE", "PATCH"]

/-- The schemes that a call may be made with. -/
def callSchemes : List String :=
  ["http", "https"]

/-- A text in upper case, as far as that leads to a letter of a method: the
long s and the two ligatures of s and t are the only characters outside
ASCII that do. -/
def upperText (text : String) : String :=
  String.ofList <| text.toList.flatMap fun c =>
    match c.toNat with
    | 0x17F => ['S']
    | 0xFB05 | 0xFB06 => ['S', 'T']
    | _ => [c.toUpper]

/-- The method in upper case, if a call may have it. -/
def callMethod? (method : String) : Option String :=
  callMethods.find? (· == upperText method)

/-- Whether a byte may stand in the value of a header: a tab, or a byte
that is no control. -/
def isValueByte (b : Nat) : Bool :=
  b == 9 || (32 ≤ b && b != 127)

/-- A header in the form in which it is sent. -/
def headerLine (name value : String) : Except CallError (String × String) :=
  if name.isEmpty || !name.toList.all isNameChar then .error .badHeaderName
  else if !(Text.Utf8.write value).all isValueByte then .error .badHeaderValue
  else .ok (name.toLower, value)

/-- Add a header if there is none of its name. -/
def withDefault (name value : String) (headers : List (String × String)) :
    List (String × String) :=
  if headers.any (·.1 == name) then headers else headers ++ [(name, value)]

/-- The body of a request as a text, and the headers it calls for. -/
def bodyOnWire (headers : List (String × String)) :
    Option Value → List (String × String) × String
  | none | some .null => (headers, "")
  | some (.string text) => (headers ++ [("content-type", "text/plain")], text)
  | some body => (withDefault "content-type" "application/json" headers, body.render)

/-- Whether bytes are those of a text. -/
def isText (s : String) : Bool :=
  (Text.Utf8.read? (percentDecode (Text.Utf8.write s))).isSome

/-- The address that a request is sent to: who asks is told in a header
instead, if that is a text. -/
def Url.sent (url : Url) : Url :=
  if isText url.user && (!url.user.isEmpty || url.password.any isText) then url.anonymous else url

/-- The greatest length of an address that is told to a server. -/
def longestUrl : Nat := 65534

/-- Whether an address can be told to a server. -/
def isSendable (url : Url) : Bool :=
  !(url.server.toList.any fun c => "\"\x60\x7b\x7d".contains c) &&
    url.toText.length ≤ longestUrl

/-- What is sent for a request, and the address it is sent to. -/
def onWire (r : WebRequest) : Except CallError (Url × Sent) := do
  let some method := callMethod? r.method | throw (.unknownMethod r.method)
  let url ← (Url.ofText r.url).mapError .badUrl
  if !url.hasServer then throw (.badScheme url)
  let url := url.sent
  let given ← r.headers.mapM fun (name, value) => headerLine name value
  if !(callSchemes.contains url.scheme) then throw (.badScheme url)
  if !isSendable url then throw (.badTarget url)
  let (headers, body) := bodyOnWire given r.body
  let length := toString (Text.Utf8.write body).length
  let measured := if body.isEmpty then headers else withDefault "content-length" length headers
  return (url, {
    line := method ++ " " ++ url.target ++ " HTTP/1.1"
    headers := withDefault "host" url.server (withDefault "accept" "*/*" measured)
    body })

/-! ## Receiving -/

/-- Drop spaces and tabs at both ends. -/
def trimValue (value : String) : String :=
  let isGap (c : Char) : Bool := c == ' ' || c == '\t'
  String.ofList ((value.toList.dropWhile isGap).reverse.dropWhile isGap).reverse

/-- Whether a text is made of visible ASCII characters, spaces and tabs. -/
def isVisible (value : String) : Bool :=
  value.toList.all fun c => c == '\t' || (32 ≤ c.toNat && c.toNat < 127)

/-- The headers of a reply, among them those the server always adds. -/
def Received.allHeaders (r : Received) : List (String × String) :=
  r.headers ++
    [("content-length", toString (Text.Utf8.write r.body).length), ("connection", "close")]

/-- The text of a reply; a status that stands for no content has none, and
a mark of the byte order in front is left out. -/
def Received.text (r : Received) : String :=
  if r.status == 204 || r.status == 304 then ""
  else
    match r.body.toList with
    | c :: rest => if c.toNat == 0xFEFF then String.ofList rest else r.body
    | [] => ""

/-- The response that a workflow sees: of two headers with one name the
later one, and the body as JSON if it is that. -/
def Received.read (r : Received) : WebResponse where
  status := r.status
  headers := r.allHeaders.foldl (fun all (name, value) =>
    let value := trimValue value
    if isVisible value then all.insert name.toLower value else all) ([] : Decode.Texts)
  body := (Value.ofText? r.text).getD (.string r.text)

/-- What becomes of a request on a machine without a network. -/
def unreached (r : WebRequest) : Behaviour WebResponse :=
  .atOnce <| .failure <| CallError.message <|
    match onWire r with
    | .ok (url, _) =>
      if r.timeout == 0 then .timeout url
      else .connect url ((url.host.map Host.unreached).getD .noSource)
    | .error e => e

/-- The response to a request to which the server replies, or stays silent. -/
def respond (r : WebRequest) (reply : Option Received) : Except CallError WebResponse := do
  let (url, _) ← onWire r
  match reply with
  | some reply => return reply.read
  | none => throw (.timeout url)

end Automation.Http
