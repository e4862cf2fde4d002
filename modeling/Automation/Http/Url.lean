/-
Automation.Http.Url — addresses on the web.

An address begins with a scheme. Behind two slashes there may be who asks,
the server and its port; then come a path, a query and a fragment. A path
is written without the steps `.` and `..`; characters that may not stand
in an address are written as `%` and two digits of base sixteen for each
of their bytes.

The schemes of the web always name a server, take a backslash for a slash,
and leave out the port that goes without saying. In the path of a file the
first segment may be the letter of a drive. An address of any other scheme
may do without a server, and then its path need not have segments.

`Url.ofText` reads an address, and `Url.toText` writes it.
-/
import Automation.Http.Host

namespace Automation.Http

open Automation.Text

/-- What follows the server. -/
inductive UrlPath where
  /-- A text without segments. -/
  | plain (text : String)
  /-- Segments with a slash before each of them. -/
  | steps (segments : List String)
  deriving DecidableEq, Repr, Inhabited

/-- An address. -/
structure Url where
  /-- The scheme in lower case. -/
  scheme : String
  /-- Who asks, if that is not empty. -/
  user : String := ""
  password : Option String := none
  /-- The server; one with an empty name is written, but asked nothing. -/
  host : Option Host := none
  /-- The port, if it does not go without saying. -/
  port : Option Nat := none
  path : UrlPath
  /-- The text behind the question mark, if there is one. -/
  query : Option String := none
  /-- The text behind the number sign, if there is one. -/
  fragment : Option String := none
  deriving DecidableEq, Repr, Inhabited

/-- Why a text is not an address. -/
inductive UrlError where
  | relative
  | host (error : HostError)
  | port
  deriving DecidableEq, Repr

/-! ## Schemes -/

/-- The scheme of files. -/
def fileScheme : String := "file"

/-- The schemes of the web, with the ports that go without saying. -/
def webPorts : List (String × Nat) :=
  [("http", 80), ("https", 443), ("ws", 80), ("wss", 443), ("ftp", 21)]

/-- Whether a scheme is one of the web, or that of files. -/
def isWebScheme (scheme : String) : Bool :=
  scheme == fileScheme || webPorts.any (·.1 == scheme)

/-- Whether a character ends the server. -/
def isSlash (web : Bool) (c : Char) : Bool :=
  c == '/' || (web && c == '\\')

/-- The scheme of an address, and what follows it. -/
def scheme? (s : List Char) : Option (String × List Char) := do
  let (scheme, rest) ← cut [':'] s
  guard (scheme.head?.any Char.isAlpha)
  guard (scheme.all fun c => c.isAlphanum || "+-.".contains c)
  return ((String.ofList scheme).toLower, rest)

/-! ## Paths -/

/-- A step that stays where it is. -/
def isHere (segment : String) : Bool :=
  [".", "%2e"].contains segment.toLower

/-- A step that goes back. -/
def isBack (segment : String) : Bool :=
  ["..", ".%2e", "%2e.", "%2e%2e"].contains segment.toLower

/-- Whether a text is the letter of a drive. -/
def isDrive (s : List Char) : Bool :=
  match s with
  | [c, mark] => c.isAlpha && (mark == ':' || mark == '|')
  | _ => false

/-- The steps that a first segment stands for in the path of a file: the
letter of a drive has a colon, and ends a segment. -/
def driveSteps (segment : String) : List String :=
  match segment.toList with
  | [c, '|'] => if c.isAlpha then [String.ofList [c, ':']] else [segment]
  | c :: ':' :: d :: rest =>
    if c.isAlpha then [String.ofList [c, ':'], String.ofList (d :: rest)] else [segment]
  | _ => [segment]

/-- One step back; the letter of a drive stays. -/
def stepBack : List String → List String
  | [] => []
  | last :: done => if isDrive last.toList then last :: done else done

/-- One step on. -/
def stepOn (ofFile : Bool) (done : List String) (segment : String) : List String :=
  if ofFile && done.isEmpty then (driveSteps segment).reverse else segment :: done

/-- The segments of a path after `done`, which is in reverse order. A path
that ends in a step of the two kinds ends in a slash. -/
def resolveSteps (ofFile : Bool) (done : List String) : List String → List String
  | [] => done.reverse
  | s :: rest =>
    let trail (done : List String) := if rest.isEmpty then "" :: done else done
    if isBack s then resolveSteps ofFile (trail (stepBack done)) rest
    else if isHere s then resolveSteps ofFile (trail done) rest
    else resolveSteps ofFile (stepOn ofFile done s) rest

/-- The segments of a path, in the form in which they are sent. -/
def pathSteps (scheme : String) (path : List Char) : List String :=
  let web := isWebScheme scheme
  let slashed := path.map fun c => if isSlash web c then '/' else c
  let segments := splitAt '/' (if slashed.head? == some '/' then slashed.drop 1 else slashed)
  let encoded := segments.map fun s =>
    String.ofList (Host.percentEncode " \"#<>?\x60\x7b\x7d" s)
  let ofFile := scheme == fileScheme
  let steps := resolveSteps ofFile [] encoded
  if ofFile then
    match steps.dropWhile (·.isEmpty) with
    | [] => [""]
    | steps => steps
  else steps

/-! ## Writing -/

/-- The path as a text. -/
def UrlPath.text : UrlPath → String
  | .plain text => text
  | .steps segments => String.join (segments.map ("/" ++ ·))

/-- The server with its port. -/
def Url.server (u : Url) : String :=
  (u.host.map Host.text).getD "" ++ (u.port.map fun port => ":" ++ toString port).getD ""

/-- Who asks, with what ends that. -/
def Url.credentials (u : Url) : String :=
  let password := (u.password.map (":" ++ ·)).getD ""
  if u.user.isEmpty && u.password.isNone then "" else u.user ++ password ++ "@"

/-- The path and the query. -/
def Url.target (u : Url) : String :=
  u.path.text ++ (u.query.map ("?" ++ ·)).getD ""

/-- The address as a text; where no server stands, two slashes at the
beginning of the path are kept apart from the scheme. -/
def Url.toText (u : Url) : String :=
  let server :=
    if u.host.isSome then "//" ++ u.credentials ++ u.server
    else if u.path.text.startsWith "//" then "/."
    else ""
  u.scheme ++ ":" ++ server ++ u.target ++ (u.fragment.map ("#" ++ ·)).getD ""

/-- Whether an address names a server. -/
def Url.hasServer (u : Url) : Bool :=
  u.host.any (!·.text.isEmpty)

/-- An address without who asks. -/
def Url.anonymous (u : Url) : Url :=
  { u with user := "", password := none }

/-! ## Reading -/

/-- The texts before and after the last occurrence of a character. -/
def cutAtLast (mark : Char) (s : List Char) : Option (List Char × List Char) :=
  (cut [mark] s.reverse).map fun (after, before) => (before.reverse, after.reverse)

/-- Where the server ends and its port may begin: at a colon outside of
brackets. -/
def cutPort (inBrackets : Bool) : List Char → List Char × List Char
  | [] => ([], [])
  | c :: rest =>
    if c == ':' && !inBrackets then ([], c :: rest)
    else
      let (host, port) := cutPort (c == '[' || (inBrackets && c != ']')) rest
      (c :: host, port)

/-- The port behind a server, and what follows it. -/
def portOf (web : Bool) (scheme : String) :
    List Char → Except UrlError (Option Nat × List Char)
  | ':' :: s => do
    let digits := s.takeWhile Char.isDigit
    let rest := s.dropWhile Char.isDigit
    if rest.head?.any (!isSlash true ·) then throw .port
    let port := natural? digits
    if port.any (65535 < ·) then throw .port
    let unsaid := if web then webPorts.lookup scheme else none
    return (port.filter fun n => unsaid != some n, rest)
  | rest => return (none, rest)

/-- Who asks, with what may not stand there behind percent signs. -/
def userText (s : List Char) : String :=
  String.ofList (Host.percentEncode " \"#<>?\x60\x7b\x7d/:;=@[\\]^|" s)

/-- Read what follows the two slashes; `isLast` says that neither a query
nor a fragment follows. -/
def Url.ofServer (scheme : String) (s : List Char) (isLast : Bool) : Except UrlError Url := do
  let web := isWebScheme scheme
  let authority := s.takeWhile (!isSlash web ·)
  let path := s.dropWhile (!isSlash web ·)
  let (credentials, named) := (cutAtLast '@' authority).getD ([], authority)
  if authority == ['@'] && !(path.isEmpty && isLast) then throw (.host .empty)
  let (user, password) := cutAt ':' credentials
  let (server, rest) := cutPort false named
  if web && server.isEmpty then throw (.host .empty)
  let host ← (if web then Host.ofText server else Host.ofPlainText server).mapError .host
  if host.text.isEmpty && (!rest.isEmpty || !user.isEmpty || !password.isEmpty) then
    throw (.host .empty)
  let (port, rest) ← portOf web scheme rest
  let path := rest ++ path
  return {
    scheme
    user := userText user
    password := if password.isEmpty then none else some (userText password)
    host := some host
    port
    path := .steps (if !web && path.isEmpty then [] else pathSteps scheme path) }

/-- The server that is named where none needs to be. -/
def unnamed : Host := .name ""

/-- Read what follows the scheme of a file. The server is this one if its
name is `localhost`, and if the path begins with the letter of a drive. -/
def Url.ofFile (s : List Char) : Except UrlError Url := do
  let address (host : Host) (path : List Char) : Url :=
    let steps := pathSteps fileScheme path
    let isLocal := host == .name "localhost" || (steps.head?.any fun s => isDrive s.toList)
    { scheme := fileScheme, host := some (if isLocal then unnamed else host), path := .steps steps }
  if (s.takeWhile (isSlash true)).length < 2 then return address unnamed s
  let s := s.drop 2
  let server := s.takeWhile (!isSlash true ·)
  if server.isEmpty || isDrive server then return address unnamed s
  let host ← (Host.ofText server).mapError .host
  return address host (s.dropWhile (!isSlash true ·))

/-- Read what follows the scheme; `isLast` says that neither a query nor a
fragment follows. -/
def Url.ofRest (scheme : String) (s : List Char) (isLast : Bool) : Except UrlError Url :=
  if scheme == fileScheme then Url.ofFile s
  else if isWebScheme scheme then
    Url.ofServer scheme (s.dropWhile (isSlash true)) isLast
  else
    match s with
    | '/' :: '/' :: rest => Url.ofServer scheme rest isLast
    | '/' :: _ => .ok { scheme, path := .steps (pathSteps scheme s) }
    | _ => .ok { scheme, path := .plain (String.ofList (Host.percentEncode "" s)) }

/-- Read an address. Spaces and controls at both ends do not count, nor do
tabs and ends of lines anywhere. -/
def Url.ofText (text : String) : Except UrlError Url := do
  let isEdge (c : Char) : Bool := c.toNat ≤ 32
  let trimmed := ((text.toList.dropWhile isEdge).reverse.dropWhile isEdge).reverse
  let some (scheme, rest) := scheme? (trimmed.filter fun c => !"\t\n\r".contains c)
    | throw .relative
  let (rest, fragment) := (cut ['#'] rest).map (fun (s, t) => (s, some t)) |>.getD (rest, none)
  let (rest, query) := (cut ['?'] rest).map (fun (s, t) => (s, some t)) |>.getD (rest, none)
  let encoded (marks : String) (part : Option (List Char)) : Option String :=
    part.map fun s => String.ofList (Host.percentEncode marks s)
  let url ← Url.ofRest scheme rest (query.isNone && fragment.isNone)
  return { url with
    query := encoded (if isWebScheme scheme then " \"#<>'" else " \"#<>") query
    fragment := encoded " \"<>\x60" fragment }

end Automation.Http
