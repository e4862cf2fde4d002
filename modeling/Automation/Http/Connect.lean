/-
Automation.Http.Connect — connecting to a server without a network.

A machine that is cut off still tells why no server is reached. It has no
way to any number, and no number of its own that a way to a long one could
start from. Of the names it knows its own; any other has to be asked for,
if it may be the name of a server at all, and nobody answers.
-/
import Automation.Http.Host

namespace Automation.Http

open Automation.Text

/-- Why no connection is made. -/
inductive ConnectError where
  /-- There is no way to the number. -/
  | unreachable
  /-- There is no number to start from. -/
  | noSource
  /-- The number has a meaning on a single link only, and none is given. -/
  | noLink
  /-- The name was asked for in vain. -/
  | unanswered
  /-- The name cannot be asked for. -/
  | unaskable
  deriving DecidableEq, Repr

/-- The error as a text. -/
def ConnectError.message : ConnectError → String
  | .unreachable => "tcp connect error: Network is unreachable (os error 101)"
  | .noSource => "tcp connect error: Cannot assign requested address (os error 99)"
  | .noLink => "tcp connect error: Invalid argument (os error 22)"
  | .unanswered => lookup ++ "Temporary failure in name resolution"
  | .unaskable => lookup ++ "Name or service not known"
where
  /-- What stands before the reason why a name leads nowhere. -/
  lookup : String := "dns error: failed to lookup address information: "

/-- Whether a name can be asked for: its labels have up to 63 letters,
digits, hyphens and underscores each, a hyphen is not the first of them,
and with a byte before every label and one at the end it has up to 255
bytes. -/
def isAskable (name : String) : Bool :=
  let labels := Host.parts name.toList
  let isLabel (label : List Char) : Bool :=
    !label.isEmpty && label.length ≤ 63 &&
      label.all fun c => c.isAlphanum || c == '-' || c == '_'
  labels == [[]] || (labels.all isLabel && name.toList.head? != some '-' &&
    labels.foldl (fun bytes label => bytes + label.length + 1) 1 ≤ 255)

/-- Why a machine without a network does not reach a server. -/
def Host.unreached : Host → ConnectError
  | .short _ => .unreachable
  | .long pieces =>
    let first := pieces.headD 0
    let isShort := (pieces.take 6) == [0, 0, 0, 0, 0, 0xFFFF]
    if isShort || 0xFF00 ≤ first then .unreachable
    else if 0xFE80 ≤ first && first < 0xFEC0 then .noLink
    else .noSource
  | .name "localhost" => .unreachable
  | .name text => if isAskable text then .unanswered else .unaskable

end Automation.Http
