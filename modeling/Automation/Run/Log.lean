/-
Automation.Run.Log — the log of a node.

A logger keeps the entries that are at least as weighty as its threshold,
in the order in which they are written; without a threshold it keeps
none. What a node wants to say is a `Note`; it becomes an entry when it is
kept, and is then dated.
-/
import Automation.Workflow.Encode
import Automation.Workflow.Decode

namespace Automation

open Automation.Json (Value)
open Automation.Time (Timestamp Face)

/-- Something to be logged. -/
structure Note where
  level : LogLevel
  message : String
  data : Option Value := none
  deriving Repr, Inhabited

/-- A line of a log. -/
structure LogEntry where
  timestamp : Timestamp
  level : LogLevel
  message : String
  data : Option Value
  deriving Repr, Inhabited

/-- The JSON value of an entry; data are written only if there are any. -/
def LogEntry.toJson (face : Face) (e : LogEntry) : Value :=
  .ofFields ([
    ("timestamp", e.timestamp.toJson face),
    ("level", variantJson LogLevel.names e.level),
    ("message", .string e.message)] ++
    e.data.toList.map (fun data => ("data", data)))

open Decode in
/-- Read an entry. -/
def LogEntry.decode : Decoder LogEntry :=
  Reader.decode "LogEntry" <|
    LogEntry.mk <$> required "timestamp" decodeTimestamp
      <*> required "level" (variant LogLevel.names)
      <*> required "message" text
      <*> perhaps "data" any

/-- The entries that were kept, and what it takes to be kept. -/
structure Logger where
  threshold : Option LogLevel
  entries : List LogEntry := []
  deriving Repr, Inhabited

namespace Logger

/-- An empty log under the given settings. -/
def ofSettings (logging : Logging) : Logger where
  threshold := if logging.enabled then some logging.level else none

/-- Whether entries of this level are kept. -/
def keeps (log : Logger) (level : LogLevel) : Bool :=
  match log.threshold with
  | some threshold => threshold.rank ≤ level.rank
  | none => false

/-- Write a note at the given time. -/
def write (log : Logger) (now : Nat) (note : Note) : Logger :=
  if log.keeps note.level then
    { log with entries := log.entries ++ [⟨.reading now, note.level, note.message, note.data⟩] }
  else log

/-- Write notes in order, all at one time. -/
def writeAll (log : Logger) (now : Nat) (notes : List Note) : Logger :=
  notes.foldl (fun log note => log.write now note) log

/-- The entries, and the log without them. -/
def drain (log : Logger) : List LogEntry × Logger :=
  (log.entries, { log with entries := [] })

end Logger

end Automation
