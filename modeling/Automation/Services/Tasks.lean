/-
Automation.Services.Tasks — the book of tasks.

A task has a status and free fields. Whoever creates or updates a task
gives it fields; the field `status`, unless it is `null`, sets the status
and is not kept among the others. A new task without it is `todo`.
-/
import Automation.Services.Series
import Automation.Workflow.Encode
import Automation.Workflow.Decode
import Automation.Json.Render

namespace Automation

open Automation.Json (Value Fields)
open Automation.Time (Timestamp Face)

/-- A task. -/
structure TaskRecord where
  id : String
  status : String
  fields : Fields
  createdAt : Timestamp
  updatedAt : Timestamp
  deriving Repr, Inhabited

/-- The JSON value of a task. -/
def TaskRecord.toJson (face : Face) (t : TaskRecord) : Value :=
  .ofFields [
    ("id", .string t.id),
    ("status", .string t.status),
    ("fields", .object t.fields),
    ("createdAt", t.createdAt.toJson face),
    ("updatedAt", t.updatedAt.toJson face)]

open Decode in
/-- Read a task. -/
def TaskRecord.decode : Decoder TaskRecord :=
  Reader.decode "TaskRecord" <|
    TaskRecord.mk <$> required "id" text
      <*> required "status" text
      <*> required "fields" Decode.fields
      <*> required "createdAt" decodeTimestamp
      <*> required "updatedAt" decodeTimestamp

/-- The tasks there are, in the order of their creation. -/
structure TaskBook where
  series : Series := { start := "task-" }
  records : List TaskRecord := []
  deriving Repr, Inhabited

/-- A task that there is not. -/
structure UnknownTask where
  id : String
  deriving DecidableEq, Repr

/-- An unknown task in words. -/
def UnknownTask.message (e : UnknownTask) : String :=
  "Task not found: " ++ e.id

namespace TaskBook

/-- The status that fields ask for: a string as it is, anything else but
`null` as JSON. -/
def statusIn (fields : Fields) : Option String :=
  match fields.get? "status" with
  | some (.string s) => some s
  | some .null => none
  | some v => some v.render
  | none => none

/-- The number of tasks. -/
def size (book : TaskBook) : Nat :=
  book.records.length

/-- The task of an id. -/
def get? (book : TaskBook) (id : String) : Option TaskRecord :=
  book.records.find? fun t => t.id == id

/-- Create a task. -/
def create (book : TaskBook) (fields : Fields) (now : Nat) : TaskRecord × TaskBook :=
  let task : TaskRecord := {
    id := book.series.id (book.size + 1)
    status := (statusIn fields).getD "todo"
    fields := fields.erase "status"
    createdAt := .reading now
    updatedAt := .reading now }
  (task, { book with records := book.records ++ [task] })

/-- A task with some fields set. -/
def amend (t : TaskRecord) (updates : Fields) (now : Nat) : TaskRecord :=
  { t with
    status := (statusIn updates).getD t.status
    fields := t.fields.merge (updates.erase "status")
    updatedAt := .reading now }

/-- Set some fields of a task. -/
def update (book : TaskBook) (id : String) (updates : Fields) (now : Nat) :
    Except UnknownTask (TaskRecord × TaskBook) :=
  match book.get? id with
  | some t =>
    let task := amend t updates now
    .ok (task, { book with
      records := book.records.map fun other => if other.id == id then task else other })
  | none => .error ⟨id⟩

end TaskBook

end Automation
