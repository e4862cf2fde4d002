/-
Automation.Workflow.Registry — the workflows that can be run by id.

A registry holds valid workflows only, one of each id, in the order of
their ids. A workflow that takes the place of another keeps the date the
first one was created and is marked as updated at that time.

Every operation is made of two kinds of steps that each happen at once:
looking an id up (`get?`), and exchanging the whole content for another
(`put`, `drop`).
-/
import Automation.Workflow.Validation

namespace Automation

open Automation.Time (Timestamp)

/-- Workflows by ascending id. -/
structure Registry where
  workflows : List Workflow := []
  deriving Repr, Inhabited

namespace Registry

/-- The workflow of an id. -/
def get? (r : Registry) (id : String) : Option Workflow :=
  r.workflows.find? fun w => w.id == id

/-- The number of workflows. -/
def size (r : Registry) : Nat :=
  r.workflows.length

/-- Set a workflow in the place of its id. -/
def place (w : Workflow) : List Workflow → List Workflow
  | [] => [w]
  | v :: rest =>
    if w.id < v.id then w :: v :: rest
    else if w.id = v.id then w :: rest
    else v :: place w rest

/-- Exchange the content for one that has the workflow. -/
def put (r : Registry) (now : Timestamp) (w : Workflow) : Registry :=
  match r.get? w.id with
  | none => ⟨place w r.workflows⟩
  | some old => ⟨place { w with createdAt := old.createdAt, updatedAt := now } r.workflows⟩

/-- Exchange the content for one without the id. -/
def drop (r : Registry) (id : String) : Registry :=
  ⟨r.workflows.filter fun w => w.id != id⟩

/-- Why a workflow is not taken in: it is not valid. -/
structure Refusal where
  workflow : Workflow

/-- A refusal in words. -/
def Refusal.message (refusal : Refusal) : String :=
  "Workflow validation failed: " ++ refusal.workflow.summary

/-- Add a workflow, or put it in the place of the one of its id. -/
def register (r : Registry) (now : Timestamp) (w : Workflow) :
    Except Refusal (Report × Registry) :=
  if w.isValid then .ok (w.validate, r.put now w) else .error ⟨w⟩

/-- Add a workflow if its id is free. -/
def create (r : Registry) (now : Timestamp) (w : Workflow) :
    Except Refusal (Option Report × Registry) :=
  if w.isValid then
    .ok (if (r.get? w.id).isSome then (none, r) else (some w.validate, r.put now w))
  else .error ⟨w⟩

/-- Take a workflow out. -/
def remove (r : Registry) (id : String) : Option Workflow × Registry :=
  match r.get? id with
  | some w => (some w, r.drop id)
  | none => (none, r)

end Registry

end Automation
