import StackQuery.Error

/-!
The records of commands.

```
queued, then running, then completed, failed or aborted
queued, then aborted
```
-/

namespace StackQuery

inductive CommandStatus where
  | queued
  | running
  | completed
  | failed
  | aborted
  deriving DecidableEq, Repr

namespace CommandStatus

def text : CommandStatus → String
  | .queued => "Queued"
  | .running => "Running"
  | .completed => "Completed"
  | .failed => "Failed"
  | .aborted => "Aborted"

def isFinished : CommandStatus → Bool
  | .completed | .failed | .aborted => true
  | .queued | .running => false

/-- How a run ends: an abort that was asked for turns success into an abort, but not a failure. -/
def ofResult (abortRequested : Bool) : Except Failure Unit → CommandStatus
  | .ok () => if abortRequested then .aborted else .completed
  | .error failure => if failure.isAborted then .aborted else .failed

end CommandStatus

/-- What is known of a command, and whether it was ever started and finished. -/
structure CommandRecord where
  name : String
  status : CommandStatus
  started : Bool
  finished : Bool
  deriving DecidableEq, Repr

namespace CommandRecord

def queued (name : String) : CommandRecord := ⟨name, .queued, false, false⟩

def transition (r : CommandRecord) (status : CommandStatus) : CommandRecord :=
  { r with
    status
    started := r.started || status = .running
    finished := r.finished || status.isFinished }

end CommandRecord

end StackQuery
