/-!
What can go wrong, as causes. Each kind of failure has one `message` that words
it. An engine call may also panic; `Ending.result` turns a panic into an
ordinary failure, so that nothing past an engine call has to know of panics.
-/

namespace FreshTree

inductive ParseFailure where
  | cancelled
  | failed (reason : String)
deriving DecidableEq

def ParseFailure.message : ParseFailure → String
  | .cancelled => "parse cancelled"
  | .failed reason => "parse failed: " ++ reason

inductive Payload where
  | text (message : String)
  | other
deriving DecidableEq

def Payload.message : Payload → String
  | .text message => message
  | .other => "<non-string payload>"

inductive Ending (A : Type) where
  | returned (result : Except ParseFailure A)
  | panicked (payload : Payload)

/-- The result of an engine call. A panic counts as a failed parse. -/
def Ending.result {A : Type} : Ending A → Except ParseFailure A
  | .returned result => result
  | .panicked payload => .error (.failed ("parse engine panicked: " ++ payload.message))

inductive Unavailable where
  /-- The unit is not active, and the policy serves the active unit only. -/
  | notActive
  | parseFailed (reason : String)
  | cancelled
  | waitTimedOut
  | disposed
deriving DecidableEq

namespace Unavailable

def message : Unavailable → String
  | .notActive => "unit is not the active unit"
  | .parseFailed reason => "parse failed: " ++ reason
  | .cancelled => "request cancelled"
  | .waitTimedOut => "timed out waiting for reconciliation"
  | .disposed => "provider disposed"

def ofParse : ParseFailure → Unavailable
  | .cancelled => .cancelled
  | .failed reason => .parseFailed reason

end Unavailable

inductive ReconcilerFailure where
  | closed
  | disposed
  | noRuntime (reason : String)
deriving DecidableEq

def ReconcilerFailure.message : ReconcilerFailure → String
  | .closed => "reconciler is closed"
  | .disposed => "tree provider disposed"
  | .noRuntime reason => "failed to start reconciler runtime: " ++ reason

end FreshTree
