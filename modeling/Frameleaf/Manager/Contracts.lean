import Mathlib.Data.Int.Notation
import Frameleaf.Lib.Json

namespace Frameleaf.Manager

open Json

/-!
# The manager's operations

An operation is one piece of maintenance of an installation, from its start to
its completion.  Every other state, also a failed one, still owns the
installation.
-/

/-- The identifier of an operation. -/
abbrev OperationId := String

/-- What an operation does. -/
inductive OperationKind where
  | install
  | import
  | update
  | backup
  | restore
  | start
  | stop
  | restart
  | reconfigure
  | recoverSource
  | moveLibrary
deriving DecidableEq, Repr

/-- How far an operation has come. -/
inductive OperationState where
  | running
  | awaitingReview
  | interrupted
  | failed
  | complete
deriving DecidableEq, Repr

/-- A journaled operation. -/
structure Operation where
  id : OperationId
  kind : OperationKind
  state : OperationState
  step : Option String
  completed : List String
  error : Option String
  detail : Option (Option String) := none
  createdAt : ℤ
  updatedAt : ℤ
  input : Fields
  receipts : Fields
deriving DecidableEq

/-- A refusal of the manager, named by its code. -/
structure Refusal where
  code : String
  status : ℕ := 409
  detail : Option String := none
deriving DecidableEq, Repr

/-- An operation gives the installation free only when it is complete. -/
def Operation.isOpen
    (operation : Operation) : Bool :=
  operation.state != .complete

end Frameleaf.Manager
