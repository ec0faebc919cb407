/-
What can go wrong when a source is read.

A read either delivers bytes or fails with a *fault*.  A fault is known by its kind, by its kind
together with a message of the reader's own, or by the number that the operating system gave it; in
all three cases the only thing shown to a user is its `Fault.message`.  One kind is special:
an **interrupted** read failed without having done anything and is simply tried again, so it never
ends a source (`Fault.isInterrupted`).

* `FaultKind` — the kinds of faults, with their standard wording `FaultKind.text`;
* `SystemError`, `SystemError.isInterrupted` — a numbered fault of the operating system;
* `Fault`, `Fault.message`, `Fault.isInterrupted`.
-/

set_option relaxedAutoImplicit false
set_option autoImplicit false

namespace TokenStream

/-- The kinds of faults that a reader can meet. -/
inductive FaultKind where
  | notFound
  | permissionDenied
  | connectionRefused
  | connectionReset
  | connectionAborted
  | notConnected
  | addressInUse
  | addressNotAvailable
  | brokenPipe
  | alreadyExists
  | wouldBlock
  | invalidInput
  | invalidData
  | timedOut
  | writeZero
  | interrupted
  | unsupported
  | unexpectedEnd
  | outOfMemory
  | other
  deriving DecidableEq, Repr

/-- The wording of a fault that carries no message of its own. -/
def FaultKind.text : FaultKind → String
  | notFound => "entity not found"
  | permissionDenied => "permission denied"
  | connectionRefused => "connection refused"
  | connectionReset => "connection reset"
  | connectionAborted => "connection aborted"
  | notConnected => "not connected"
  | addressInUse => "address in use"
  | addressNotAvailable => "address not available"
  | brokenPipe => "broken pipe"
  | alreadyExists => "entity already exists"
  | wouldBlock => "operation would block"
  | invalidInput => "invalid input parameter"
  | invalidData => "invalid data"
  | timedOut => "timed out"
  | writeZero => "write zero"
  | interrupted => "operation interrupted"
  | unsupported => "unsupported"
  | unexpectedEnd => "unexpected end of file"
  | outOfMemory => "out of memory"
  | other => "other error"

/-- A fault of the operating system: its number and the system's wording for it. -/
structure SystemError where
  code : Nat
  wording : String
  deriving DecidableEq, Repr

namespace SystemError

/-- An interrupted call has the number 4. -/
def isInterrupted (e : SystemError) : Bool := e.code == 4

/-- The wording followed by the number. -/
def message (e : SystemError) : String := s!"{e.wording} (os error {e.code})"

end SystemError

/-- Why a read failed: a kind, possibly with a message that replaces its wording, or an error of
the operating system. -/
inductive Fault where
  | ofKind (kind : FaultKind)
  | described (kind : FaultKind) (message : String)
  | ofSystem (error : SystemError)
  deriving DecidableEq, Repr

namespace Fault

/-- What a user is told about the fault. -/
def message : Fault → String
  | ofKind kind => kind.text
  | described _ message => message
  | ofSystem error => error.message

/-- An interrupted read did nothing and is tried again. -/
def isInterrupted : Fault → Bool
  | ofKind kind => kind == .interrupted
  | described kind _ => kind == .interrupted
  | ofSystem error => error.isInterrupted

end Fault

end TokenStream
