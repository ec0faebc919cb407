/-
What is logged while tokens are scanned.

An event says what has just happened, and each kind of event has its level and its *target*, the
name of the part of the program that it belongs to.  The events of scanning are not kept by the
scanner: they can be told from the caret before and after a scan and from the token that was found
(`Event.ofScan`), so the scanner works the same whether or not anybody listens.

* `Event`, `Event.level`, `Event.target`, `Event.title`, `Event.values` — the events;
* `Event.message`, `Event.line` — what an event says, and the event as a line of the log, with
  `Event.infix_message`;
* `Event.ofRead`, `Event.ofOutcome`, `Event.ofScan` — the events of one scan.
-/

import TokenStream.Log.Level
import TokenStream.Scan

set_option relaxedAutoImplicit false
set_option autoImplicit false

namespace TokenStream

/-- The events of a run. -/
inductive Event where
  /-- A source has been opened. -/
  | tokenizing (source : String)
  /-- All tokens of a source have been printed. -/
  | done (source : String) (count : Nat)
  /-- A token has been found. -/
  | scanned (token : Token)
  /-- The text is over and there is nothing to report. -/
  | exhausted
  /-- A read has failed while the caret stood at the position. -/
  | readFailed (position : Position) (reason : String)
  /-- The text before the position is over, and the fault behind it is being reported. -/
  | reportingFailure (position : Position)
  deriving DecidableEq, Repr

namespace Event

/-- The level at which an event is logged. -/
def level : Event → Level
  | tokenizing _ => .info
  | done _ _ => .info
  | scanned _ => .trace
  | exhausted => .trace
  | readFailed _ _ => .warn
  | reportingFailure _ => .debug

/-- The part of the program that an event belongs to. -/
def target : Event → String
  | tokenizing _ => "tokenize"
  | done _ _ => "tokenize"
  | scanned _ => "tokenizer::lexer::lexer"
  | exhausted => "tokenizer::lexer::lexer"
  | readFailed _ _ => "tokenizer::lexer::cursor"
  | reportingFailure _ => "tokenizer::lexer::lexer"

/-- What an event says, without its values. -/
def title : Event → String
  | tokenizing _ => "tokenizing"
  | done _ _ => "done"
  | scanned _ => "scanned token"
  | exhausted => "source exhausted"
  | readFailed _ _ => "source read failed"
  | reportingFailure _ => "reporting source read failure"

/-- A position as two named values. -/
def place (p : Position) : List (String × String) :=
  [("line", toString p.line), ("column", toString p.column)]

/-- The values that an event carries, by name. -/
def values : Event → List (String × String)
  | tokenizing source => [("source", source)]
  | done source count => [("source", source), ("tokens", toString count)]
  | scanned t => [("kind", t.kind.name), ("value", t.value)] ++ place t.position
  | exhausted => []
  | readFailed p reason => place p ++ [("error", reason)]
  | reportingFailure p => place p

/-- What an event says, with its values by name. -/
def message (e : Event) : String :=
  e.title ++ String.join (e.values.map fun (name, value) => s!" {name}={value}")

/-- An event as a line of the log. -/
def line (e : Event) : String := s!"{e.level.label} {e.target}: {e.message}"

/-- **Every value of an event is told**, behind its name. -/
theorem infix_message {e : Event} {name value : String} (h : (name, value) ∈ e.values) :
    (s!" {name}={value}").toList <:+: e.message.toList := by
  obtain ⟨before, behind, hsplit⟩ := List.append_of_mem h
  refine ⟨(e.title ++ String.join (before.map fun (name, value) => s!" {name}={value}")).toList,
    (String.join (behind.map fun (name, value) => s!" {name}={value}")).toList, ?_⟩
  rw [message, hsplit, List.map_append, List.map_cons, String.join_append, String.join_cons]
  simp only [String.toList_append, List.append_assoc]

/-! ### The events of one scan -/

/-- A failed read is noticed when the caret knows where it failed and did not know it before. -/
def ofRead (before : Option Position) (after : Caret) : List Event :=
  match before, after.failedAt, after.input.source.fault? with
  | none, some p, some cause => [.readFailed p cause.message]
  | _, _, _ => []

/-- What there is to say about the token that was found, or about finding none. -/
def ofOutcome : Option Token → Event
  | none => .exhausted
  | some t => if t.error.isSome then .reportingFailure t.position else .scanned t

/-- The events of a scan that led from one caret to another and found `token?`. -/
def ofScan (before after : Caret) (token? : Option Token) : List Event :=
  ofRead before.failedAt after ++ [ofOutcome token?]

end Event

end TokenStream
