/-
A run on a console.

The acts of a run are performed on a console as they come.  What is printed goes to the output, and
what the user is told goes beside it.  A log event goes beside it too, **if the filter lets it
through**; the filter is asked when the event occurs, and the run goes on either way.

* `Notice`, `Console`, `Console.stderr` — what has been written so far;
* `Console.perform` — one act, performed under a filter;
* `Invocation.runOn` — a run under a filter;
* `Request.execute` — a request, with the filter that the surroundings set.
-/

import TokenStream.Command.Outcome

set_option relaxedAutoImplicit false
set_option autoImplicit false

namespace TokenStream

/-- What is written beside the output. -/
inductive Notice where
  /-- Tells the user about a problem. -/
  | problem (line : String)
  /-- Belongs to the log. -/
  | logged (event : Event)
  deriving DecidableEq, Repr

namespace Notice

/-- The line of a notice. -/
def line : Notice → String
  | problem line => line
  | logged event => event.line

/-- The line of a notice that is not of the log. -/
def problem? : Notice → Option String
  | problem line => some line
  | logged _ => none

end Notice

/-- What has been written so far. -/
structure Console where
  stdout : String := ""
  notices : Array Notice := #[]
  deriving DecidableEq, Repr

namespace Console

/-- The notices, a line each. -/
def stderr (c : Console) : String :=
  String.join (c.notices.toList.map fun notice => notice.line ++ "\n")

/-- The lines beside the output that are not of the log. -/
def problems (c : Console) : List String := c.notices.toList.filterMap Notice.problem?

/-- Performs an act. -/
def perform (f : Filter) (c : Console) : Act → Console
  | .print line => { c with stdout := c.stdout ++ (line ++ "\n") }
  | .complain line => { c with notices := c.notices.push (.problem line) }
  | .log event =>
      if f.shows event then { c with notices := c.notices.push (.logged event) } else c

end Console

/-- A run on an empty console, under a filter, with its exit code. -/
def Invocation.runOn (i : Invocation) (f : Filter) (source : Except SystemError Source) :
    Console × Nat :=
  i.performRun (Console.perform f) {} source

/-- What a request leads to on a console, given the setting of the filter and the source that an
invocation would read.  The filter is only asked for when there is something to run; there is no
outcome if the reader of filters has no answer. -/
def Request.execute (reader : FilterReader) (setting? : Option String) (r : Request)
    (source : Invocation → Except SystemError Source) : Option (Console × Nat) :=
  match r with
  | .run i => (reader.initial setting? i.level).map fun f => i.runOn f (source i)
  | r =>
      match r.outcome source with
      | ⟨acts, exitCode⟩ => some (acts.foldl (Console.perform .silent) {}, exitCode)

end TokenStream
