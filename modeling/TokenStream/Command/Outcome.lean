/-
What the program does: printed lines, complaints, log events and an exit code.

A run goes in *turns*.  Each turn asks for a token, logs what there is to log about it, and either
prints it or ends the run: where no token is left, or at the first token that carries an error.  The
acts of a turn are **performed before the next turn is taken**.  What performing an act means is
left open here, it changes a state; the state can be a console (`Command/Console.lean`), or just the
list of all acts so far, which is what an `Outcome` keeps.

* `Act`, `Outcome`, `Outcome.stdout`, `Outcome.stderr` — what is done, how it ends, and what can be
  seen of it;
* `Invocation.tokenLine`, `Invocation.errorLines` — the lines for a token and for an error;
* `Invocation.turn`, `Invocation.performOnto` — one turn, and turns to the end;
* `Invocation.performRun`, `Invocation.run` — a run over the tokens of a source;
* `Request.outcome` — what a request leads to.
-/

import TokenStream.Command.Request
import TokenStream.Log.Filter
import TokenStream.Scanner

set_option relaxedAutoImplicit false
set_option autoImplicit false

namespace TokenStream

/-- One thing that a run does. -/
inductive Act where
  /-- Prints a line. -/
  | print (line : String)
  /-- Tells the user about a problem. -/
  | complain (line : String)
  | log (event : Event)
  deriving DecidableEq, Repr

/-- All that a run does, in order, and its exit code. -/
structure Outcome where
  acts : List Act
  exitCode : Nat
  deriving DecidableEq, Repr

namespace Outcome

/-- What is printed. -/
def stdout (o : Outcome) : String :=
  String.join (o.acts.map fun
    | .print line => line ++ "\n"
    | _ => "")

/-- The problems and the events that the filter shows, a line each. -/
def stderr (o : Outcome) (f : Filter) : String :=
  String.join (o.acts.map fun
    | .print _ => ""
    | .complain line => line ++ "\n"
    | .log event => if f.shows event then event.line ++ "\n" else "")

end Outcome

/-! ### Runs -/

namespace Invocation

/-- The name of the source. -/
def sourceName (i : Invocation) : String := i.path?.getD "<stdin>"

/-- The line that is printed for a token. -/
def tokenLine (i : Invocation) (t : Token) : String :=
  if i.valuesOnly then t.value
  else s!"{t.position.text} {t.kind.name} {Quoted.quote t.value}"

/-- What the user is told about an error: its name and the advice, if there is any, and the
place. -/
def errorLines (i : Invocation) (e : ScanError) : List String :=
  [match e.cause.advice with
    | .none => s!"Error: {e.cause.name}"
    | advice => s!"Error: {e.cause.name} ({advice.text})",
   s!"-> {i.sourceName}:{e.position.text}"]

/-- The events of a scan, as acts. -/
def scanActs (before after : Caret) (token? : Option Token) : List Act :=
  (Event.ofScan before after token?).map Act.log

/-- What comes of asking for a token. -/
structure Turn where
  acts : List Act
  /-- How the run ends, if it ends here. -/
  exitCode? : Option Nat
  /-- The scanner behind the token. -/
  scanner : Scanner
  deriving DecidableEq, Repr

/-- Asks for a token, where `count` tokens have been printed before. -/
def turn (i : Invocation) (count : Nat) (s : Scanner) : Turn :=
  match s.next? with
  | (none, s') =>
      ⟨scanActs s.caret s'.caret none ++ [.log (.done i.sourceName count)], some 0, s'⟩
  | (some t, s') =>
      match t.error with
      | some e =>
          ⟨scanActs s.caret s'.caret (some t) ++ (i.errorLines e).map .complain, some 1, s'⟩
      | none => ⟨scanActs s.caret s'.caret (some t) ++ [.print (i.tokenLine t)], none, s'⟩

/-- A turn does not end the run when there is a token without an error, and prints it. -/
theorem turn_eq_none_iff {i : Invocation} {count : Nat} {s s' : Scanner} {acts : List Act} :
    i.turn count s = ⟨acts, none, s'⟩ ↔ ∃ t, s.next? = (some t, s') ∧ t.error = none ∧
      acts = scanActs s.caret s'.caret (some t) ++ [.print (i.tokenLine t)] := by
  constructor
  · intro h
    unfold turn at h
    split at h
    · exact nomatch (Turn.mk.inj h).2.1
    · rename_i t left hnext
      split at h
      · exact nomatch (Turn.mk.inj h).2.1
      · rename_i herror
        obtain ⟨rfl, -, rfl⟩ := Turn.mk.inj h
        exact ⟨t, hnext, herror, rfl⟩
  · rintro ⟨t, hnext, herror, rfl⟩
    simp only [turn, hnext, herror]

theorem remaining_turn_lt {i : Invocation} {count : Nat} {s s' : Scanner} {acts : List Act}
    (h : i.turn count s = ⟨acts, none, s'⟩) : s'.remaining < s.remaining := by
  obtain ⟨t, hnext, -, -⟩ := turn_eq_none_iff.1 h
  exact Scanner.remaining_next?_lt hnext

section

variable {σ : Type} (perform : σ → Act → σ)

/-- Takes turns until the run is over, and performs the acts of each turn before the next one is
taken.  The number of tokens printed before is `count`. -/
def performOnto (i : Invocation) (count : Nat) (state : σ) (s : Scanner) : σ × Nat :=
  match _ : i.turn count s with
  | ⟨acts, some exitCode, _⟩ => (acts.foldl perform state, exitCode)
  | ⟨acts, none, s'⟩ => i.performOnto (count + 1) (acts.foldl perform state) s'
termination_by s.remaining
decreasing_by exact remaining_turn_lt ‹_›

/-- The acts before the first token is asked for. -/
def openingActs (i : Invocation) (s : Scanner) : List Act :=
  (Event.tokenizing i.sourceName :: Event.ofRead none s.caret).map Act.log

/-- A run, each act of which is performed on a state.  Opening the source may have failed. -/
def performRun (i : Invocation) (state : σ) : Except SystemError Source → σ × Nat
  | .ok source =>
      i.performOnto perform 0 ((i.openingActs (.ofSource source)).foldl perform state)
        (.ofSource source)
  | .error e =>
      (perform state (.complain s!"Error: failed to open {i.sourceName}: {e.message}"), 1)

end

/-- A run, with its acts kept in order. -/
def run (i : Invocation) (source : Except SystemError Source) : Outcome :=
  match i.performRun Array.push #[] source with
  | (acts, exitCode) => ⟨acts.toList, exitCode⟩

/-- A run over an opened source. -/
def printTokens (i : Invocation) (source : Source) : Outcome := i.run (.ok source)

end Invocation

/-! ### Requests -/

namespace Request

/-- The one-line summary of the command line. -/
def usage : String := "Usage: tokenize [OPTIONS] [PATH]"

/-- The lines of the help text. -/
def helpLines : List String :=
  ["Print the tokens of a source file",
   "",
   usage,
   "",
   "Arguments:",
   "  [PATH]  Source file to tokenize, stdin when omitted",
   "",
   "Options:",
   "      --log-level <LOG_LEVEL>  Log level used when RUST_LOG is not set [default: warn]",
   "      --values-only            Print only token values, one per line",
   "  -h, --help                   Print help",
   "  -V, --version                Print version"]

/-- The line that tells the version. -/
def versionLine : String := "tokenize 0.1.0"

/-- What a request leads to, given the source that an invocation would read. -/
def outcome (r : Request) (source : Invocation → Except SystemError Source) : Outcome :=
  match r with
  | .run i => i.run (source i)
  | .help => ⟨helpLines.map .print, 0⟩
  | .version => ⟨[.print versionLine], 0⟩
  | .mistake => ⟨[.complain usage], 2⟩

end Request

end TokenStream
