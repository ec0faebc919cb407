/-
A run that prints while it reads.

A script says in advance what all reads will meet.  A program that reads a file knows only the reads
that it has made, and it should neither wait for others before it prints what these have decided,
nor make a read before it needs it.

A turn is tried on the reads made so far.  If it gets by with them, it is the same turn however the
script goes on, so its acts can be performed.  If it comes to the end of them, it is forgotten; the
run **pauses in front of it** until one more read has been made.

* `Supply.extend`, up to `Scanner.extend` — scripts that go on;
* `Pause`, `Pause.extend` — a run that waits for a read;
* `Invocation.resumeOnto`, `Pause.resume` — the turns that the reads made so far decide;
* `Pause.finish` — the rest of a run after the last read;
* `Invocation.streamed` — a run that is given its reads one by one.
-/

import TokenStream.Command.Outcome

set_option relaxedAutoImplicit false
set_option autoImplicit false

namespace TokenStream

/-! ### Scripts that go on -/

/-- More events behind those that are still to be played. -/
def Supply.extend (more : Script) : Supply → Supply
  | script events => script (events ++ more)
  | ended ending => ended ending

/-- A source with more events to play. -/
def Source.extend (s : Source) (more : Script) : Source :=
  { s with supply := s.supply.extend more }

/-- A stream over a source with more events to play. -/
def CharStream.extend (s : CharStream) (more : Script) : CharStream :=
  { s with source := s.source.extend more }

/-- A caret in a text with more events to play. -/
def Caret.extend (c : Caret) (more : Script) : Caret :=
  { c with input := c.input.extend more }

/-- A scanner with more events to play. -/
def Scanner.extend (s : Scanner) (more : Script) : Scanner :=
  { s with caret := s.caret.extend more }

/-- Whether the source below the caret has been read to its end. -/
def Caret.isEnded (c : Caret) : Bool := c.input.source.isEnded

/-- Whether the source below the scanner has been read to its end. -/
def Scanner.isEnded (s : Scanner) : Bool := s.caret.isEnded

/-! ### Pauses -/

/-- A run that waits for a read. -/
inductive Pause where
  /-- The reads have not told yet what the first character is. -/
  | opening (events : Script)
  /-- The reads have not told yet what the next token is; `count` tokens have been printed. -/
  | scanning (count : Nat) (s : Scanner)

/-- A pause after more reads. -/
def Pause.extend (more : Script) : Pause → Pause
  | opening events => opening (events ++ more)
  | scanning count s => scanning count (s.extend more)

/-- Takes the turns that get by with the reads made so far, and appends their acts to `done`. -/
def Invocation.resumeOnto (i : Invocation) (count : Nat) (done : Array Act) (s : Scanner) :
    Array Act × Pause :=
  match _ : i.turn count s with
  | ⟨acts, none, s'⟩ =>
      if s'.isEnded then (done, .scanning count s)
      else i.resumeOnto (count + 1) (acts.foldl Array.push done) s'
  | ⟨_, some _, _⟩ => (done, .scanning count s)
termination_by s.remaining
decreasing_by exact Invocation.remaining_turn_lt ‹_›

namespace Pause

/-- The acts in front of the first turn, when the source has been opened before. -/
def openedActs (s : Scanner) : Array Act := ((Event.ofRead none s.caret).map Act.log).toArray

/-- The acts that the reads made so far decide, and the pause behind them. -/
def resume (i : Invocation) : Pause → Array Act × Pause
  | opening events =>
      let s := Scanner.ofSource (.ofScript events)
      if s.isEnded then (#[], opening events) else i.resumeOnto 0 (openedActs s) s
  | scanning count s => i.resumeOnto count #[] s

/-- The acts that are left and the exit code, when no read is left to be made. -/
def finish (i : Invocation) : Pause → Array Act × Nat
  | opening events =>
      let s := Scanner.ofSource (.ofScript events)
      i.performOnto Array.push 0 (openedActs s) s
  | scanning count s => i.performOnto Array.push count #[] s

/-- The acts of a run from a pause on, and the exit code, where the reads that are still to be made
are given one by one. -/
def stream (i : Invocation) (p : Pause) : Script → List Act × Nat
  | [] => (p.finish i).map Array.toList id
  | event :: events =>
      match (p.extend [event]).resume i with
      | (acts, p') => (stream i p' events).map (acts.toList ++ ·) id

end Pause

/-- A run over an opened source that is given its reads one by one. -/
def Invocation.streamed (i : Invocation) (events : Script) : Outcome :=
  match (Pause.opening []).stream i events with
  | (acts, exitCode) => ⟨.log (.tokenizing i.sourceName) :: acts, exitCode⟩

end TokenStream
