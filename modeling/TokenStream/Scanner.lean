/-
A scanner: the tokens of a source, on demand.

A scanner finds tokens one at a time and holds at most one of them back, so that the next token can
be looked at before it is taken.  Once the source has nothing more to give, every request is
answered with the end token.

* `Scanner`, `Scanner.ofSource` — the state, and a scanner at the front of a source;
* `Scanner.peek`, `Scanner.take`, `Scanner.next?`, `Scanner.drain` — looking at a token, taking one,
  and taking all of them;
* `Scanner.Op`, `Scanner.Reply`, `Scanner.apply`, `Scanner.trace` — runs of operations;
* `Source.tokens` — all tokens of a source, or the error that cut them short;
* `Scanner.remaining_next?_lt` — a token that is taken makes what is left smaller.
-/

import TokenStream.Scan

set_option relaxedAutoImplicit false
set_option autoImplicit false

namespace TokenStream

/-- A caret together with a token that was found but not taken. -/
structure Scanner where
  caret : Caret
  held : Option Token
  deriving DecidableEq, Repr

namespace Scanner

/-- A scanner at the front of a source. -/
def ofSource (source : Source) : Scanner := ⟨.ofSource source, none⟩

/-- Makes sure that the next token, if there is one, is held. -/
def fetch (s : Scanner) : Scanner :=
  match s.held with
  | some _ => s
  | none =>
      match s.caret.scan with
      | (token?, caret) => ⟨caret, token?⟩

/-- The next token, which stays where it is. -/
def peek (s : Scanner) : Token × Scanner :=
  match s.fetch with
  | s' => (s'.held.getD .endOfStream, s')

/-- Takes the next token. -/
def take (s : Scanner) : Token × Scanner :=
  match s.fetch with
  | s' => (s'.held.getD .endOfStream, { s' with held := none })

/-- Takes the next token, where the end token counts as none. -/
def next? (s : Scanner) : Option Token × Scanner :=
  match s.take with
  | (t, s') => (if t.isEnd then none else some t, s')

/-! ### Every token that is taken makes the rest smaller -/

/-- What is left to be taken. -/
def remaining (s : Scanner) : Nat := s.caret.remaining + s.held.toList.length

/-- A token that is taken makes what is left smaller. -/
theorem remaining_next?_lt {s s' : Scanner} {t : Token} (h : s.next? = (some t, s')) :
    s'.remaining < s.remaining := by
  obtain ⟨caret, held⟩ := s
  cases held with
  | some token =>
      obtain ⟨-, rfl⟩ := Prod.mk.inj h
      simp [fetch, remaining]
  | none =>
      rcases hscan : caret.scan with ⟨token?, caret'⟩
      simp only [next?, take, fetch, hscan] at h
      cases token? with
      | none => simp at h
      | some token =>
          obtain ⟨-, rfl⟩ := Prod.mk.inj h
          simpa [remaining] using Caret.remaining_scan_lt hscan

/-! ### Taking all tokens -/

/-- Takes tokens up to the end, and appends them to `taken`. -/
def drainOnto (taken : Array Token) (s : Scanner) : Array Token × Scanner :=
  match _ : s.next? with
  | (none, s') => (taken, s')
  | (some t, s') => drainOnto (taken.push t) s'
termination_by s.remaining
decreasing_by exact remaining_next?_lt ‹_›

/-- Takes all tokens up to the end. -/
def drain (s : Scanner) : List Token × Scanner := (drainOnto #[] s).map Array.toList id

/-- How many reads the source has made so far. -/
def reads (s : Scanner) : Nat := s.caret.reads

/-! ### Runs of operations -/

/-- The operations of a scanner. -/
inductive Op where
  | peek
  | take
  | next
  | drain
  deriving DecidableEq, Repr

/-- What an operation answers. -/
inductive Reply where
  | token (token : Token)
  | yielded (token? : Option Token)
  | drained (tokens : List Token)
  deriving DecidableEq, Repr

/-- Performs one operation. -/
def apply (s : Scanner) : Op → Reply × Scanner
  | .peek => s.peek.map .token id
  | .take => s.take.map .token id
  | .next => s.next?.map .yielded id
  | .drain => s.drain.map .drained id

/-- Performs operations in order, and keeps each answer with the state reached. -/
def trace (s : Scanner) : List Op → List (Reply × Scanner)
  | [] => []
  | op :: ops =>
      match s.apply op with
      | (reply, s') => (reply, s') :: s'.trace ops

end Scanner

/-- All tokens of a source, or the error that one of them carries. -/
def Source.tokens (source : Source) : Except ScanError (List Token) :=
  (Scanner.ofSource source).drain.1.mapM Token.check

end TokenStream
