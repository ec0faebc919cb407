/-
Tokens: classified pieces of a text.

A text is cut into symbols and words.  Two characters are symbols on their own, one pair of
characters is a symbol as a whole, and everything else that is not blank belongs to words.  A token
says what it is, where it begins and what was written there.

Two tokens stand for no piece of text.  The *end token* (`Token.endOfStream`, which is also the
default) is answered when there is nothing more to answer; a token that carries an error says that
the source failed and that the text behind its position is missing.  Both are of kind `unknown`, and
only the absence of an error marks the end (`Token.isEnd`).

* `Kind`, `Kind.ofSymbol?`, `Kind.ofPair?`, `isBlank` — how characters are classified;
* `ScanError`, `Advice` — what a token can report instead of text, and what a user may be told about
  it;
* `Token`, `Token.endOfStream`, `Token.isEnd`, `Token.isOneOf`;
* `Token.text` — the written form of a token.
-/

import TokenStream.Position
import TokenStream.Text.Quoted

set_option relaxedAutoImplicit false
set_option autoImplicit false

namespace TokenStream

/-! ### Kinds -/

/-- What a piece of text is. -/
inductive Kind where
  | unknown
  | operator
  | equality
  | assignment
  | identifier
  deriving DecidableEq, Inhabited, Repr

namespace Kind

/-- The name of a kind, as it is printed. -/
def name : Kind → String
  | unknown => "Unknown"
  | operator => "Operator"
  | equality => "Equality"
  | assignment => "Assignment"
  | identifier => "Identifier"

/-- The kind of a character that is a symbol on its own. -/
def ofSymbol? (c : Char) : Option Kind :=
  if c = '+' then some operator
  else if c = '=' then some assignment
  else none

/-- The kind of two characters that are one symbol together. -/
def ofPair? (first second : Char) : Option Kind :=
  if first = '=' ∧ second = '=' then some equality else none

end Kind

/-- Blanks separate words and belong to no token. -/
def isBlank (c : Char) : Bool := c == ' ' || c == '\t' || c == '\n'

theorem isBlank_iff {c : Char} : isBlank c = true ↔ c = ' ' ∨ c = '\t' ∨ c = '\n' := by
  simp [isBlank, or_assoc]

/-- The blanks that break no line. -/
theorem isBlank_iff_of_ne {c : Char} (h : c ≠ '\n') :
    isBlank c = true ↔ c = ' ' ∨ c = '\t' := by
  simp [isBlank_iff, h]

theorem not_isBlank_of_ne {c : Char} (hline : c ≠ '\n') (hspace : ¬(c = ' ' ∨ c = '\t')) :
    isBlank c = false :=
  Bool.eq_false_iff.2 fun hblank => hspace ((isBlank_iff_of_ne hline).1 hblank)

/-! ### Errors -/

/-- Advice that goes with an error. -/
inductive Advice where
  | none
  | given (words : String)
  deriving DecidableEq, Repr

/-- The advice as it is printed; no advice prints as nothing. -/
def Advice.text : Advice → String
  | none => ""
  | given words => words

namespace ScanError

/-- Why scanning stopped: the only reason is that the source could not be read. -/
inductive Cause where
  | sourceRead (reason : String)
  deriving DecidableEq, Repr

namespace Cause

/-- The short name of the cause. -/
def name : Cause → String
  | sourceRead _ => "SourceRead"

/-- The reason that the source gave. -/
def reason : Cause → String
  | sourceRead reason => reason

/-- The cause in a sentence. -/
def message : Cause → String
  | sourceRead reason => s!"failed to read source: {reason}"

/-- What the cause means for the user. -/
def advice : Cause → Advice
  | sourceRead reason =>
      .given s!"Reading the source failed: {reason}, tokens after this point are missing"

end Cause

end ScanError

/-- Why, and where, scanning stopped. -/
structure ScanError where
  cause : ScanError.Cause
  position : Position
  deriving DecidableEq, Repr

/-- The cause together with the place. -/
def ScanError.message (e : ScanError) : String := s!"{e.cause.message} at {e.position.text}"

/-! ### Tokens -/

/-- A piece of text with its kind and the place where it begins, or a report that there is no more
text. -/
structure Token where
  kind : Kind := .unknown
  position : Position := {}
  value : String := ""
  error : Option ScanError := none
  deriving DecidableEq, Repr

namespace Token

/-- The answer when nothing is left. -/
def endOfStream : Token := {}

instance : Inhabited Token := ⟨endOfStream⟩

/-- The report that the text behind `position` could not be read. -/
def failure (reason : String) (position : Position) : Token :=
  { position, error := some ⟨.sourceRead reason, position⟩ }

/-- Whether the token says that nothing is left; a token that carries an error does not. -/
def isEnd (t : Token) : Bool := t.kind == .unknown && t.error.isNone

/-- Whether the token is of one of the given kinds. -/
def isOneOf (t : Token) (kinds : List Kind) : Bool := kinds.contains t.kind

/-- The written form of a token: its kind, its value between quotes, its position. -/
def text (t : Token) : String := s!"{t.kind.name} {Quoted.quote t.value}@{t.position.text}"

/-- The token itself, or the error that it carries. -/
def check (t : Token) : Except ScanError Token :=
  match t.error with
  | some error => .error error
  | none => .ok t

@[simp] theorem isEnd_endOfStream : endOfStream.isEnd = true := rfl

@[simp] theorem isEnd_failure (reason : String) (p : Position) :
    (failure reason p).isEnd = false := rfl

end Token

end TokenStream
