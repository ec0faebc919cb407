/-
The tokens of a text, said without a scanner.

A text is cut into *runs* at its spaces, tabs and line feeds.  A run consists of the symbols that it
begins with and of the word that is left, which is everything from the first character on that is no
symbol; symbols behind that character belong to the word.  Among the symbols at the front each plus
sign stands for itself, and equals signs pair up from the left within each block of them, so that
only a block of odd length leaves a single one, at its end.

This module looks at complete texts and knows nothing of places, lookahead or reading.

* `Lexeme` — what a token says without saying where;
* `Grammar.separates`, `Grammar.runs` — what lies between runs, and the runs of a text;
* `Grammar.equals`, `Grammar.symbols`, `Grammar.ofRun` — the lexemes of a block of equals signs, of
  the symbols at the front of a run, of a run;
* `Grammar.lexemes` — the lexemes of a text.
-/

import TokenStream.Token

set_option relaxedAutoImplicit false
set_option autoImplicit false

namespace TokenStream

/-- A kind together with the characters that were written. -/
structure Lexeme where
  kind : Kind
  value : String
  deriving DecidableEq, Repr

/-- What a token says without saying where. -/
def Token.lexeme (t : Token) : Lexeme := ⟨t.kind, t.value⟩

namespace Grammar

/-- Dropping never makes a text longer. -/
theorem length_dropWhile_le (p : Char → Bool) (cs : List Char) :
    (cs.dropWhile p).length ≤ cs.length :=
  (List.dropWhile_sublist p).length_le

/-! ### Runs -/

/-- Whether a character separates runs: a space, a tab or a line feed. -/
def separates (c : Char) : Bool := c = ' ' ∨ c = '\t' ∨ c = '\n'

/-- The longest pieces of a text that hold no separator, in order. -/
def runs (cs : List Char) : List (List Char) :=
  match cs with
  | [] => []
  | c :: rest =>
      if separates c then runs rest
      else (c :: rest.takeWhile (!separates ·)) :: runs (rest.dropWhile (!separates ·))
termination_by cs.length
decreasing_by
  · simp
  · exact Nat.lt_succ_of_le (length_dropWhile_le _ _)

/-! ### Inside a run -/

/-- Whether a character is a symbol on its own. -/
def isSymbol (c : Char) : Bool := (Kind.ofSymbol? c).isSome

/-- The lexemes of a block of `k` equals signs: pairs, and a single one at the end if `k` is odd. -/
def equals (k : Nat) : List Lexeme :=
  List.replicate (k / 2) ⟨.equality, "=="⟩ ++ if k % 2 = 1 then [⟨.assignment, "="⟩] else []

/-- The lexemes of a sequence of symbols. -/
def symbols (cs : List Char) : List Lexeme :=
  match cs with
  | [] => []
  | c :: rest =>
      if c = '=' then
        equals (1 + (rest.takeWhile (· == '=')).length) ++ symbols (rest.dropWhile (· == '='))
      else ⟨.operator, String.singleton c⟩ :: symbols rest
termination_by cs.length
decreasing_by
  · exact Nat.lt_succ_of_le (length_dropWhile_le _ _)
  · simp

/-- The lexemes of a run: those of the symbols at its front, and the word behind them, if any. -/
def ofRun (run : List Char) : List Lexeme :=
  symbols (run.takeWhile isSymbol) ++
    match run.dropWhile isSymbol with
    | [] => []
    | word => [⟨.identifier, String.ofList word⟩]

/-- The lexemes of a text. -/
def lexemes (cs : List Char) : List Lexeme := (runs cs).flatMap ofRun

end Grammar

end TokenStream
