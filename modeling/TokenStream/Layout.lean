/-
Writing tokens back into a text.

A list of tokens can be laid out as a text in which every token stands at its own position: line
breaks lead down to its line, spaces lead to its column, and then its value is written.  Scanning
the text gives back the same tokens if they are *well placed*: each of them is a possible token,
each stands behind the one before it, and two tokens touch only where the scanner would not have
taken them together.  A word touches nothing that follows it, and a single equals sign does not
touch another one.

No list with a token of kind `unknown` is well placed.  Such a token is the end of the stream, or it
reports a failure; either way it stands for no piece of a text.

* `Token.isProper` — whether a token could stand in a text at all;
* `Token.gluesTo`, `Token.precedes` — which tokens cannot touch, and which token can follow which;
* `Layout.wellPlaced` — these two conditions on a whole list;
* `Layout.text` — the text with the given tokens.
-/

import TokenStream.Grammar

set_option relaxedAutoImplicit false
set_option autoImplicit false

namespace TokenStream

namespace Token

/-- Whether the characters of a value can be a token of the given kind.  None can be one of kind
`unknown`, which without an error marks the end and stands for no piece of text. -/
def isValueOf (value : List Char) : Kind → Bool
  | .unknown => false
  | .operator => value == ['+']
  | .equality => value == ['=', '=']
  | .assignment => value == ['=']
  | .identifier =>
      match value with
      | [] => false
      | c :: _ => !Grammar.isSymbol c && value.all (!isBlank ·)

/-- Whether a token could stand in a text. -/
def isProper (t : Token) : Bool :=
  t.error.isNone && 1 ≤ t.position.line && 1 ≤ t.position.column && isValueOf t.value.toList t.kind

/-- The position directly behind a token. -/
def stop (t : Token) : Position := ⟨t.position.line, t.position.column + t.value.length⟩

/-- Whether the scanner would take the beginning of `u` into `t` if they touched. -/
def gluesTo (t u : Token) : Bool :=
  t.kind == .identifier ||
    t.kind == .assignment && (u.kind == .assignment || u.kind == .equality)

/-- Whether `u` can be the token that follows `t`. -/
def precedes (t u : Token) : Bool :=
  t.position.line < u.position.line ||
    t.position.line == u.position.line &&
      (t.stop.column < u.position.column ||
        t.stop.column == u.position.column && !t.gluesTo u)

end Token

namespace Layout

/-- Whether each token can follow the one before it. -/
def inOrder : List Token → Bool
  | t :: u :: rest => t.precedes u && inOrder (u :: rest)
  | _ => true

/-- Whether the tokens are those of some text. -/
def wellPlaced (ts : List Token) : Bool := ts.all Token.isProper && inOrder ts

/-- The blanks that lead from one position to another: line breaks, then spaces. -/
def gap (p q : Position) : List Char :=
  if p.line < q.line then
    List.replicate (q.line - p.line) '\n' ++ List.replicate (q.column - 1) ' '
  else List.replicate (q.column - p.column) ' '

/-- The text of the tokens behind the position `p`. -/
def textFrom (p : Position) : List Token → List Char
  | [] => []
  | t :: ts => gap p t.position ++ t.value.toList ++ textFrom t.stop ts

/-- The text with the given tokens. -/
def text (ts : List Token) : List Char := textFrom .start ts

end Layout

end TokenStream
