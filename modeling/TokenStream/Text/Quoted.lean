/-
Texts between quotes.

A quoted text stands on one line and can be read back: the quote, the backslash and the usual
control characters are written with a backslash, every other character that cannot be shown as
itself is written by its number in hexadecimal, and all the rest stand for themselves.

* `Quoted.escape` — the written form of one character;
* `Quoted.body` — the written form of a text, character by character;
* `Quoted.quote` — the body between two quotes;
* `Quoted.readBody?`, `Quoted.unquote?` — reading them back.
-/

import TokenStream.Text.Unprintable

set_option relaxedAutoImplicit false
set_option autoImplicit false

namespace TokenStream

namespace Quoted

/-- A character written by its number: the lower-case hexadecimal digits without leading zeros,
between braces. -/
def byNumber (c : Char) : List Char :=
  ['\\', 'u', '\x7b'] ++ Nat.toDigits 16 c.toNat ++ ['\x7d']

/-- The written form of one character. -/
def escape (c : Char) : List Char :=
  if c = '\x00' then ['\\', '0']
  else if c = '\t' then ['\\', 't']
  else if c = '\r' then ['\\', 'r']
  else if c = '\n' then ['\\', 'n']
  else if c = '"' then ['\\', '"']
  else if c = '\\' then ['\\', '\\']
  else if isUnprintable c then byNumber c
  else [c]

/-- The written form of a text, without the quotes around it. -/
def body (cs : List Char) : List Char := cs.flatMap escape

/-- A text between quotes. -/
def quote (s : String) : String := String.ofList ('"' :: body s.toList ++ ['"'])

/-! ### Reading back -/

/-- The value of a lower-case hexadecimal digit. -/
def digitValue? (c : Char) : Option Nat :=
  if '0' ≤ c ∧ c ≤ '9' then some (c.toNat - '0'.toNat)
  else if 'a' ≤ c ∧ c ≤ 'f' then some (c.toNat - 'a'.toNat + 10)
  else none

/-- The character with the number that the digits write. -/
def ofDigits? (digits : List Char) : Option Char := do
  let values ← digits.mapM digitValue?
  let number := values.foldl (fun n d => 16 * n + d) 0
  if number.isValidChar then some (Char.ofNat number) else none

/-- The character that a single letter behind a backslash stands for. -/
def ofLetter? : Char → Option Char
  | '0' => some '\x00'
  | 't' => some '\t'
  | 'r' => some '\r'
  | 'n' => some '\n'
  | '"' => some '"'
  | '\\' => some '\\'
  | _ => none

/-- The text with the given written form; `none` where a backslash is followed by nothing it can be
followed by, and where a quote or a line break stands alone. -/
def readBody? (cs : List Char) : Option (List Char) :=
  match cs with
  | [] => some []
  | '\\' :: 'u' :: '\x7b' :: rest => do
      let c ← ofDigits? (rest.takeWhile (· != '\x7d'))
      let others ← readBody? ((rest.dropWhile (· != '\x7d')).drop 1)
      return c :: others
  | '\\' :: letter :: rest => do
      let c ← ofLetter? letter
      let others ← readBody? rest
      return c :: others
  | c :: rest =>
      if c = '\\' ∨ c = '"' ∨ c = '\n' then none
      else (readBody? rest).map (c :: ·)
termination_by cs.length
decreasing_by
  · have := (List.dropWhile_sublist (l := rest) (· != '\x7d')).length_le
    simp only [List.length_cons, List.length_drop]
    omega
  · simp only [List.length_cons]
    omega
  · simp

/-- The text between two quotes. -/
def unquote? (s : String) : Option String :=
  match s.toList with
  | '"' :: rest =>
      if rest.getLast? = some '"' then (readBody? rest.dropLast).map String.ofList else none
  | _ => none

/-! ### Basic facts -/

@[simp] theorem body_nil : body [] = [] := rfl

@[simp] theorem body_cons (c : Char) (cs : List Char) : body (c :: cs) = escape c ++ body cs := rfl

end Quoted

end TokenStream
