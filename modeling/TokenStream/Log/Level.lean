/-
Levels of log events.

An event is logged at one of five levels, from errors to traces.  A level can be written as a word,
in any letter case, or as a number counted from the most severe level.

* `Level`, `Level.rank` — the levels and their order;
* `Level.name`, `Level.label` — the printed forms;
* `Level.ofNumber?`, `Level.ofName?`, `Level.ofString?` — the written forms.
-/

set_option relaxedAutoImplicit false
set_option autoImplicit false

namespace TokenStream

/-- The levels, most severe first. -/
inductive Level where
  | error
  | warn
  | info
  | debug
  | trace
  deriving DecidableEq, Repr

namespace Level

/-- The number of a level, counted from the most severe one. -/
def rank : Level → Nat
  | error => 1
  | warn => 2
  | info => 3
  | debug => 4
  | trace => 5

/-- The printed form. -/
def name : Level → String
  | error => "ERROR"
  | warn => "WARN"
  | info => "INFO"
  | debug => "DEBUG"
  | trace => "TRACE"

/-- The printed form, moved to the right of five columns. -/
def label (level : Level) : String :=
  String.ofList (List.replicate (5 - level.name.length) ' ') ++ level.name

/-- The level with the given number. -/
def ofNumber? : Nat → Option Level
  | 1 => some error
  | 2 => some warn
  | 3 => some info
  | 4 => some debug
  | 5 => some trace
  | _ => none

/-- The level with the given name, in any letter case. -/
def ofName? (name : String) : Option Level :=
  match name.toLower with
  | "error" => some error
  | "warn" => some warn
  | "info" => some info
  | "debug" => some debug
  | "trace" => some trace
  | _ => none

@[simp] theorem ofNumber?_rank (level : Level) : ofNumber? level.rank = some level := by
  cases level <;> rfl

@[simp] theorem ofName?_name (level : Level) : ofName? level.name = some level := by
  cases level <;> decide +kernel

end Level

/-- The value of an unsigned whole number, which may begin with a plus sign and with zeros. -/
def Numeral.whole? (text : String) : Option Nat :=
  let digits :=
    match text.toList with
    | '+' :: digits => digits
    | digits => digits
  if digits ≠ [] ∧ digits.all Char.isDigit then some (Nat.ofDigitChars 10 digits 0) else none

/-- Reads a level, written as a number or as a name. -/
def Level.ofString? (text : String) : Option Level :=
  (Numeral.whole? text).bind Level.ofNumber? <|> Level.ofName? text

end TokenStream
