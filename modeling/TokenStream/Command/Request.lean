/-
What a command line asks for.

The arguments are read from left to right.  An option is recognised by its name in full, a value may
follow it as the next argument or behind an `=`, and `--` says that no options follow.  What is not
an option is the path of the file to read, of which there is at most one.  The first thing that
settles the matter ends the reading: a mistake, or a request for help or for the version.

* `Invocation` — what to read and how to print it;
* `Request` — all that can be asked for, mistakes included;
* `Argument`, `Argument.ofString` — one argument on its own;
* `Request.ofArguments` — the request of a whole command line.
-/

import TokenStream.Log.Level

set_option relaxedAutoImplicit false
set_option autoImplicit false

namespace TokenStream

/-- What to read and how to print it. -/
structure Invocation where
  /-- The file to read; the standard input if there is none. -/
  path? : Option String := none
  /-- How much is logged if the surroundings do not say it. -/
  level : Level := .warn
  /-- Whether only the values of the tokens are printed. -/
  valuesOnly : Bool := false
  deriving DecidableEq, Repr

/-- What a command line asks for. -/
inductive Request where
  | run (invocation : Invocation)
  | help
  | version
  | mistake
  deriving DecidableEq, Repr

/-! ### Single arguments -/

/-- One argument, before it is known what stands around it. -/
inductive Argument where
  | endOfOptions
  | help
  | version
  | valuesOnly
  /-- The level is the next argument. -/
  | levelNext
  | level (text : String)
  | path (text : String)
  | unknownOption
  deriving DecidableEq, Repr

/-- Recognises an argument.  A dash alone is a path; behind a single dash the first letter
decides. -/
def Argument.ofString (text : String) : Argument :=
  if text = "--" then endOfOptions
  else if text = "--help" then help
  else if text = "--version" then version
  else if text = "--values-only" then valuesOnly
  else if text = "--log-level" then levelNext
  else if "--log-level=".toList.isPrefixOf text.toList then
    level (String.ofList (text.toList.drop "--log-level=".length))
  else
    match text.toList with
    | '-' :: 'h' :: _ => help
    | '-' :: 'V' :: _ => version
    | '-' :: _ :: _ => unknownOption
    | _ => path text

/-! ### Whole command lines -/

/-- What has been settled by the arguments read so far. -/
structure Settled where
  path? : Option String := none
  level? : Option Level := none
  valuesOnly : Bool := false
  deriving DecidableEq, Repr

namespace Settled

/-- The invocation when no argument is left. -/
def invocation (s : Settled) : Invocation :=
  { path? := s.path?, level := s.level?.getD .warn, valuesOnly := s.valuesOnly }

/-- Settles the path, which must not be empty and can be given only once. -/
def withPath? (s : Settled) (path : String) : Option Settled :=
  if s.path?.isNone ∧ path ≠ "" then some { s with path? := some path } else none

/-- Settles the level, which can be given only once. -/
def withLevel? (s : Settled) (text : String) : Option Settled :=
  if s.level?.isNone then (Level.ofString? text).map fun level => { s with level? := some level }
  else none

/-- Asks for values only, which can be done only once. -/
def withValuesOnly? (s : Settled) : Option Settled :=
  if s.valuesOnly then none else some { s with valuesOnly := true }

end Settled

namespace Request

/-- The request when only paths can follow. -/
def ofPaths (s : Settled) : List String → Request
  | [] => .run s.invocation
  | path :: rest =>
      match s.withPath? path with
      | some s' => ofPaths s' rest
      | none => .mistake

/-- The request when options can follow. -/
def ofRest (s : Settled) : List String → Request
  | [] => .run s.invocation
  | text :: rest =>
      match Argument.ofString text with
      | .endOfOptions => ofPaths s rest
      | .help => .help
      | .version => .version
      | .valuesOnly =>
          match s.withValuesOnly? with
          | some s' => ofRest s' rest
          | none => .mistake
      | .levelNext =>
          match rest with
          | [] => .mistake
          | value :: rest' =>
              match s.withLevel? value with
              | some s' => ofRest s' rest'
              | none => .mistake
      | .level value =>
          match s.withLevel? value with
          | some s' => ofRest s' rest
          | none => .mistake
      | .path path =>
          match s.withPath? path with
          | some s' => ofRest s' rest
          | none => .mistake
      | .unknownOption => .mistake

/-- What a command line asks for. -/
def ofArguments (arguments : List String) : Request := ofRest {} arguments

end Request

end TokenStream
