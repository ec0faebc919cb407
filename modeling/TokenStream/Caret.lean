/-
A caret: the place in a text where a reader stands.

The caret stands on a character of a stream, or at its end, and knows the position of the place.  It
moves in one direction only.  One character **past** the current one can be looked at without
moving; it is read at that moment, kept, and becomes current with the next move.  Line breaks are
not recognised here: whoever moves the caret over one announces it with `Caret.breakLine`, which
puts the caret on column zero of the next line, so that the move over the break lands on column one.

When a read fails the stream just ends, and characters that were read before are still handed out.
The fault itself can be collected once, by `Caret.takeFault`, from the moment the failing read has
happened; `Caret.failedAt` keeps where the caret stood at that moment.

* `Caret`, `Caret.ofSource` — the state, and the caret on the first character of a source;
* `Caret.advance`, `Caret.lookAhead`, `Caret.breakLine`, `Caret.takeFault` — the operations;
* `Caret.Op`, `Caret.Reply`, `Caret.apply`, `Caret.trace` — runs of operations;
* `Caret.size` and `Caret.size_advance_lt` — moving off a character always makes the rest of the
  text smaller, which is why every loop over a caret ends.
-/

import TokenStream.Position
import TokenStream.CharStream

set_option relaxedAutoImplicit false
set_option autoImplicit false

namespace TokenStream

/-- A place in a stream of characters. -/
structure Caret where
  input : CharStream
  /-- The character at the caret; `none` at the end. -/
  current : Option Char
  /-- The character behind the current one, once it has been looked at. -/
  ahead : Option (Option Char)
  position : Position
  /-- Where the caret stood when a read failed. -/
  failedAt : Option Position
  /-- Whether the fault has been collected. -/
  reported : Bool
  deriving DecidableEq, Repr

namespace Caret

/-! ### Operations -/

/-- Reads the next character of the stream for a caret that stands at `position`, and notes that
place if the read meets a fault. -/
def read (c : Caret) : Option Char × Caret :=
  match c.input.next with
  | (char?, input) =>
      (char?, { c with
        input
        failedAt := c.failedAt <|> input.source.fault?.map fun _ => c.position })

/-- The caret on the first character of a source. -/
def ofSource (source : Source) : Caret :=
  match read ⟨.ofSource source, none, none, .start, none, false⟩ with
  | (char?, c) => { c with current := char? }

/-- One column further, unless the caret stands at the end. -/
def nextColumn (c : Caret) : Caret :=
  match c.current with
  | some _ => { c with position := c.position.nextColumn }
  | none => c

/-- Moves to the next character. -/
def advance (c : Caret) : Caret :=
  match c.ahead with
  | some char? => { c.nextColumn with current := char?, ahead := none }
  | none =>
      match c.nextColumn.read with
      | (char?, c') => { c' with current := char? }

/-- The character behind the current one.  The caret does not move. -/
def lookAhead (c : Caret) : Option Char × Caret :=
  match c.ahead with
  | some char? => (char?, c)
  | none =>
      match c.read with
      | (char?, c') => (char?, { c' with ahead := some char? })

/-- Announces that the current character breaks the line. -/
def breakLine (c : Caret) : Caret := { c with position := c.position.nextLine }

/-- The fault that ended the stream, if it has been met and not been collected before. -/
def takeFault (c : Caret) : Option Fault × Caret :=
  match c.reported, c.input.source.fault? with
  | false, some cause => (some cause, { c with reported := true })
  | _, _ => (none, c)

/-- How many reads the source has made so far. -/
def reads (c : Caret) : Nat := c.input.source.reads

/-! ### Runs of operations -/

/-- The operations of a caret. -/
inductive Op where
  | advance
  | lookAhead
  | breakLine
  | takeFault
  deriving DecidableEq, Repr

/-- What an operation answers. -/
inductive Reply where
  /-- Whether the caret now stands on a character. -/
  | moved (onChar : Bool)
  | seen (char? : Option Char)
  | done
  | fault (cause? : Option Fault)
  deriving DecidableEq, Repr

/-- Performs one operation. -/
def apply (c : Caret) : Op → Reply × Caret
  | .advance => (.moved c.advance.current.isSome, c.advance)
  | .lookAhead => c.lookAhead.map .seen id
  | .breakLine => (.done, c.breakLine)
  | .takeFault => c.takeFault.map .fault id

/-- Performs operations in order, and keeps each answer with the state reached. -/
def trace (c : Caret) : List Op → List (Reply × Caret)
  | [] => []
  | op :: ops =>
      match c.apply op with
      | (reply, c') => (reply, c') :: c'.trace ops

/-! ### Every move makes the rest smaller -/

/-- How much text is left: bytes to be decoded and characters that have been decoded. -/
def size (c : Caret) : Nat :=
  c.input.bytes.length + c.current.toList.length + (c.ahead.bind id).toList.length

@[simp] theorem current_nextColumn (c : Caret) : c.nextColumn.current = c.current := by
  unfold nextColumn; split <;> rfl

@[simp] theorem input_nextColumn (c : Caret) : c.nextColumn.input = c.input := by
  unfold nextColumn; split <;> rfl

@[simp] theorem ahead_nextColumn (c : Caret) : c.nextColumn.ahead = c.ahead := by
  unfold nextColumn; split <;> rfl

@[simp] theorem reported_nextColumn (c : Caret) : c.nextColumn.reported = c.reported := by
  unfold nextColumn; split <;> rfl

@[simp] theorem read_fst (c : Caret) : c.read.1 = c.input.next.1 := rfl

@[simp] theorem input_read (c : Caret) : c.read.2.input = c.input.next.2 := rfl

@[simp] theorem ahead_read (c : Caret) : c.read.2.ahead = c.ahead := rfl

@[simp] theorem current_read (c : Caret) : c.read.2.current = c.current := rfl

@[simp] theorem reported_read (c : Caret) : c.read.2.reported = c.reported := rfl

/-- What a read takes from the stream is at least the character that it gives. -/
theorem length_bytes_next_add_le (s : CharStream) :
    s.next.2.bytes.length + s.next.1.toList.length ≤ s.bytes.length := by
  rcases h : s.next with ⟨char?, s'⟩
  cases char? with
  | none => simp [CharStream.bytes_of_next_none h]
  | some c => exact CharStream.length_bytes_of_next_some h

/-- Moving off a character makes the rest smaller. -/
theorem size_advance_lt {c : Caret} (h : c.current.isSome) : c.advance.size < c.size := by
  obtain ⟨char, hc⟩ := Option.isSome_iff_exists.1 h
  cases ha : c.ahead with
  | some char? => simp [advance, ha, size, hc]
  | none =>
      have := length_bytes_next_add_le c.input
      simp [advance, ha, size, hc] at *
      omega

@[simp] theorem size_breakLine (c : Caret) : c.breakLine.size = c.size := rfl

/-- Looking ahead never makes the rest larger. -/
theorem size_lookAhead_le (c : Caret) : c.lookAhead.2.size ≤ c.size := by
  cases ha : c.ahead with
  | some char? => simp [lookAhead, ha]
  | none =>
      have := length_bytes_next_add_le c.input
      simp [lookAhead, ha, size] at *
      omega

@[simp] theorem current_lookAhead (c : Caret) : c.lookAhead.2.current = c.current := by
  cases ha : c.ahead <;> simp [lookAhead, ha]

@[simp] theorem reported_lookAhead (c : Caret) : c.lookAhead.2.reported = c.reported := by
  cases ha : c.ahead <;> simp [lookAhead, ha]

@[simp] theorem reported_advance (c : Caret) : c.advance.reported = c.reported := by
  cases ha : c.ahead <;> simp [advance, ha]

@[simp] theorem reported_breakLine (c : Caret) : c.breakLine.reported = c.reported := rfl

@[simp] theorem size_takeFault (c : Caret) : c.takeFault.2.size = c.size := by
  unfold takeFault; split <;> rfl

end Caret

end TokenStream
