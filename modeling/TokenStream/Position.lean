/-
Places in a text, counted in lines and columns.

A position is a line and a column, both counted from one, and it always describes a character (or
the end of the text, one column past its last character).  Line breaks are what makes the two
counters interesting: the break itself belongs to no visible column of the line it opens, so a
reader that walks over it first stands on **column zero of the new line** and reaches column one
with the next step.  `Position.nextLine` and `Position.nextColumn` are exactly these two moves, and
`Position.after` says where they lead over a whole text.

* `Position` — a line and a column, with `Position.start` at `1:1`;
* `Position.nextColumn`, `Position.nextLine`, `Position.step` — the moves of a reader;
* `Position.after` — the position reached over a list of characters;
* `Position.text` — the written form `line:column`.
-/

set_option relaxedAutoImplicit false
set_option autoImplicit false

namespace TokenStream

/-- A line and a column.  The default `0:0` is no place in any text. -/
structure Position where
  line : Nat := 0
  column : Nat := 0
  deriving DecidableEq, Inhabited, Repr

namespace Position

/-- The place of the first character of a text. -/
def start : Position := ⟨1, 1⟩

/-- One column further on the same line. -/
def nextColumn (p : Position) : Position := { p with column := p.column + 1 }

/-- Column zero of the line below, where the line break itself stands. -/
def nextLine (p : Position) : Position := ⟨p.line + 1, 0⟩

/-- The place after the character `c`, when `c` stands at `p`. -/
def step (p : Position) (c : Char) : Position :=
  if c = '\n' then p.nextLine.nextColumn else p.nextColumn

/-- The place reached from `p` by walking over all of `cs`. -/
def after (p : Position) (cs : List Char) : Position := cs.foldl step p

/-- The written form `line:column`. -/
def text (p : Position) : String := s!"{p.line}:{p.column}"

@[simp] theorem after_nil (p : Position) : p.after [] = p := rfl

@[simp] theorem after_cons (p : Position) (c : Char) (cs : List Char) :
    p.after (c :: cs) = (p.step c).after cs := rfl

/-- Walking over two pieces of text is walking over one and then over the other. -/
theorem after_append (p : Position) (cs ds : List Char) :
    p.after (cs ++ ds) = (p.after cs).after ds := by
  simp [after, List.foldl_append]

end Position

end TokenStream
