/-
Positions without a walk.

`Position.after` reaches a position by walking over a text, character by character, and the walk
passes through column zero at each line break.  Where it ends can also be said at once: the line is
counted by the line breaks of the text, and the column by the characters behind the last of them.
This is **the place behind a text**, and it is what a user of positions means by them.

* `Position.behind` — the place behind a text, by counting;
* `Position.behind_append_singleton` — one more character makes one step;
* `Position.start_after` — **a walk from the start ends behind the text**.
-/

import TokenStream.Token

set_option relaxedAutoImplicit false
set_option autoImplicit false

namespace TokenStream

namespace Position

/-- A character that is no blank only adds a column. -/
theorem step_of_not_blank (p : Position) {c : Char} (h : isBlank c = false) :
    p.step c = p.nextColumn :=
  if_neg fun hline => absurd h (by simp [isBlank, hline])

/-- The place behind the text `cs`: one line for each line break, and one column for each character
behind the last one. -/
def behind (cs : List Char) : Position :=
  ⟨1 + cs.count '\n', 1 + (cs.reverse.takeWhile (· != '\n')).length⟩

@[simp] theorem behind_nil : behind [] = start := rfl

/-- One more character makes one step. -/
theorem behind_append_singleton (cs : List Char) (c : Char) :
    behind (cs ++ [c]) = (behind cs).step c := by
  by_cases hline : c = '\n'
  · rw [step, if_pos hline, behind, List.reverse_append, List.count_append, hline]
    rfl
  · have hcount : [c].count '\n' = 0 := List.count_eq_zero.2 (by simpa using Ne.symm hline)
    rw [step, if_neg hline, behind, List.count_append, hcount, List.reverse_append,
      List.reverse_singleton, List.singleton_append,
      List.takeWhile_cons_of_pos (by simpa using hline)]
    rfl

/-- Walking on behind a text leads behind the longer text. -/
theorem after_behind (cs ds : List Char) : (behind cs).after ds = behind (cs ++ ds) := by
  induction ds generalizing cs with
  | nil => rw [after_nil, List.append_nil]
  | cons d ds ih =>
      rw [after_cons, ← behind_append_singleton, ih, List.append_assoc, List.singleton_append]

/-- **A walk from the start ends behind the text.** -/
theorem start_after (cs : List Char) : start.after cs = behind cs := after_behind [] cs

end Position

end TokenStream
