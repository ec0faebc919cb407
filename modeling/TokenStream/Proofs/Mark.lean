/-
A caret is a mark in the complete text.

A caret reads its text while it moves: what it has looked at is kept, bytes that were collected in
vain are handed back, and the end shows itself only to somebody who asks for one more character.
Whoever holds the complete text needs none of this.  For them the place of a caret is **an index and
two counters**, a move adds one to the index and to the column unless the index is behind the text,
a look shows the character behind the indexed one, and a line break touches the counters only.

The fault of a source is the one thing that the text does not tell.  It is given away by the first
operation that asks for it once the failing call has been made, and by no other.

* `Mark`, `Mark.move`, `Mark.after` — the place of a caret in a complete text;
* `Caret.At.move`, `Caret.At.after` — **one operation and a run of operations**;
* `Caret.reported_after_iff` — the fault has been given away if it was asked for in time;
* `Script.caret_follows_mark` — **what a caret answers**, after any operations.
-/

import TokenStream.Proofs.Calls
import TokenStream.Proofs.Decomposition

set_option relaxedAutoImplicit false
set_option autoImplicit false

namespace TokenStream

/-! ### Marks -/

/-- A place in a text that lies there complete: the index of a character, and the counters. -/
structure Mark where
  index : Nat := 0
  position : Position := .start
  deriving DecidableEq, Repr

namespace Mark

/-- Where an operation leads to.  Behind the text there is nothing to move over. -/
def move (text : List Char) (m : Mark) : Caret.Op → Mark
  | .advance => if m.index < text.length then ⟨m.index + 1, m.position.nextColumn⟩ else m
  | .lookAhead => m
  | .breakLine => { m with position := m.position.nextLine }
  | .takeFault => m

/-- Where some operations lead to. -/
def after (text : List Char) (m : Mark) (ops : List Caret.Op) : Mark := ops.foldl (move text) m

end Mark

namespace Caret

variable {c : Caret} {text : List Char} {m : Mark}

/-! ### The caret follows the mark -/

/-- At the end of the text a move changes nothing. -/
theorem At.advance_nil {p : Position} (h : c.At p []) : c.advance.At p [] := by
  have hc : c.current = none := h.current_eq
  refine ⟨h.sound.advance, ?_, ?_⟩
  · rw [position_advance_of_end hc, h.position_eq]
  · rw [h.sound.text_advance, h.text_eq, List.tail_nil]

/-- **One operation.** -/
theorem At.move (h : c.At m.position (text.drop m.index)) (op : Op) :
    (c.apply op).2.At (m.move text op).position (text.drop (m.move text op).index) := by
  cases op with
  | advance =>
      rcases Nat.lt_or_ge m.index text.length with hlt | hge
      · rw [Mark.move, if_pos hlt]
        rw [List.drop_eq_getElem_cons hlt] at h
        exact h.advance
      · rw [Mark.move, if_neg (Nat.not_lt.2 hge)]
        rw [List.drop_of_length_le hge] at h ⊢
        exact h.advance_nil
  | lookAhead => exact h.lookAhead.2
  | breakLine => exact h.breakLine
  | takeFault => exact h.takeFault

/-- **A run of operations.** -/
theorem At.after (h : c.At m.position (text.drop m.index)) (ops : List Op) :
    (c.after ops).At (m.after text ops).position (text.drop (m.after text ops).index) := by
  induction ops generalizing c m with
  | nil => exact h
  | cons op ops ih => exact ih (h.move op)

/-! ### The fault -/

/-- What the operations preserve, a run of operations preserves. -/
theorem Preserved.after {P : Caret → Prop} (hP : Preserved P) (hc : P c) (ops : List Op) :
    P (c.after ops) := by
  induction ops generalizing c with
  | nil => exact hc
  | cons op ops ih =>
      cases op with
      | advance => exact ih (hP.advance hc)
      | lookAhead => exact ih (hP.lookAhead hc)
      | breakLine => exact ih (hP.breakLine hc)
      | takeFault => exact ih (hP.takeFault hc)

/-- After an operation the fault has been given away if it had been before, or if it was asked for
and had been met. -/
theorem reported_apply_iff (c : Caret) (op : Op) :
    (c.apply op).2.reported = true ↔
      c.reported = true ∨ op = .takeFault ∧ c.fault?.isSome = true := by
  cases op with
  | advance => simp [apply]
  | lookAhead => simp [apply]
  | breakLine => simp [apply]
  | takeFault => simp [apply, takeFault_eq]

/-- **The fault has been given away if it was asked for at a time when it had been met.** -/
theorem reported_after_iff (c : Caret) (ops : List Op) :
    (c.after ops).reported = true ↔
      c.reported = true ∨ ∃ earlier later, ops = earlier ++ .takeFault :: later ∧
        (c.after earlier).fault?.isSome = true := by
  induction ops generalizing c with
  | nil => simp [Caret.after]
  | cons op ops ih =>
      rw [Caret.after, ih, reported_apply_iff, or_assoc]
      refine or_congr_right ?_
      constructor
      · rintro (⟨rfl, hmet⟩ | ⟨earlier, later, rfl, hmet⟩)
        · exact ⟨[], ops, rfl, hmet⟩
        · exact ⟨op :: earlier, later, rfl, hmet⟩
      · rintro ⟨earlier, later, hops, hmet⟩
        cases earlier with
        | nil => exact Or.inl ⟨(List.cons.inj hops).1, hmet⟩
        | cons first earlier =>
            obtain ⟨rfl, rfl⟩ := List.cons.inj hops
            exact Or.inr ⟨earlier, later, rfl, hmet⟩

/-- The fault that a caret over a script has met is that of the call that failed. -/
theorem fault?_after_eq_some_iff {events : Script} {cause : Fault} (ops : List Op) :
    ((ofSource (.ofScript events)).after ops).fault? = some cause ↔
      events.FailsWithin ((ofSource (.ofScript events)).after ops).reads cause := by
  have hplayed := (preserved_played events).after (played_ofScript events) ops
  have hending := (preserved_ending events.ending).after (ending_ofSource (.ofScript events)) ops
  exact hplayed.fault?_eq_some_iff hending

end Caret

namespace Script

/-- **A caret answers from a mark in the complete text.**  Let `m` be the mark that some operations
lead to.  Then the caret stands on the character with the index of `m` at the position of `m`; a
move answers whether it leads to a character, and a look shows the character behind.  The fault is
given away if the failing call has been made, and has not been asked for since. -/
theorem caret_follows_mark (events : Script) (ops : List Caret.Op) :
    let text := Utf8.decode events.bytes
    let c := (Caret.ofSource (.ofScript events)).after ops
    let m := Mark.after text { } ops
    c.current = text[m.index]? ∧ c.position = m.position ∧
      (c.apply .advance).1 = .moved ((m.move text .advance).index < text.length) ∧
      (c.apply .lookAhead).1 = .seen text[m.index + 1]? ∧
      (c.apply .breakLine).1 = .done ∧
      ∀ cause, c.takeFault.1 = some cause ↔
        events.FailsWithin c.reads cause ∧
          ∀ earlier later, ops = earlier ++ .takeFault :: later →
            ¬ ∃ met, events.FailsWithin
              ((Caret.ofSource (.ofScript events)).after earlier).reads met := by
  intro text c m
  have hstart : (Caret.ofSource (.ofScript events)).At Position.start (text.drop 0) :=
    Caret.at_ofSource (.ofScript events)
  have hat : c.At m.position (text.drop m.index) := Caret.At.after (m := { }) hstart ops
  have hmove : c.advance.At _ (text.drop (m.move text .advance).index) := hat.move .advance
  refine ⟨?_, hat.position_eq, ?_, ?_, rfl, ?_⟩
  · rw [hat.current_eq, List.head?_drop]
  · have hcurrent := hmove.current_eq
    rw [List.head?_drop] at hcurrent
    have hin : text[(m.move text .advance).index]?.isSome =
        decide ((m.move text .advance).index < text.length) := by
      rw [Bool.eq_iff_iff, isSome_getElem?, decide_eq_true_iff]
    exact congrArg Caret.Reply.moved ((congrArg Option.isSome hcurrent).trans hin)
  · have hseen := hat.lookAhead.1
    rw [List.tail_drop, List.head?_drop] at hseen
    exact congrArg Caret.Reply.seen hseen
  · intro cause
    have hreported := Caret.reported_after_iff (Caret.ofSource (.ofScript events)) ops
    simp only [Caret.reported_ofSource, Bool.false_eq_true, false_or, Option.isSome_iff_exists,
      Caret.fault?_after_eq_some_iff] at hreported
    have hgiven : c.takeFault.1 = some cause ↔ c.fault? = some cause ∧ ¬ c.reported = true := by
      rw [Caret.takeFault_eq]
      cases c.reported <;> simp
    rw [hgiven, Caret.fault?_after_eq_some_iff, hreported]
    simp only [not_exists, not_and]
    exact Iff.rfl

/-- A fault that is met by a look from the last character, asked for at once and again at the
end. -/
theorem caret_follows_mark_of_lookAhead :
    let events : Script := [.bytes [0x61, 0x0a], .fault (.ofKind .interrupted),
      .fault (.ofKind .timedOut), .bytes [0x62]]
    let c := (Caret.ofSource (.ofScript events)).after
    let ops : List Caret.Op :=
      [.advance, .lookAhead, .takeFault, .breakLine, .advance, .advance, .lookAhead]
    (c [.advance, .lookAhead]).current = some '\n' ∧
      (c [.advance, .lookAhead]).takeFault.1 = some (.ofKind .timedOut) ∧
      (c ops).current = none ∧ (c ops).position = ⟨2, 1⟩ ∧ (c ops).takeFault.1 = none := by
  intro events c ops
  have hmet : events.FailsWithin (c [.advance, .lookAhead]).reads (.ofKind .timedOut) :=
    ⟨2, by decide +kernel, by decide +kernel, rfl⟩
  have hmark : Mark.after (Utf8.decode events.bytes) { } [.advance, .lookAhead] = ⟨1, ⟨1, 2⟩⟩ ∧
      Mark.after (Utf8.decode events.bytes) { } ops = ⟨2, ⟨2, 1⟩⟩ := by decide +kernel
  have htext : (Utf8.decode events.bytes)[1]? = some '\n' ∧
      (Utf8.decode events.bytes)[2]? = none := by decide +kernel
  obtain ⟨hseen, -, -, -, -, hgiven⟩ := caret_follows_mark events [.advance, .lookAhead]
  obtain ⟨hcurrent, hposition, -, -, -, hgone⟩ := caret_follows_mark events ops
  rw [hmark.1, htext.1] at hseen
  rw [hmark.2, htext.2] at hcurrent
  rw [hmark.2] at hposition
  refine ⟨hseen, (hgiven _).2 ⟨hmet, ?_⟩, hcurrent, hposition, ?_⟩
  · intro earlier later hops
    have hmem : Caret.Op.takeFault ∈ [Caret.Op.advance, .lookAhead] := hops ▸ by simp
    exact absurd hmem (by decide)
  · rw [Option.eq_none_iff_forall_ne_some]
    intro cause hcause
    exact ((hgone cause).1 hcause).2 [.advance, .lookAhead]
      [.breakLine, .advance, .advance, .lookAhead] rfl ⟨_, hmet⟩

end Script

end TokenStream
