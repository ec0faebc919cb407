/-
The text that a caret still has before it.

A caret holds its text in three places: the character it stands on, the character that was looked
at, and the bytes of its stream.  `Caret.text` puts them together, and on it every operation of a
caret has the meaning that its name promises: moving takes the first character off the text, looking
ahead shows the second one and changes nothing, and the line break is a matter of positions alone.

These meanings need one invariant, `Caret.Sound`: a caret that shows an end has reached it.  Then no
character is left, and the stream has met the ending of its source, so that **the end of the text
and the knowledge of how it ended come together**, whether the end was found by a move or by a look.

* `Caret.text`, `Caret.ending`, `Caret.fault?` — the views of a caret;
* `Caret.Sound`, `Caret.sound_ofSource` — the invariant, and that a fresh caret has it;
* `Caret.Sound.advance`, `Caret.Sound.lookAhead`, `Caret.Sound.breakLine`, `Caret.Sound.takeFault` —
  every operation keeps it;
* `Caret.Sound.head?_text`, `Caret.Sound.text_advance`, `Caret.Sound.fst_lookAhead`,
  `Caret.text_lookAhead` — what the operations do to the text.
-/

import TokenStream.Proofs.Decoding
import TokenStream.Caret

set_option relaxedAutoImplicit false
set_option autoImplicit false

namespace TokenStream

namespace Caret

/-! ### The views of a caret -/

/-- The text from the caret on. -/
def text (c : Caret) : List Char :=
  c.current.toList ++ c.ahead.join.toList ++ Utf8.decode c.input.bytes

/-- How the source will end, or has ended. -/
def ending (c : Caret) : Ending := c.input.ending

/-- The fault that ended the source, once it has been met. -/
def fault? (c : Caret) : Option Fault := c.input.fault?

/-- A caret that shows an end, at its place or behind it, has reached it. -/
structure Sound (c : Caret) : Prop where
  of_current : c.current = none → c.ahead.join = none ∧ c.input.Ended
  of_ahead : c.ahead = some none → c.input.Ended

theorem text_of_current {c : Caret} {char : Char} (h : c.current = some char) :
    c.text = char :: (c.ahead.join.toList ++ Utf8.decode c.input.bytes) := by
  simp [text, h]

/-- At the end no text is left. -/
theorem Sound.text_of_current_none {c : Caret} (h : c.Sound) (hc : c.current = none) :
    c.text = [] := by
  obtain ⟨hahead, hended⟩ := h.of_current hc
  simp [text, hc, hahead, hended.bytes_eq]

/-- The caret stands on the first character of its text. -/
theorem Sound.head?_text {c : Caret} (h : c.Sound) : c.text.head? = c.current := by
  cases hc : c.current with
  | none => simp [h.text_of_current_none hc]
  | some char => simp [text_of_current hc]

/-- Where the text ends, the source has told how. -/
theorem Sound.fault?_of_text_nil {c : Caret} (h : c.Sound) (htext : c.text = []) :
    c.fault? = c.ending.fault? := by
  have hc : c.current = none := by rw [← h.head?_text, htext, List.head?_nil]
  exact (h.of_current hc).2.fault?_eq

/-! ### A fresh caret -/

theorem sound_ofSource (source : Source) : (ofSource source).Sound where
  of_current h := ⟨rfl, CharStream.ended_of_next_none h⟩
  of_ahead h := nomatch h

@[simp] theorem text_ofSource (source : Source) :
    (ofSource source).text = Utf8.decode source.bytes := by
  have h := CharStream.toList_next_append_decode (CharStream.ofSource source)
  simpa [text, ofSource, CharStream.ofSource, CharStream.bytes] using h

@[simp] theorem ending_ofSource (source : Source) :
    (ofSource source).ending = source.ending :=
  CharStream.ending_next (CharStream.ofSource source)

@[simp] theorem position_ofSource (source : Source) : (ofSource source).position = .start := rfl

@[simp] theorem reported_ofSource (source : Source) : (ofSource source).reported = false := rfl

/-! ### Looking ahead -/

theorem Sound.lookAhead {c : Caret} (h : c.Sound) : c.lookAhead.2.Sound := by
  cases ha : c.ahead with
  | some char? => simpa [Caret.lookAhead, ha] using h
  | none =>
      simp only [Caret.lookAhead, ha]
      constructor
      · intro hc
        obtain ⟨hnone, hended⟩ := (h.of_current hc).2.next
        exact ⟨hnone, hended⟩
      · intro hnone
        exact CharStream.ended_of_next_none (Option.some.inj hnone)

/-- Looking ahead leaves the text alone. -/
@[simp] theorem text_lookAhead (c : Caret) : c.lookAhead.2.text = c.text := by
  cases ha : c.ahead with
  | some char? => simp [lookAhead, ha]
  | none => simp [lookAhead, ha, text, CharStream.toList_next_append_decode]

/-- Looking ahead shows the second character of the text. -/
theorem Sound.fst_lookAhead {c : Caret} (h : c.Sound) :
    c.lookAhead.1 = c.text.tail.head? := by
  have htext := text_lookAhead c
  have hahead : c.lookAhead.2.ahead = some c.lookAhead.1 := by
    cases ha : c.ahead <;> simp [Caret.lookAhead, ha]
  cases hc : c.current with
  | none =>
      -- behind the end there is nothing to be seen
      have hc' : c.lookAhead.2.current = none := by rw [current_lookAhead, hc]
      have hnone := (h.lookAhead.of_current hc').1
      rw [hahead] at hnone
      rw [h.text_of_current_none hc]
      exact hnone
  | some char =>
      rw [← htext, text_of_current ((current_lookAhead c).trans hc), hahead]
      cases hfst : c.lookAhead.1 with
      | none => simp [(h.lookAhead.of_ahead (by rw [hahead, hfst])).bytes_eq]
      | some second => rfl

@[simp] theorem position_lookAhead (c : Caret) : c.lookAhead.2.position = c.position := by
  cases ha : c.ahead <;> simp [lookAhead, ha, read]

@[simp] theorem ending_lookAhead (c : Caret) : c.lookAhead.2.ending = c.ending := by
  cases ha : c.ahead <;> simp [lookAhead, ha, ending]

/-! ### Moving -/

theorem Sound.advance {c : Caret} (h : c.Sound) : c.advance.Sound := by
  cases ha : c.ahead with
  | some char? =>
      simp only [Caret.advance, ha]
      constructor
      · intro hnone
        -- the end was seen by a look, and the caret now stands on it
        have hended : c.input.Ended := h.of_ahead (hnone ▸ ha)
        exact ⟨rfl, by simpa using hended⟩
      · intro hahead
        cases hahead
  | none =>
      simp only [Caret.advance, ha]
      constructor
      · intro hnone
        have hended := CharStream.ended_of_next_none hnone
        exact ⟨by simp [ha], by simpa using hended⟩
      · intro hahead
        simp [ha] at hahead

/-- Moving takes the first character off the text. -/
theorem Sound.text_advance {c : Caret} (h : c.Sound) : c.advance.text = c.text.tail := by
  have hrest : c.advance.text = c.ahead.join.toList ++ Utf8.decode c.input.bytes := by
    cases ha : c.ahead with
    | some char? => simp [Caret.advance, ha, text]
    | none => simp [Caret.advance, ha, text, CharStream.toList_next_append_decode]
  rw [hrest]
  cases hc : c.current with
  | none =>
      obtain ⟨hahead, hended⟩ := h.of_current hc
      simp [text, hc, hahead, hended.bytes_eq]
  | some char => rw [text_of_current hc, List.tail_cons]

/-- Moving off a character moves the position one column further. -/
theorem position_advance {c : Caret} {char : Char} (h : c.current = some char) :
    c.advance.position = c.position.nextColumn := by
  cases ha : c.ahead <;> simp [advance, ha, nextColumn, h, read]

/-- At the end a move leaves the position as it is. -/
theorem position_advance_of_end {c : Caret} (h : c.current = none) :
    c.advance.position = c.position := by
  cases ha : c.ahead <;> simp [advance, ha, nextColumn, h, read]

@[simp] theorem ending_advance (c : Caret) : c.advance.ending = c.ending := by
  cases ha : c.ahead <;> simp [advance, ha, ending]

/-! ### Line breaks and faults -/

theorem Sound.breakLine {c : Caret} (h : c.Sound) : c.breakLine.Sound :=
  ⟨h.of_current, h.of_ahead⟩

@[simp] theorem text_breakLine (c : Caret) : c.breakLine.text = c.text := rfl

@[simp] theorem ending_breakLine (c : Caret) : c.breakLine.ending = c.ending := rfl

/-- The fault is given away once. -/
theorem takeFault_eq (c : Caret) :
    c.takeFault =
      (if c.reported then none else c.fault?,
        { c with reported := c.reported || c.fault?.isSome }) := by
  obtain ⟨input, current, ahead, position, failedAt, reported⟩ := c
  cases reported with
  | true => rfl
  | false => cases h : input.source.fault? <;> simp [takeFault, fault?, CharStream.fault?, h]

/-- A fault is given away if it has been met and was not given away before. -/
theorem fst_takeFault_eq_some_iff {c : Caret} {cause : Fault} :
    c.takeFault.1 = some cause ↔ c.fault? = some cause ∧ ¬ c.reported = true := by
  rw [takeFault_eq]
  cases c.reported <;> simp

theorem Sound.takeFault {c : Caret} (h : c.Sound) : c.takeFault.2.Sound := by
  rw [takeFault_eq]
  exact ⟨h.of_current, h.of_ahead⟩

@[simp] theorem text_takeFault (c : Caret) : c.takeFault.2.text = c.text := by
  rw [takeFault_eq]
  rfl

@[simp] theorem position_takeFault (c : Caret) : c.takeFault.2.position = c.position := by
  rw [takeFault_eq]

@[simp] theorem ending_takeFault (c : Caret) : c.takeFault.2.ending = c.ending := by
  rw [takeFault_eq]
  rfl

end Caret

end TokenStream
