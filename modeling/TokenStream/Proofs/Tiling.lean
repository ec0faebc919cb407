/-
The tokens of a text tile it.

A token is not only a value: it is a piece of the text, taken from a certain place.  The pieces of
all tokens lie one behind the other without meeting, **what they leave out are exactly the blanks of
the text**, and the position of each token is the place behind all that stands in front of its
piece, however the text mixes line breaks, tabs and characters of several bytes.

The tiling of a text is built from its end.  A tiling of the part from some index on is extended
over a blank, which adds no piece, or over a lexeme, which adds one in front.

* `Span`, `Span.slice`, `Span.Covers`, `Span.Ordered` — pieces of a text, and pieces in order;
* `Tiling` — the text from an index on is tiled by tokens;
* `Tiling.nil`, `Tiling.blank`, `Tiling.lexeme` — the steps of the construction;
* `Cut.exists_tiling`, `Cut.flatMap_value_tokens` — the tokens of a text tile it, and their values
  are its characters without the blanks;
* `Script.exists_tiling_of_clean` — **the same for the tokens of a source**.
-/

import TokenStream.Proofs.Reading
import Mathlib.Data.List.Forall2

set_option relaxedAutoImplicit false
set_option autoImplicit false

namespace TokenStream

/-- A piece of a text: the characters from the index `start` on and before the index `stop`. -/
structure Span where
  start : Nat
  stop : Nat
  deriving DecidableEq, Repr

namespace Span

/-- The characters of the piece. -/
def slice (s : Span) (text : List Char) : List Char := text.extract s.start s.stop

/-- The index `i` lies in the piece. -/
def Covers (s : Span) (i : Nat) : Prop := s.start ≤ i ∧ i < s.stop

/-- Pieces that are not empty and follow one another between the indices `low` and `high`. -/
def Ordered (low : Nat) : List Span → Nat → Prop
  | [], high => low ≤ high
  | s :: spans, high => low ≤ s.start ∧ s.start < s.stop ∧ Ordered s.stop spans high

theorem Ordered.mono {low low' high : Nat} {spans : List Span} (h : Ordered low spans high)
    (hle : low' ≤ low) : Ordered low' spans high := by
  cases spans with
  | nil => exact Nat.le_trans hle h
  | cons s spans => exact ⟨Nat.le_trans hle h.1, h.2⟩

/-- Nothing in front of the first piece is covered. -/
theorem Ordered.le_of_covers {low high i : Nat} {spans : List Span} (h : Ordered low spans high)
    {s : Span} (hs : s ∈ spans) (hi : s.Covers i) : low ≤ i := by
  induction spans generalizing low with
  | nil => exact absurd hs (by simp)
  | cons first spans ih =>
      obtain ⟨hlow, hstop, hrest⟩ := h
      rcases List.mem_cons.1 hs with rfl | hs
      · exact Nat.le_trans hlow hi.1
      · have hle := ih hrest hs
        omega

/-- The piece in the middle of a text. -/
theorem slice_middle (before word rest : List Char) :
    slice ⟨before.length, (before ++ word).length⟩ (before ++ word ++ rest) = word := by
  rw [slice, List.extract_eq_take_drop, List.append_assoc, List.drop_left, List.length_append,
    Nat.add_sub_cancel_left, List.take_left]

end Span

/-- The text from the index `low` on is tiled: the pieces follow one another, token by token each
piece holds the value of its token, whose position is the place of the piece, and the characters
outside of the pieces are the spaces, tabs and line feeds. -/
structure Tiling (text : List Char) (low : Nat) (spans : List Span) (ts : List Token) : Prop where
  ordered : Span.Ordered low spans text.length
  tokens : List.Forall₂ (fun (s : Span) (t : Token) => t.value.toList = s.slice text ∧
    t.position = .behind (text.take s.start)) spans ts
  blank_iff : ∀ i (h : i < text.length), low ≤ i →
    ((text[i] = ' ' ∨ text[i] = '\t' ∨ text[i] = '\n') ↔ ∀ s ∈ spans, ¬ s.Covers i)

namespace Tiling

/-! ### The construction -/

theorem nil (text : List Char) : Tiling text text.length [] [] where
  ordered := Nat.le_refl _
  tokens := .nil
  blank_iff _ h hlow := absurd h (Nat.not_lt.2 hlow)

variable {before rest : List Char} {spans : List Span} {ts : List Token}

/-- A blank adds no piece. -/
theorem blank {c : Char} (hblank : isBlank c = true)
    (h : Tiling (before ++ [c] ++ rest) (before ++ [c]).length spans ts) :
    Tiling (before ++ [c] ++ rest) before.length spans ts where
  ordered := h.ordered.mono (by simp)
  tokens := h.tokens
  blank_iff i hi hlow := by
    rcases Nat.eq_or_lt_of_le hlow with rfl | hlt
    · have hchar : (before ++ [c] ++ rest)[before.length] = c := by simp
      rw [hchar]
      constructor
      · intro _ s hs hcovers
        -- the pieces of the rest begin behind the blank
        have hle := h.ordered.le_of_covers hs hcovers
        rw [List.length_append, List.length_singleton] at hle
        omega
      · intro _
        exact isBlank_iff.1 hblank
    · have hle : (before ++ [c]).length ≤ i := by simpa using Nat.succ_le_of_lt hlt
      exact h.blank_iff i hi hle

/-- A lexeme adds its piece. -/
theorem lexeme {word : List Char} {t : Token} (hword : word ≠ [])
    (hblank : ∀ c ∈ word, isBlank c = false) (hvalue : t.value.toList = word)
    (hposition : t.position = .behind before)
    (h : Tiling (before ++ word ++ rest) (before ++ word).length spans ts) :
    Tiling (before ++ word ++ rest) before.length
      (⟨before.length, (before ++ word).length⟩ :: spans) (t :: ts) where
  ordered := by
    have hpos : 0 < word.length := List.length_pos_iff.2 hword
    exact ⟨Nat.le_refl _, by simpa using hpos, h.ordered⟩
  tokens := by
    refine .cons ⟨?_, ?_⟩ h.tokens
    · rw [hvalue, Span.slice_middle]
    · rw [hposition, List.append_assoc, List.take_left]
  blank_iff i hi hlow := by
    by_cases hstop : i < (before ++ word).length
    · -- inside of the new piece nothing is blank
      have hmem : (before ++ word ++ rest)[i] ∈ word := by
        rw [List.getElem_append_left hstop, List.getElem_append_right hlow]
        exact List.getElem_mem _
      constructor
      · intro hchar
        exact absurd (isBlank_iff.2 hchar) (Bool.eq_false_iff.1 (hblank _ hmem))
      · intro hnone
        exact absurd ⟨hlow, hstop⟩ (hnone _ List.mem_cons_self)
    · -- behind the new piece the tiling of the rest decides
      have hout : ¬ Span.Covers ⟨before.length, (before ++ word).length⟩ i :=
        fun hcovers => hstop hcovers.2
      rw [h.blank_iff i hi (Nat.le_of_not_lt hstop), List.forall_mem_cons]
      exact ⟨fun hrest => ⟨hout, hrest⟩, And.right⟩

end Tiling

namespace Cut

/-! ### The tokens of a text -/

/-- What stands behind a text `before` is tiled by its tokens. -/
theorem exists_tiling (before cs : List Char) :
    ∃ spans, Tiling (before ++ cs) before.length spans (tokens (.behind before) cs) := by
  -- in the steps of `tokens`; each of them moves a piece of the text from `cs` to `before`
  generalize hp : Position.behind before = p
  fun_induction tokens p cs generalizing before with
  | case1 p => exact ⟨[], by simpa using Tiling.nil before⟩
  | case2 p c rest hblank ih =>
      have hp' : Position.behind (before ++ [c]) = p.step c := by
        rw [Position.behind_append_singleton, hp]
      obtain ⟨spans, hspans⟩ := ih (before ++ [c]) hp'
      refine ⟨spans, ?_⟩
      rw [List.append_cons]
      exact hspans.blank hblank
  | case3 p c rest hblank ih =>
      have hblank : isBlank c = false := by simpa using hblank
      obtain ⟨more, hmore⟩ := exists_value_front c rest
      have hp' : Position.behind (before ++ (front c rest).1.value.toList) =
          p.after (front c rest).1.value.toList := by
        rw [← Position.after_behind, hp]
      obtain ⟨spans, hspans⟩ := ih (before ++ (front c rest).1.value.toList) hp'
      refine ⟨⟨before.length, (before ++ (front c rest).1.value.toList).length⟩ :: spans, ?_⟩
      have happend := front_append c rest
      rw [← happend, ← List.append_assoc]
      exact hspans.lexeme (by simp [hmore]) (not_blank_of_mem_front hblank) rfl hp.symm

/-- The values of the tokens are the characters of the text without the blanks. -/
theorem flatMap_value_tokens (p : Position) (cs : List Char) :
    (tokens p cs).flatMap (·.value.toList) = cs.filter (!isBlank ·) := by
  fun_induction tokens p cs with
  | case1 p => rfl
  | case2 p c rest hblank ih => rw [ih, List.filter_cons_of_neg (by simp [hblank])]
  | case3 p c rest hblank ih =>
      have hblank : isBlank c = false := by simpa using hblank
      have hkept : (front c rest).1.value.toList.filter (!isBlank ·) =
          (front c rest).1.value.toList :=
        List.filter_eq_self.2 fun d hd => by simp [not_blank_of_mem_front hblank d hd]
      rw [List.flatMap_cons, ih, ← front_append c rest, List.filter_append, hkept]
      rfl

end Cut

namespace Script

/-- **The tokens of a source that ends cleanly tile its text**, and nothing is left out but spaces,
tabs and line feeds. -/
theorem exists_tiling_of_clean (events : Script) (h : events.ending = .clean) :
    ∃ ts spans, (Source.ofScript events).tokens = .ok ts ∧
      Tiling (Utf8.decode events.bytes) 0 spans ts ∧
      ts.flatMap (·.value.toList) =
        (Utf8.decode events.bytes).filter fun c => c ≠ ' ' ∧ c ≠ '\t' ∧ c ≠ '\n' := by
  obtain ⟨spans, htiling⟩ := Cut.exists_tiling [] (Utf8.decode events.bytes)
  refine ⟨_, spans, Source.tokens_of_clean h, htiling, ?_⟩
  rw [Cut.flatMap_value_tokens]
  refine List.filter_congr fun c _ => ?_
  rw [Bool.eq_iff_iff, Bool.not_eq_true', Bool.eq_false_iff, ne_eq, isBlank_iff]
  simp

/-- A character cut by a read, a line break with a tab behind it, and a malformed byte. -/
theorem exists_tiling_of_malformed :
    let events : Script := [.bytes [0xc3],
      .bytes [0xa9, 0x0a, 0x09, 0x3d, 0x3d, 0xff, 0x20, 0x2b]]
    events.ending = .clean ∧
      ∃ ts spans, (Source.ofScript events).tokens = .ok ts ∧
        Tiling ['é', '\n', '\t', '=', '=', Utf8.replacement, ' ', '+'] 0 spans ts ∧
        ts.flatMap (·.value.toList) = ['é', '=', '=', Utf8.replacement, '+'] := by
  intro events
  have hclean : events.ending = .clean := rfl
  have hdecode : Utf8.decode events.bytes =
      ['é', '\n', '\t', '=', '=', Utf8.replacement, ' ', '+'] := by
    change Utf8.decode [0xc3, 0xa9, 0x0a, 0x09, 0x3d, 0x3d, 0xff, 0x20, 0x2b] = _
    decide +kernel
  obtain ⟨ts, spans, htokens, htiling, hvalues⟩ := exists_tiling_of_clean events hclean
  rw [hdecode] at htiling hvalues
  exact ⟨hclean, ts, spans, htokens, htiling, hvalues⟩

end Script

end TokenStream
