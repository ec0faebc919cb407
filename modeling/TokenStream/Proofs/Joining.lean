/-
Texts that are joined.

Scanning carries a state along: a character that was only looked at, bytes that were handed back,
the two counters of the position.  None of it is carried over a blank.  If two texts are joined by
a blank, the tokens of the whole are **the tokens of the first text, and behind them the tokens of
the second one, moved** to the place where the second text begins, whatever the two texts are made
of.

A token is moved as its line says.  On the first line of its text it stands behind something else
now, so that its column changes too; on every other line only the line changes.

That nothing is carried over is a fact about any two texts of which the first one ends where a token
may end: `Cut.tokens_append` does not ask for a blank.

* `Cut.front_append_text`, `Cut.tokens_append` — **the tokens of texts put together**;
* `Position.movedTo`, `Token.movedTo` — what is moved if a text begins at another place;
* `Position.after_movedTo`, `Cut.tokens_movedTo` — the tokens of a text that was moved;
* `Cut.tokens_append_blank` — the tokens of texts that are joined by a blank;
* `Script.drain_joined` — **the same for sources**.
-/

import TokenStream.Proofs.Alike
import TokenStream.Proofs.Boundary
import TokenStream.Proofs.Layout

set_option relaxedAutoImplicit false
set_option autoImplicit false

namespace TokenStream

/-! ### Texts put together -/

theorem Kind.EndsBefore.of_head? {kind : Kind} {rest rest' : List Char} (h : kind.EndsBefore rest)
    (hhead : rest.head? = rest'.head?) : kind.EndsBefore rest' := by
  rwa [EndsBefore, hhead] at h

/-- Every token may end before a blank. -/
theorem Kind.endsBefore_blank (kind : Kind) {c : Char} (h : isBlank c = true)
    (rest : List Char) : kind.EndsBefore (c :: rest) := by
  have hequals : c ≠ '=' := by
    rintro rfl
    exact absurd h (by decide)
  exact ⟨fun _ => by simpa using h, fun _ => by simpa using hequals⟩

namespace Cut

/-- A lexeme that may end where the text behind it begins is cut off in front of that text. -/
theorem front_append_text {first : Char} {rest ds : List Char} (hblank : isBlank first = false)
    (hends : (front first rest).1.kind.EndsBefore ((front first rest).2 ++ ds)) :
    front first (rest ++ ds) = ((front first rest).1, (front first rest).2 ++ ds) := by
  obtain ⟨first', more, hvalue, hfront⟩ := front_of_isValueOf (isValueOf_front hblank) hends
  have happend := front_append first rest
  rw [hvalue, List.cons_append, List.cons.injEq] at happend
  obtain ⟨rfl, hrest⟩ := happend
  rw [← List.append_assoc, hrest, String.ofList_toList] at hfront
  exact hfront

/-- **The tokens of texts put together** are those of the one and then those of the other, if the
last token of the first text may end where the second one begins. -/
theorem tokens_append (p : Position) (cs ds : List Char)
    (h : ∀ t ∈ (tokens p cs).getLast?, t.kind.EndsBefore ds) :
    tokens p (cs ++ ds) = tokens p cs ++ tokens (p.after cs) ds := by
  fun_induction tokens p cs with
  | case1 p => rfl
  | case2 p c rest hblank ih => rw [List.cons_append, tokens_blank _ _ hblank, ih h]; rfl
  | case3 p c rest hblank ih =>
      have hblank : isBlank c = false := by simpa using hblank
      have hends : (front c rest).1.kind.EndsBefore ((front c rest).2 ++ ds) := by
        cases hrest : (front c rest).2 with
        | nil =>
            -- nothing is left behind the lexeme, which is therefore the last one
            rw [hrest, tokens_nil] at h
            exact h _ rfl
        | cons d rest' => exact (hrest ▸ endsBefore_front c rest).of_head? rfl
      have hlast : ∀ t ∈ (tokens (p.after (front c rest).1.value.toList) (front c rest).2).getLast?,
          t.kind.EndsBefore ds := by
        intro t ht
        rw [List.getLast?_cons, Option.mem_def.1 ht] at h
        exact h t rfl
      have hafter : p.after (c :: rest) =
          (p.after (front c rest).1.value.toList).after (front c rest).2 := by
        rw [← Position.after_append, front_append]
      rw [List.cons_append, tokens_front _ _ hblank, front_append_text hblank hends, ih hlast,
        hafter, List.cons_append]

end Cut

/-! ### Moving -/

namespace Position

/-- Where the position `p` is if the text that it belongs to begins at `base`. -/
def movedTo (p base : Position) : Position :=
  if p.line = 1 then ⟨base.line, base.column + p.column - 1⟩
  else ⟨base.line + p.line - 1, p.column⟩

variable {p base : Position}

theorem start_movedTo (base : Position) : start.movedTo base = base := rfl

/-- A step leads to the same place whether it is made before or after moving. -/
theorem step_movedTo (hline : 1 ≤ p.line) (hcolumn : 1 ≤ p.column) (c : Char) :
    (p.step c).movedTo base = (p.movedTo base).step c := by
  by_cases hbreak : c = '\n'
  · rw [step, step, if_pos hbreak, if_pos hbreak]
    by_cases hfirst : p.line = 1
    · simp only [movedTo, nextLine, nextColumn, hfirst, if_true]
      rfl
    · have hnext : ¬ p.line + 1 = 1 := by omega
      have hsum : base.line + (p.line + 1) - 1 = base.line + p.line - 1 + 1 := by omega
      simp only [movedTo, nextLine, nextColumn, hfirst, hnext, if_false, hsum]
  · rw [step, step, if_neg hbreak, if_neg hbreak]
    by_cases hfirst : p.line = 1
    · have hsum : base.column + (p.column + 1) - 1 = base.column + p.column - 1 + 1 := by omega
      simp only [movedTo, nextColumn, hfirst, if_true, hsum]
    · simp only [movedTo, nextColumn, hfirst, if_false]

theorem one_le_step (hline : 1 ≤ p.line) (c : Char) :
    1 ≤ (p.step c).line ∧ 1 ≤ (p.step c).column := by
  unfold step
  split
  · exact ⟨Nat.le_add_left 1 p.line, Nat.le_refl 1⟩
  · exact ⟨hline, Nat.le_add_left 1 p.column⟩

/-- The same for a walk over a text. -/
theorem after_movedTo (hline : 1 ≤ p.line) (hcolumn : 1 ≤ p.column) (cs : List Char) :
    (p.after cs).movedTo base = (p.movedTo base).after cs := by
  induction cs generalizing p with
  | nil => rfl
  | cons c cs ih =>
      obtain ⟨hline', hcolumn'⟩ := one_le_step hline c
      rw [after_cons, after_cons, ih hline' hcolumn', step_movedTo hline hcolumn]

theorem one_le_after (hline : 1 ≤ p.line) (hcolumn : 1 ≤ p.column) (cs : List Char) :
    1 ≤ (p.after cs).line ∧ 1 ≤ (p.after cs).column := by
  induction cs generalizing p with
  | nil => exact ⟨hline, hcolumn⟩
  | cons c cs ih =>
      obtain ⟨hline', hcolumn'⟩ := one_le_step hline c
      exact ih hline' hcolumn'

end Position

/-- The error of a text that begins at `base`. -/
def ScanError.movedTo (e : ScanError) (base : Position) : ScanError :=
  { e with position := e.position.movedTo base }

/-- The token of a text that begins at `base`; an error that it carries is moved too. -/
def Token.movedTo (t : Token) (base : Position) : Token :=
  { t with position := t.position.movedTo base, error := t.error.map (·.movedTo base) }

@[simp] theorem Token.movedTo_failure (reason : String) (p base : Position) :
    (failure reason p).movedTo base = failure reason (p.movedTo base) := rfl

@[simp] theorem Token.movedTo_placed (l : Lexeme) (p base : Position) :
    (l.placed p).movedTo base = l.placed (p.movedTo base) := rfl

namespace Cut

/-- **The tokens of a text that was moved** are its tokens, moved. -/
theorem tokens_movedTo {p : Position} (base : Position) (cs : List Char) (hline : 1 ≤ p.line)
    (hcolumn : 1 ≤ p.column) :
    tokens (p.movedTo base) cs = (tokens p cs).map (·.movedTo base) := by
  fun_induction tokens p cs with
  | case1 p => rw [tokens_nil, List.map_nil]
  | case2 p c rest hblank ih =>
      obtain ⟨hline', hcolumn'⟩ := Position.one_le_step hline c
      rw [tokens_blank _ _ hblank, ← Position.step_movedTo hline hcolumn, ih hline' hcolumn']
  | case3 p c rest hblank ih =>
      have hblank : isBlank c = false := by simpa using hblank
      obtain ⟨hline', hcolumn'⟩ :=
        Position.one_le_after hline hcolumn (front c rest).1.value.toList
      rw [tokens_front _ _ hblank, ← Position.after_movedTo hline hcolumn, ih hline' hcolumn',
        List.map_cons, Token.movedTo_placed]

/-- **The tokens of texts that are joined by a blank.** -/
theorem tokens_append_blank {c : Char} (hblank : isBlank c = true) (cs ds : List Char) :
    tokens .start (cs ++ c :: ds) =
      tokens .start cs ++ (tokens .start ds).map (·.movedTo (.behind (cs ++ [c]))) := by
  have hends : ∀ t ∈ (tokens .start cs).getLast?, t.kind.EndsBefore (c :: ds) :=
    fun t _ => t.kind.endsBefore_blank hblank ds
  have hplace : (Position.start.after cs).step c = .behind (cs ++ [c]) := by
    rw [Position.start_after, Position.behind_append_singleton]
  rw [tokens_append _ _ _ hends, tokens_blank _ _ hblank, hplace,
    ← tokens_movedTo _ _ (Nat.le_refl 1) (Nat.le_refl 1), Position.start_movedTo]

end Cut

/-! ### Sources -/

/-- A blank is a single byte. -/
theorem Utf8.decode_blank_cons {blank : UInt8} (h : blank = 0x20 ∨ blank = 0x09 ∨ blank = 0x0a) :
    ∃ c, isBlank c = true ∧ (∀ rest, decode (blank :: rest) = c :: decode rest) ∧
      ∀ rest, StartsAfresh (blank :: rest) := by
  have hcases : ∃ c, isBlank c = true ∧ String.utf8EncodeChar c = [blank] ∧ ¬ IsTail blank := by
    rcases h with rfl | rfl | rfl
    · exact ⟨' ', rfl, rfl, by simp [IsTail]⟩
    · exact ⟨'\t', rfl, rfl, by simp [IsTail]⟩
    · exact ⟨'\n', rfl, rfl, by simp [IsTail]⟩
  obtain ⟨c, hc, henc, htail⟩ := hcases
  refine ⟨c, hc, ?_, ?_⟩
  · intro rest
    have hdecode := decode_utf8EncodeChar_append c rest
    rwa [henc] at hdecode
  · rintro rest b ⟨⟩
    exact htail

/-- All that a scanner yields, where the report tells the fault in words. -/
theorem Source.drain_eq_of_reason (s : Source) :
    (Scanner.ofSource s).drain.1 =
      Cut.tokens .start (Utf8.decode s.bytes) ++
        (s.ending.reason?.map
          (.failure · (Position.start.after (Utf8.decode s.bytes)))).toList := by
  rw [drain_eq, Ending.reason?, Option.map_map]
  rfl

/-- All tokens of a source, where the error tells the fault in words. -/
theorem Source.tokens_eq_of_reason (s : Source) :
    s.tokens = match s.ending.reason? with
      | none => .ok (Cut.tokens .start (Utf8.decode s.bytes))
      | some reason => .error ⟨.sourceRead reason, Position.start.after (Utf8.decode s.bytes)⟩ := by
  cases hending : s.ending with
  | clean => exact tokens_of_clean hending
  | failed cause => exact tokens_of_failed hending

namespace Script

/-- **Sources that are joined by a blank.**  The whole yields what its front part yields, and then
what its back part yields, moved to the place behind the blank: one line for each line break, and
one column for each character behind the last of them.  That goes for the report of a fault behind
the back part too. -/
theorem drain_joined {whole front back : Script} {blank : UInt8}
    (hblank : blank = 0x20 ∨ blank = 0x09 ∨ blank = 0x0a) (hfront : front.ending = .clean)
    (hbytes : whole.bytes = front.bytes ++ [blank] ++ back.bytes)
    (hreason : whole.ending.reason? = back.ending.reason?) :
    let seam := front.bytes ++ [blank]
    let place : Position :=
      ⟨1 + seam.count 0x0a, 1 + ((Utf8.decode seam).reverse.takeWhile (· != '\n')).length⟩
    (Scanner.drain (.ofSource (.ofScript whole))).1 =
        (Scanner.drain (.ofSource (.ofScript front))).1 ++
          (Scanner.drain (.ofSource (.ofScript back))).1.map (·.movedTo place) ∧
      ∃ ts, (Source.ofScript front).tokens = .ok ts ∧
        (Source.ofScript whole).tokens =
          ((Source.ofScript back).tokens.map fun us => ts ++ us.map (·.movedTo place)).mapError
            (·.movedTo place) := by
  intro seam place
  obtain ⟨c, hc, hcons, hafresh⟩ := Utf8.decode_blank_cons hblank
  have hwhole : Utf8.decode whole.bytes =
      Utf8.decode front.bytes ++ c :: Utf8.decode back.bytes := by
    rw [hbytes, List.append_assoc, List.singleton_append, Utf8.decode_append (hafresh _), hcons]
  have hseam : Utf8.decode seam = Utf8.decode front.bytes ++ [c] := by
    rw [Utf8.decode_append (hafresh []), hcons, Utf8.decode_nil]
  have hplace : place = .behind (Utf8.decode front.bytes ++ [c]) := by
    rw [← hseam, Position.behind, Utf8.count_decode]
  have htokens : Cut.tokens .start (Utf8.decode whole.bytes) =
      Cut.tokens .start (Utf8.decode front.bytes) ++
        (Cut.tokens .start (Utf8.decode back.bytes)).map (·.movedTo place) := by
    rw [hwhole, hplace, Cut.tokens_append_blank hc]
  have hend : Position.start.after (Utf8.decode whole.bytes) =
      (Position.start.after (Utf8.decode back.bytes)).movedTo place := by
    rw [Position.after_movedTo (Nat.le_refl 1) (Nat.le_refl 1), Position.start_movedTo, hwhole,
      List.append_cons, Position.after_append, Position.start_after, hplace]
  have hclean : (Source.ofScript front).ending.reason? = none := by
    rw [Source.ending_ofScript, hfront]
    rfl
  refine ⟨?_, Cut.tokens .start (Utf8.decode front.bytes), Source.tokens_of_clean hfront, ?_⟩
  · rw [Source.drain_eq_of_reason, Source.drain_eq_of_reason, Source.drain_eq_of_reason, hclean,
      Source.ending_ofScript, Source.ending_ofScript, hreason, Source.bytes_ofScript,
      Source.bytes_ofScript, Source.bytes_ofScript, htokens, hend]
    cases back.ending.reason? <;> simp
  · rw [Source.tokens_eq_of_reason, Source.tokens_eq_of_reason, Source.ending_ofScript,
      Source.ending_ofScript, hreason, Source.bytes_ofScript, Source.bytes_ofScript, htokens, hend]
    cases back.ending.reason? <;> rfl

/-- A character that is cut off by the blank, and a fault behind the byte that would have completed
it. -/
theorem drain_joined_of_truncated :
    let front : Script := [.bytes [0x61, 0x0a, 0x3d, 0x20, 0xe2, 0x82]]
    let back : Script := [.bytes [0xac], .fault (.ofKind .timedOut)]
    let whole : Script := [.bytes [0x61, 0x0a, 0x3d, 0x20, 0xe2], .fault (.ofKind .interrupted),
      .bytes [0x82, 0x20, 0xac], .fault (.described .other "timed out"), .bytes [0x62]]
    front.ending = .clean ∧ whole.bytes = front.bytes ++ [0x20] ++ back.bytes ∧
      whole.ending.reason? = back.ending.reason? ∧
      (Scanner.drain (.ofSource (.ofScript back))).1 =
        [⟨.identifier, ⟨1, 1⟩, "\uFFFD", none⟩, .failure "timed out" ⟨1, 2⟩] ∧
      (Scanner.drain (.ofSource (.ofScript whole))).1 =
        (Scanner.drain (.ofSource (.ofScript front))).1 ++
          [⟨.identifier, ⟨2, 6⟩, "\uFFFD", none⟩, .failure "timed out" ⟨2, 7⟩] := by
  intro front back whole
  have hfront : front.ending = .clean := rfl
  have hbytes : whole.bytes = front.bytes ++ [0x20] ++ back.bytes := rfl
  have hreason : whole.ending.reason? = back.ending.reason? := rfl
  have hback : (Scanner.drain (.ofSource (.ofScript back))).1 =
      [⟨.identifier, ⟨1, 1⟩, "\uFFFD", none⟩, .failure "timed out" ⟨1, 2⟩] := by
    rw [Source.drain_eq]
    decide +kernel
  have hcolumn :
      ((Utf8.decode (front.bytes ++ [0x20])).reverse.takeWhile (· != '\n')).length = 5 := by
    decide +kernel
  obtain ⟨hdrain, -⟩ := drain_joined (Or.inl rfl) hfront hbytes hreason
  rw [hback, hcolumn] at hdrain
  exact ⟨hfront, hbytes, hreason, hback, hdrain⟩

end Script

end TokenStream
