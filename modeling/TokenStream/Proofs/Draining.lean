/-
Draining ends, and how soon.

A scanner that is asked for tokens over and over comes to an end because each of its scans moves the
caret: where passing over blanks ends on a character, **that character starts a value**, whatever
operations came before.  The loop over a word cannot stop in front of it, since the characters that
end a word are those that are passed over.  So a text has at most as many tokens as it has
characters.  It has at most as many characters as bytes were delivered: bytes may be handed back and
looked at again, but each of them belongs to one piece, and each piece is one character.  Only the
report of a fault comes from no byte at all.

* `Utf8.length_decode_le`, `Cut.length_tokens_le` — characters from bytes, and tokens from
  characters;
* `Caret.Sound.scan_of_current` — **one scan** that begins on a character;
* `Scanner.queueAnswers_nexts` — asking for tokens until none is left, and on;
* `Scanner.draining_ends` — **how many tokens there are**, from any state that can be reached.
-/

import TokenStream.Proofs.Demand
import TokenStream.Proofs.Exhaustion
import TokenStream.Proofs.Failure

set_option relaxedAutoImplicit false
set_option autoImplicit false

namespace TokenStream

/-! ### How many tokens -/

/-- Each character takes a byte, at the least. -/
theorem Utf8.length_decode_le (bytes : List UInt8) : (decode bytes).length ≤ bytes.length := by
  rw [← length_pieces]
  fun_induction pieces bytes with
  | case1 => exact Nat.le_refl 0
  | case2 first rest ih => exact Nat.succ_le_succ (Nat.le_trans ih (length_behind_le first rest))

/-- Each token takes a character, at the least. -/
theorem Cut.length_tokens_le (p : Position) (cs : List Char) :
    (tokens p cs).length ≤ cs.length := by
  fun_induction tokens p cs with
  | case1 p => exact Nat.le_refl 0
  | case2 p c rest hblank ih => exact Nat.le_succ_of_le ih
  | case3 p c rest hblank ih => exact Nat.succ_le_succ (Nat.le_trans ih (length_front_le c rest))

/-- The tokens of a text are no more than the bytes that it was decoded from. -/
theorem Cut.length_tokens_decode_le (p : Position) (bytes : List UInt8) :
    (tokens p (Utf8.decode bytes)).length ≤ bytes.length :=
  Nat.le_trans (length_tokens_le p _) (Utf8.length_decode_le bytes)

/-! ### One scan -/

/-- **A scan that begins on a character takes it.**  The token that it finds has a value that starts
with the character, and the caret has moved over the value. -/
theorem Caret.Sound.scan_of_current {c : Caret} {char : Char} (h : c.Sound)
    (hc : c.skipBlanks.current = some char) :
    ∃ t more, c.scan.1 = some t ∧ t.error = none ∧ t.value.toList = char :: more ∧
      c.skipBlanks.text = t.value.toList ++ c.scan.2.text := by
  have hat : c.skipBlanks.At c.skipBlanks.position c.skipBlanks.text :=
    ⟨preserved_sound.skipBlanks h, rfl, rfl⟩
  obtain ⟨rest, hrest⟩ := List.head?_eq_some_iff.1 (hat.current_eq.symm.trans hc)
  rw [hrest] at hat
  obtain ⟨hfst, hbehind⟩ := hat.scan_front (isBlank_current_skipBlanks hc)
  have hscan : c.skipBlanks.scan = c.scan := by rw [scan, skipBlanks_skipBlanks, scan]
  rw [hscan] at hfst hbehind
  obtain ⟨more, hmore⟩ := Cut.exists_value_front char rest
  refine ⟨_, more, hfst, rfl, hmore, ?_⟩
  rw [hrest, hbehind.text_eq]
  exact (Cut.front_append char rest).symm

namespace Scanner

/-! ### All scans -/

/-- Asking for the next token yields those to come, one after the other, and then none. -/
theorem queueAnswers_nexts (ts : List Token) (k : Nat) :
    queueAnswers ts (List.replicate (ts.length + k) .next) =
      ts.map (fun t => .yielded (some t)) ++ List.replicate k (.yielded none) := by
  induction ts with
  | nil =>
      rw [queueAnswers_nil, List.length_nil, Nat.zero_add, List.map_replicate]
      rfl
  | cons t ts ih =>
      rw [List.length_cons, Nat.add_right_comm, List.replicate_succ, queueAnswers, List.map_cons,
        List.cons_append, ← ih]
      rfl

/-- **Draining ends.**  In every state that a scanner of a script can reach, a scan that begins on a
character moves the caret over a value that is not empty.  Asked for tokens from there on, the
scanner yields finitely many and then none for ever.  Together with the tokens handed out before, a
source that ends cleanly has at most as many as bytes were delivered, and none with an error; a
source that fails has one more, which comes last and carries the error. -/
theorem draining_ends (events : Script) (ops : List Op) :
    let s := (ofSource (.ofScript events)).after ops
    (∀ char, s.caret.skipBlanks.current = some char →
      ∃ t, s.caret.scan.1 = some t ∧ t.error = none ∧ t.value ≠ "" ∧
        s.caret.skipBlanks.text = t.value.toList ++ s.caret.scan.2.text) ∧
    ∃ ts : List Token, s.drain.1 = ts ∧
      (∀ k, s.answers (List.replicate (ts.length + k) .next) =
        ts.map (fun t => .yielded (some t)) ++ List.replicate k (.yielded none)) ∧
      let all := (ofSource (.ofScript events)).taken ops ++ ts
      (events.ending = .clean →
        all.length ≤ events.bytes.length ∧ ∀ t ∈ all, t.error = none) ∧
      ∀ cause, events.ending = .failed cause →
        ∃ us t, all = us ++ [t] ∧ us.length ≤ events.bytes.length ∧
          (∀ u ∈ us, u.error = none) ∧ t.error.isSome := by
  intro s
  have hs : Reached events s := (reached_ofScript events).after ops
  refine ⟨?_, s.queue, rfl, ?_, ?_⟩
  · intro char hchar
    obtain ⟨t, more, hfound, herror, hvalue, htext⟩ := hs.sound.scan_of_current hchar
    refine ⟨t, hfound, herror, ?_, htext⟩
    intro hempty
    rw [hempty] at hvalue
    exact nomatch hvalue
  · intro k
    rw [hs.genuine.answers_eq, queueAnswers_nexts]
  · intro all
    have hall : all = (ofSource (.ofScript events)).queue :=
      (genuine_ofSource (.ofScript events)).taken_append_queue ops
    rw [hall]
    refine ⟨?_, ?_⟩
    · intro hclean
      have htokens : (ofSource (.ofScript events)).queue = _ := Source.drain_of_clean hclean
      rw [htokens]
      exact ⟨Cut.length_tokens_decode_le .start events.bytes, fun t => Cut.error_of_mem_tokens⟩
    · intro cause hfailed
      exact ⟨_, _, Source.drain_of_failed hfailed, Cut.length_tokens_decode_le .start events.bytes,
        fun u => Cut.error_of_mem_tokens, rfl⟩

/-- Two symbols without a blank, each of them one byte, and a source that fails behind them. -/
theorem draining_ends_of_symbols :
    let events : Script := [.bytes [0x2b, 0x3d], .fault (.ofKind .timedOut)]
    let clean : Script := [.bytes [0x2b], .fault (.ofKind .interrupted), .bytes [0x3d]]
    let s := ofSource (.ofScript events)
    let s' := (ofSource (.ofScript clean)).after [.peek, .next]
    s.caret.skipBlanks.current = some '+' ∧
      (∃ t, s.caret.scan.1 = some t ∧ t.error = none ∧ t.value ≠ "" ∧
        s.caret.skipBlanks.text = t.value.toList ++ s.caret.scan.2.text) ∧
      events.ending = .failed (.ofKind .timedOut) ∧ events.bytes.length = 2 ∧
      (∀ k, s.answers (List.replicate (3 + k) .next) =
        [.yielded (some ⟨.operator, ⟨1, 1⟩, "+", none⟩),
          .yielded (some ⟨.assignment, ⟨1, 2⟩, "=", none⟩),
          .yielded (some (.failure "timed out" ⟨1, 3⟩))] ++ List.replicate k (.yielded none)) ∧
      clean.ending = .clean ∧ clean.bytes.length = 2 ∧
      ((ofSource (.ofScript clean)).taken [.peek, .next] ++ s'.drain.1).length ≤ 2 := by
  intro events clean s s'
  have hfirst : s.caret.current = some '+' := by decide +kernel
  have hcurrent : s.caret.skipBlanks.current = some '+' := by
    rw [Caret.skipBlanks_of_not_blank, hfirst]
    intro char hchar
    obtain rfl : '+' = char := Option.some.inj (hfirst.symm.trans hchar)
    rfl
  have hdrain : s.drain.1 = [⟨.operator, ⟨1, 1⟩, "+", none⟩, ⟨.assignment, ⟨1, 2⟩, "=", none⟩,
      .failure "timed out" ⟨1, 3⟩] := by
    rw [Source.drain_eq]
    decide +kernel
  obtain ⟨hscan, ts, rfl, hnexts, -⟩ := draining_ends events []
  obtain ⟨-, ts', rfl, -, hclean, -⟩ := draining_ends clean [.peek, .next]
  refine ⟨hcurrent, hscan _ hcurrent, rfl, rfl, ?_, rfl, rfl, (hclean rfl).1⟩
  intro k
  have hanswers := hnexts k
  rw [after_nil, hdrain] at hanswers
  exact hanswers

end Scanner

end TokenStream
