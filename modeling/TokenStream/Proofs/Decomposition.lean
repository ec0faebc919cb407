/-
A caret walks over the pieces of its bytes.

Any sequence of bytes falls into pieces, from left to right.  Where a well-formed encoding stands,
it is a piece, and its character is what the piece says; where none stands, a single byte is a
piece, and it says `Utf8.replacement`.  There is only one such decomposition, and put together the
pieces give the bytes.

A caret does not see the pieces.  It collects bytes by the width that the first of them announces,
and hands back what it has collected in vain, possibly in front of bytes that were handed back
before.  Still, **what it stands on and what it sees ahead are the characters of the pieces, in
their order, and the bytes that it has not used yet are those of the pieces behind them**: no byte
is lost, moved or used twice.

* `Utf8.Piece`, `Utf8.Decomposition` — pieces of a sequence of bytes;
* `Utf8.pieces`, `Utf8.decomposition_pieces`, `Utf8.Decomposition.eq_pieces` — there is one
  decomposition, and no other;
* `CharStream.fst_next_eq_piece`, `CharStream.pieces_bytes_next` — reading a character takes the
  first piece;
* `Caret.Reads`, `Caret.Reads.apply`, `Caret.Reads.after` — **one operation and a run of
  operations**;
* `Script.characters_of_pieces` — the characters of a script.
-/

import TokenStream.Proofs.Encoding
import TokenStream.Proofs.CaretText

set_option relaxedAutoImplicit false
set_option autoImplicit false

namespace TokenStream

namespace Utf8

/-! ### Pieces -/

/-- Some bytes, and the character that they stand for. -/
structure Piece where
  char : Char
  bytes : List UInt8
  deriving DecidableEq, Repr

/-- The decomposition of a sequence of bytes from left to right: a well-formed encoding that stands
at the front gives its character, and where none stands there a single byte is replaced. -/
inductive Decomposition : List UInt8 → List Piece → Prop
  | nil : Decomposition [] []
  | encoded {c : Char} {enc rest : List UInt8} {ps : List Piece}
      (henc : WellFormed enc c.toNat) (h : Decomposition rest ps) :
      Decomposition (enc ++ rest) (⟨c, enc⟩ :: ps)
  | malformed {first : UInt8} {rest : List UInt8} {ps : List Piece}
      (hnone : ∀ n enc, WellFormed enc n → ¬ enc <+: first :: rest) (h : Decomposition rest ps) :
      Decomposition (first :: rest) (⟨replacement, [first]⟩ :: ps)

/-- Put together, the pieces give the bytes. -/
theorem Decomposition.flatMap_bytes {bytes : List UInt8} {ps : List Piece}
    (h : Decomposition bytes ps) : ps.flatMap (·.bytes) = bytes := by
  induction h with
  | nil => rfl
  | encoded henc h ih => rw [List.flatMap_cons, ih]
  | malformed hnone h ih => rw [List.flatMap_cons, ih, List.singleton_append]

/-! ### The one decomposition -/

/-- The piece at the front of `first :: rest`. -/
def piece (first : UInt8) (rest : List UInt8) : Piece :=
  match leading? (first :: rest) with
  | some c => ⟨c, String.utf8EncodeChar c⟩
  | none => ⟨replacement, [first]⟩

theorem length_behind_le (first : UInt8) (rest : List UInt8) :
    (behind first rest).length ≤ rest.length := by
  rw [behind]
  cases leading? (first :: rest) with
  | none => exact Nat.le_refl _
  | some c =>
      simp only [List.length_drop]
      omega

/-- The pieces of a sequence of bytes. -/
def pieces (bytes : List UInt8) : List Piece :=
  match bytes with
  | [] => []
  | first :: rest => piece first rest :: pieces (behind first rest)
termination_by bytes.length
decreasing_by exact Nat.lt_succ_of_le (length_behind_le first rest)

@[simp] theorem pieces_nil : pieces [] = [] := by rw [pieces]

theorem pieces_cons (first : UInt8) (rest : List UInt8) :
    pieces (first :: rest) = piece first rest :: pieces (behind first rest) := by rw [pieces]

/-- An encoding in front, as a piece with what stands behind it. -/
theorem pieces_of_leading? {first : UInt8} {rest : List UInt8} {c : Char}
    (h : leading? (first :: rest) = some c) :
    first :: rest = String.utf8EncodeChar c ++ behind first rest ∧
      piece first rest = ⟨c, String.utf8EncodeChar c⟩ := by
  refine ⟨?_, by simp only [piece, h]⟩
  obtain ⟨rest', hrest'⟩ := leading?_eq_some_iff.1 h
  cases henc : String.utf8EncodeChar c with
  | nil => exact absurd henc String.utf8EncodeChar_ne_nil
  | cons b more =>
      rw [henc, List.cons_append, List.cons.injEq] at hrest'
      obtain ⟨rfl, rfl⟩ := hrest'
      rw [(behind_of_utf8EncodeChar henc rest').2, List.cons_append]

/-- The pieces are a decomposition. -/
theorem decomposition_pieces (bytes : List UInt8) : Decomposition bytes (pieces bytes) := by
  fun_induction pieces bytes with
  | case1 => exact .nil
  | case2 first rest ih =>
      cases hlead : leading? (first :: rest) with
      | some c =>
          obtain ⟨hsplit, hpiece⟩ := pieces_of_leading? hlead
          rw [hsplit, hpiece]
          exact .encoded (wellFormed_utf8EncodeChar c) ih
      | none =>
          have hpiece : piece first rest = ⟨replacement, [first]⟩ := by simp only [piece, hlead]
          have hbehind : behind first rest = rest := by simp only [behind, hlead]
          rw [hbehind] at ih
          rw [hpiece, hbehind]
          exact .malformed (leading?_eq_none_iff_wellFormed.1 hlead) ih

/-- There is no other decomposition. -/
theorem Decomposition.eq_pieces {bytes : List UInt8} {ps : List Piece}
    (h : Decomposition bytes ps) : ps = pieces bytes := by
  induction h with
  | nil => rw [pieces_nil]
  | @encoded c enc rest ps henc h ih =>
      obtain rfl := henc.eq_utf8EncodeChar
      cases hchar : String.utf8EncodeChar c with
      | nil => exact absurd hchar String.utf8EncodeChar_ne_nil
      | cons first more =>
          obtain ⟨hlead, hbehind⟩ := behind_of_utf8EncodeChar hchar rest
          rw [List.cons_append, pieces_cons, hbehind, ih, (pieces_of_leading? hlead).2, hchar]
  | @malformed first rest ps hnone h ih =>
      have hlead : leading? (first :: rest) = none := leading?_eq_none_iff_wellFormed.2 hnone
      have hpiece : piece first rest = ⟨replacement, [first]⟩ := by simp only [piece, hlead]
      have hbehind : behind first rest = rest := by simp only [behind, hlead]
      rw [pieces_cons, hpiece, hbehind, ih]

/-- The characters of the pieces are the decoding of the bytes. -/
theorem map_char_pieces (bytes : List UInt8) : (pieces bytes).map (·.char) = decode bytes := by
  fun_induction pieces bytes with
  | case1 => rw [decode_nil, List.map_nil]
  | case2 first rest ih =>
      have hchar : (piece first rest).char = (leading? (first :: rest)).getD replacement := by
        rw [piece]
        cases leading? (first :: rest) <;> rfl
      rw [List.map_cons, ih, hchar, decode_cons]

end Utf8

namespace CharStream

/-! ### Reading a character -/

theorem fst_next_eq_piece (s : CharStream) :
    s.next.1 = (Utf8.pieces s.bytes).head?.map (·.char) := by
  rw [fst_next, ← Utf8.map_char_pieces, List.head?_map]

/-- Reading a character takes the first piece off the bytes to come. -/
theorem pieces_bytes_next (s : CharStream) :
    Utf8.pieces s.next.2.bytes = (Utf8.pieces s.bytes).tail := by
  obtain ⟨s', hnext, hrest⟩ := nextByte_eq s
  cases hbytes : s.bytes with
  | nil =>
      rw [hbytes, List.head?_nil] at hnext
      rw [hbytes, List.tail_nil] at hrest
      rw [next, hnext, Utf8.pieces_nil, List.tail_nil]
      exact (congrArg Utf8.pieces hrest).trans Utf8.pieces_nil
  | cons first rest =>
      rw [hbytes, List.head?_cons] at hnext
      rw [hbytes, List.tail_cons] at hrest
      rw [next, hnext, Utf8.pieces_cons, List.tail_cons, ← hrest]
      exact congrArg Utf8.pieces (bytes_nextFrom first s')

/-- Reading a character goes from one piece to the next. -/
theorem next_of_pieces {s : CharStream} {ps : List Utf8.Piece} {k : Nat}
    (h : Utf8.pieces s.bytes = ps.drop k) :
    s.next.1 = ps[k]?.map (·.char) ∧ Utf8.pieces s.next.2.bytes = ps.drop (k + 1) := by
  rw [fst_next_eq_piece, pieces_bytes_next, h, List.head?_drop, List.tail_drop]
  exact ⟨rfl, rfl⟩

end CharStream

namespace Caret

/-! ### Walking -/

/-- The state after some operations. -/
def after (c : Caret) : List Op → Caret
  | [] => c
  | op :: ops => (c.apply op).2.after ops

/-- The caret stands on the piece with index `i`, or behind all pieces; it has read that piece, and
the next one too if it has looked ahead. -/
structure Reads (ps : List Utf8.Piece) (i : Nat) (c : Caret) : Prop where
  current_eq : c.current = ps[i]?.map (·.char)
  ahead_eq : ∀ char?, c.ahead = some char? → char? = ps[i + 1]?.map (·.char)
  pieces_eq : Utf8.pieces c.input.bytes = ps.drop (i + 1 + c.ahead.toList.length)

variable {ps : List Utf8.Piece} {i : Nat} {c : Caret}

theorem reads_ofSource (source : Source) :
    (ofSource source).Reads (Utf8.pieces source.bytes) 0 := by
  have hall : Utf8.pieces (CharStream.ofSource source).bytes =
      (Utf8.pieces source.bytes).drop 0 := rfl
  obtain ⟨hchar, hpieces⟩ := CharStream.next_of_pieces hall
  exact ⟨hchar, nofun, hpieces⟩

/-- A move leads to the next piece. -/
theorem Reads.advance (h : c.Reads ps i) : c.advance.Reads ps (i + 1) := by
  have hpieces := h.pieces_eq
  cases ha : c.ahead with
  | some char? =>
      rw [ha] at hpieces
      simp only [Caret.advance, ha]
      refine ⟨h.ahead_eq char? ha, ?_, ?_⟩
      · intro char? hahead
        exact absurd hahead (Option.some_ne_none _).symm
      · rw [input_nextColumn, hpieces]
        rfl
  | none =>
      rw [ha] at hpieces
      obtain ⟨hchar, hnext⟩ := CharStream.next_of_pieces hpieces
      simp only [Caret.advance, ha]
      refine ⟨?_, ?_, ?_⟩
      · rw [read_fst, input_nextColumn, hchar]
        rfl
      · intro char? hahead
        rw [ahead_read, ahead_nextColumn, ha] at hahead
        exact absurd hahead (Option.some_ne_none _).symm
      · rw [ahead_read, input_read, input_nextColumn, ahead_nextColumn, ha, hnext]
        rfl

/-- A look shows the next piece, and may have to read it. -/
theorem Reads.lookAhead (h : c.Reads ps i) :
    c.lookAhead.1 = ps[i + 1]?.map (·.char) ∧ c.lookAhead.2.Reads ps i := by
  have hpieces := h.pieces_eq
  cases ha : c.ahead with
  | some char? =>
      simp only [Caret.lookAhead, ha]
      exact ⟨h.ahead_eq char? ha, h⟩
  | none =>
      rw [ha] at hpieces
      obtain ⟨hchar, hnext⟩ := CharStream.next_of_pieces hpieces
      simp only [Caret.lookAhead, ha]
      refine ⟨hchar, h.current_eq, ?_, hnext⟩
      intro char? hahead
      obtain rfl := Option.some.inj hahead
      exact hchar

/-- **One operation** on the pieces. -/
theorem Reads.apply (h : c.Reads ps i) (op : Op) :
    (c.apply op).2.Reads ps (i + [op].count .advance) := by
  cases op with
  | advance => exact h.advance
  | lookAhead => exact h.lookAhead.2
  | breakLine => exact ⟨h.current_eq, h.ahead_eq, h.pieces_eq⟩
  | takeFault =>
      have hkeep : c.takeFault.2.Reads ps i := by
        rw [takeFault_eq]
        exact ⟨h.current_eq, h.ahead_eq, h.pieces_eq⟩
      exact hkeep

/-- **A run of operations** on the pieces. -/
theorem Reads.after (h : c.Reads ps i) (ops : List Op) :
    (c.after ops).Reads ps (i + ops.count .advance) := by
  induction ops generalizing c i with
  | nil => exact h
  | cons op ops ih =>
      have hcount : i + (op :: ops).count .advance =
          i + [op].count .advance + ops.count .advance := by
        rw [← List.singleton_append, List.count_append, Nat.add_assoc]
      rw [hcount]
      exact ih (h.apply op)

end Caret

namespace Script

/-- **The characters of a script are those of its pieces.**  There is one decomposition of its bytes
into pieces.  After any operations, a caret stands on the piece whose index is the number of moves,
sees the character of the next one ahead, and still has before it the bytes of all pieces that it
has not read, whether they were handed back, are buffered or have not been delivered. -/
theorem characters_of_pieces (events : Script) :
    ∃ ps, Utf8.Decomposition events.bytes ps ∧
      (∀ ps', Utf8.Decomposition events.bytes ps' → ps' = ps) ∧
      ps.flatMap (·.bytes) = events.bytes ∧
      ∀ ops, let c := (Caret.ofSource (.ofScript events)).after ops
        let i := ops.count .advance
        c.current = ps[i]?.map (·.char) ∧ c.lookAhead.1 = ps[i + 1]?.map (·.char) ∧
          c.input.bytes = (ps.drop (i + 1 + c.ahead.toList.length)).flatMap (·.bytes) := by
  have hps := Utf8.decomposition_pieces events.bytes
  refine ⟨Utf8.pieces events.bytes, hps, fun ps' h => h.eq_pieces, hps.flatMap_bytes, ?_⟩
  intro ops c i
  have hreads := (Caret.reads_ofSource (.ofScript events)).after ops
  rw [Nat.zero_add, Source.bytes_ofScript] at hreads
  refine ⟨hreads.current_eq, hreads.lookAhead.1, ?_⟩
  rw [← hreads.pieces_eq]
  exact (Utf8.decomposition_pieces c.input.bytes).flatMap_bytes.symm

/-- Malformed sequences that overlap, two of them cut by reads, in front of a fault. -/
theorem characters_of_pieces_of_overlapping :
    let events : Script := [.bytes [0xf0, 0xe2], .bytes [0x82, 0xc3], .bytes [0xa9, 0x61, 0xf4],
      .fault (.ofKind .timedOut), .bytes [0x80]]
    let ps : List Utf8.Piece := [⟨Utf8.replacement, [0xf0]⟩, ⟨Utf8.replacement, [0xe2]⟩,
      ⟨Utf8.replacement, [0x82]⟩, ⟨'é', [0xc3, 0xa9]⟩, ⟨'a', [0x61]⟩,
      ⟨Utf8.replacement, [0xf4]⟩]
    Utf8.Decomposition events.bytes ps ∧
      let c := (Caret.ofSource (.ofScript events)).after [.advance, .lookAhead, .advance, .advance]
      c.current = some 'é' ∧ c.lookAhead.1 = some 'a' ∧ c.input.bytes = [0x61, 0xf4] := by
  intro events ps
  have hps : Utf8.Decomposition events.bytes ps := by
    have hpieces : ps = Utf8.pieces [0xf0, 0xe2, 0x82, 0xc3, 0xa9, 0x61, 0xf4] := by
      decide +kernel
    rw [hpieces]
    exact Utf8.decomposition_pieces _
  obtain ⟨ps', -, hunique, -, hcaret⟩ := characters_of_pieces events
  obtain rfl := hunique ps hps
  refine ⟨hps, ?_⟩
  intro c
  obtain ⟨hcurrent, hahead, hbytes⟩ := hcaret [.advance, .lookAhead, .advance, .advance]
  have hempty : c.ahead = none := by decide +kernel
  refine ⟨hcurrent, hahead, hbytes.trans ?_⟩
  rw [hempty]
  rfl

end Script

end TokenStream
