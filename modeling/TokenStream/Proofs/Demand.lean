/-
How many bytes characters demand.

Before it decides on a character, a stream wants as many bytes as the first of them announces, and
one to see whether there is a character at all.  What was collected in vain is handed back, and
serves the characters behind it without a further byte of the source.  The demand of several
characters is therefore no sum: it is **the farthest byte that one of them asks for**.

Exactly this many bytes are taken from a source.  A source that has fewer is asked beyond its last
byte, and this is when it tells how it ended.  On the other side, the first characters of a text
depend on the bytes that they demand and on nothing behind them, be it further bytes, the end or a
fault.

* `Utf8.wanted`, `Utf8.offset`, `Utf8.reach`, `Utf8.demand` — what characters ask for;
* `Utf8.demand_le_iff` — the demand is the farthest of their bytes;
* `Utf8.demand_cons` — the demand, from the first character on;
* `Utf8.take_decode_of_take_demand` — **the first characters depend on their demand only**;
* `CharStream.bytes_source_next`, `CharStream.isEnded_source_next`, `CharStream.fault?_next` — what
  reading a character asks of a source;
* `CharStream.Drawn`, `CharStream.Drawn.next` — **a source has given what was demanded**;
* `CharStream.Asked`, `CharStream.Asked.next` — it has also met its ending no sooner and no later
  than more was demanded than there is;
* `Caret.Reads.advance_input`, `Caret.Reads.lookAhead_input` — which operation reads a character;
* `Caret.Draws`, `Caret.preserved_draws` — what a caret has drawn.
-/

import TokenStream.Proofs.Decomposition
import TokenStream.Proofs.Reading

set_option relaxedAutoImplicit false
set_option autoImplicit false

namespace TokenStream

namespace Utf8

/-! ### Demand -/

/-- How many bytes are wanted to decide on the character at the front, or to see that there is
none. -/
def wanted : List UInt8 → Nat
  | [] => 1
  | first :: _ => width first

/-- Where the piece with the index `j` begins. -/
def offset (bytes : List UInt8) (j : Nat) : Nat :=
  (((pieces bytes).take j).flatMap (·.bytes)).length

/-- How far the character with the index `j` asks. -/
def reach (bytes : List UInt8) (j : Nat) : Nat :=
  offset bytes j + wanted (bytes.drop (offset bytes j))

/-- How many bytes the first `k` characters demand. -/
def demand (bytes : List UInt8) : Nat → Nat
  | 0 => 0
  | k + 1 => max (demand bytes k) (reach bytes k)

variable {bytes : List UInt8}

theorem one_le_width (first : UInt8) : 1 ≤ width first := by
  fun_cases width first <;> decide

theorem one_le_wanted (bytes : List UInt8) : 1 ≤ wanted bytes := by
  cases bytes with
  | nil => exact Nat.le_refl 1
  | cons first rest => exact one_le_width first

/-- The demand is the farthest byte that one of the characters asks for. -/
theorem demand_le_iff {k n : Nat} : demand bytes k ≤ n ↔ ∀ j, j < k → reach bytes j ≤ n := by
  induction k with
  | zero => exact ⟨nofun, fun _ => Nat.zero_le n⟩
  | succ k ih => rw [demand, Nat.max_le, ih, Nat.forall_lt_succ_right]

theorem demand_mono {k k' : Nat} (h : k ≤ k') : demand bytes k ≤ demand bytes k' :=
  demand_le_iff.2 fun j hj => demand_le_iff.1 (Nat.le_refl _) j (Nat.lt_of_lt_of_le hj h)

/-! ### Places of pieces -/

theorem flatMap_bytes_pieces (bytes : List UInt8) : (pieces bytes).flatMap (·.bytes) = bytes :=
  (decomposition_pieces bytes).flatMap_bytes

/-- What is left behind some pieces begins at the offset of the next one. -/
theorem eq_drop_offset {rest : List UInt8} {j : Nat} (h : pieces rest = (pieces bytes).drop j) :
    rest = bytes.drop (offset bytes j) := by
  have hsplit : ((pieces bytes).take j).flatMap (·.bytes) ++ rest = bytes := by
    rw [← flatMap_bytes_pieces rest, h, ← List.flatMap_append, List.take_append_drop,
      flatMap_bytes_pieces]
  calc rest
    _ = (((pieces bytes).take j).flatMap (·.bytes) ++ rest).drop (offset bytes j) :=
      List.drop_left.symm
    _ = bytes.drop (offset bytes j) := by rw [hsplit]

theorem offset_le_length (bytes : List UInt8) (j : Nat) : offset bytes j ≤ bytes.length := by
  have hsplit : ((pieces bytes).take j).flatMap (·.bytes) ++
      ((pieces bytes).drop j).flatMap (·.bytes) = bytes := by
    rw [← List.flatMap_append, List.take_append_drop, flatMap_bytes_pieces]
  have hlength := congrArg List.length hsplit
  rw [List.length_append] at hlength
  exact Nat.le.intro hlength

/-- Behind the last piece there are no bytes, and one is wanted to see that. -/
theorem reach_of_length_le {j : Nat} (h : (pieces bytes).length ≤ j) :
    reach bytes j = bytes.length + 1 := by
  have hoffset : offset bytes j = bytes.length := by
    rw [offset, List.take_of_length_le h, flatMap_bytes_pieces]
  rw [reach, hoffset, List.drop_length]
  rfl

theorem length_pieces (bytes : List UInt8) : (pieces bytes).length = (decode bytes).length := by
  rw [← map_char_pieces, List.length_map]

/-- To see that there is no further character, the end of the bytes is asked for. -/
theorem length_lt_demand (bytes : List UInt8) :
    bytes.length < demand bytes ((decode bytes).length + 1) := by
  rw [demand, ← length_pieces, reach_of_length_le (Nat.le_refl _)]
  exact Nat.lt_of_lt_of_le (Nat.lt_succ_self _) (Nat.le_max_right _ _)

/-- Nothing is demanded beyond that. -/
theorem demand_of_length_lt {k : Nat} (h : (pieces bytes).length < k) :
    demand bytes k = demand bytes ((pieces bytes).length + 1) := by
  have hend : bytes.length < demand bytes ((pieces bytes).length + 1) := by
    rw [length_pieces]
    exact length_lt_demand bytes
  induction k with
  | zero => exact absurd h (Nat.not_lt_zero _)
  | succ k ih =>
      rcases Nat.eq_or_lt_of_le (Nat.le_of_lt_succ h) with rfl | hlt
      · rfl
      · rw [demand, reach_of_length_le (Nat.le_of_lt hlt), ih hlt, Nat.max_eq_left hend]

/-- The next character demands more than there is if it wants more than is left. -/
theorem length_lt_demand_succ_iff {rest : List UInt8} {k : Nat}
    (h : pieces rest = (pieces bytes).drop k) :
    bytes.length < demand bytes (k + 1) ↔
      bytes.length < demand bytes k ∨ rest.length < wanted rest := by
  have hrest := eq_drop_offset h
  have hlength : rest.length = bytes.length - offset bytes k := by rw [hrest, List.length_drop]
  have hoffset := offset_le_length bytes k
  rw [demand, reach, ← hrest]
  omega

/-! ### Demand from the front -/

theorem piece_append_behind (first : UInt8) (rest : List UInt8) :
    (piece first rest).bytes ++ behind first rest = first :: rest := by
  cases hlead : leading? (first :: rest) with
  | some c =>
      obtain ⟨hsplit, hpiece⟩ := pieces_of_leading? hlead
      rw [hpiece, ← hsplit]
  | none => simp only [piece, behind, hlead, List.singleton_append]

/-- A piece is made of bytes that were wanted for it. -/
theorem length_piece_le (first : UInt8) (rest : List UInt8) :
    (piece first rest).bytes.length ≤ width first := by
  cases hlead : leading? (first :: rest) with
  | some c =>
      have hlength : (piece first rest).bytes.length = c.utf8Size := by
        rw [(pieces_of_leading? hlead).2, String.length_utf8EncodeChar]
      exact Nat.le_of_eq (hlength.trans (width_eq_of_leading? hlead).symm)
  | none =>
      simp only [piece, hlead]
      exact one_le_width first

theorem reach_cons (first : UInt8) (rest : List UInt8) (j : Nat) :
    reach (first :: rest) (j + 1) =
      (piece first rest).bytes.length + reach (behind first rest) j := by
  have hoffset : offset (first :: rest) (j + 1) =
      (piece first rest).bytes.length + offset (behind first rest) j := by
    rw [offset, pieces_cons, List.take_succ_cons, List.flatMap_cons, List.length_append]
    rfl
  have hdrop : (first :: rest).drop (offset (first :: rest) (j + 1)) =
      (behind first rest).drop (offset (behind first rest) j) := by
    rw [hoffset, ← piece_append_behind, List.drop_length_add_append]
  rw [reach, reach, hdrop, hoffset, Nat.add_assoc]

/-- The demand of the first characters is that of the very first one, or that of the others. -/
theorem demand_cons (first : UInt8) (rest : List UInt8) (k : Nat) :
    demand (first :: rest) (k + 1) =
      max (width first) ((piece first rest).bytes.length + demand (behind first rest) k) := by
  induction k with
  | zero =>
      have hreach : reach (first :: rest) 0 = width first := by simp [reach, offset, wanted]
      have hle := length_piece_le first rest
      rw [demand, demand, demand, hreach]
      omega
  | succ k ih =>
      rw [demand, ih, reach_cons, demand]
      omega

/-! ### What the first characters depend on -/

/-- Bytes that agree on what the first of them wants begin with the same piece. -/
theorem leading?_congr {first : UInt8} {xs ys : List UInt8}
    (h : xs.take (width first - 1) = ys.take (width first - 1)) :
    leading? (first :: xs) = leading? (first :: ys) := by
  rw [← char?_take_width, ← char?_take_width, h]

theorem piece_congr {first : UInt8} {xs ys : List UInt8}
    (h : leading? (first :: xs) = leading? (first :: ys)) : piece first xs = piece first ys := by
  rw [piece, piece, h]

/-- Bytes that agree up to some place agree behind a piece in front of that place. -/
theorem take_behind_congr {first : UInt8} {xs ys : List UInt8} {m : Nat}
    (hlead : leading? (first :: xs) = leading? (first :: ys))
    (h : (first :: xs).take ((piece first xs).bytes.length + m) =
      (first :: ys).take ((piece first xs).bytes.length + m)) :
    (behind first xs).take m = (behind first ys).take m := by
  rw [← piece_append_behind first xs, ← piece_append_behind first ys, ← piece_congr hlead,
    List.take_length_add_append, List.take_length_add_append] at h
  exact List.append_cancel_left h

/-- **The first characters of a text depend on the bytes that they demand, and on nothing
else.** -/
theorem take_decode_of_take_demand {xs ys : List UInt8} {k : Nat}
    (h : xs.take (demand xs k) = ys.take (demand xs k)) :
    (decode xs).take k = (decode ys).take k := by
  induction k generalizing xs ys with
  | zero => rw [List.take_zero, List.take_zero]
  | succ k ih =>
      cases xs with
      | nil =>
          -- the end was asked for, so that the other bytes end here too
          have hpos : 0 < demand [] (k + 1) := by
            rw [demand, reach]
            exact Nat.lt_of_lt_of_le (one_le_wanted _)
              (Nat.le_trans (Nat.le_add_left _ _) (Nat.le_max_right _ _))
          obtain rfl : ys = [] := by
            rw [List.take_nil, eq_comm, List.take_eq_nil_iff] at h
            exact h.resolve_left (Nat.ne_of_gt hpos)
          rfl
      | cons first xs =>
          have hwidth : width first ≤ demand (first :: xs) (k + 1) := by
            rw [demand_cons]
            exact Nat.le_max_left _ _
          have hrest : (piece first xs).bytes.length + demand (behind first xs) k ≤
              demand (first :: xs) (k + 1) := by
            rw [demand_cons]
            exact Nat.le_max_right _ _
          have hagree : ∀ m, m ≤ demand (first :: xs) (k + 1) →
              (first :: xs).take m = ys.take m := by
            intro m hm
            have htake := congrArg (List.take m) h
            rwa [List.take_take, List.take_take, Nat.min_eq_left hm] at htake
          have hone : 1 ≤ width first := one_le_width first
          cases ys with
          | nil =>
              have hnil := hagree 1 (Nat.le_trans hone hwidth)
              exact absurd hnil (by simp)
          | cons first' ys =>
              obtain rfl : first = first' := by simpa using hagree 1 (Nat.le_trans hone hwidth)
              have hwant := hagree (width first) hwidth
              rw [← Nat.sub_add_cancel hone, List.take_succ_cons, List.take_succ_cons] at hwant
              have hlead := leading?_congr (List.cons.inj hwant).2
              rw [decode_cons, decode_cons, List.take_succ_cons, List.take_succ_cons, hlead,
                ih (take_behind_congr hlead (hagree _ hrest))]

end Utf8

namespace CharStream

/-! ### What reading a character asks of a source -/

theorem bytes_source_nextByte (s : CharStream) :
    s.nextByte.2.source.bytes = s.source.bytes.drop (1 - s.pending.length) := by
  obtain ⟨pending, source⟩ := s
  cases pending with
  | cons b rest => simp [nextByte]
  | nil => exact (Source.bytes_next source).trans List.drop_one.symm

/-- Bytes are taken from the source where those that were handed back do not suffice. -/
theorem bytes_source_takeBytes (k : Nat) (s : CharStream) :
    (s.takeBytes k).2.source.bytes = s.source.bytes.drop (k - s.pending.length) := by
  induction k generalizing s with
  | zero => rw [Nat.zero_sub]; rfl
  | succ k ih =>
      have hsource := bytes_source_nextByte s
      have hpending := length_pending_nextByte s
      rw [takeBytes]
      split
      · rename_i s' hbyte
        have hnil := (bytes_of_nextByte_none hbyte).1
        rw [bytes, List.append_eq_nil_iff] at hnil
        rw [hbyte] at hsource
        rw [hsource, hnil.2, List.drop_nil, List.drop_nil]
      · rename_i b s' hbyte
        rw [hbyte] at hsource hpending
        have hsum : 1 - s.pending.length + (k - (s.pending.length - 1)) =
            k + 1 - s.pending.length := by omega
        rw [Prod.map_snd, id, ih, hsource, hpending, List.drop_drop, hsum]

theorem isEnded_source_nextByte (s : CharStream) :
    s.nextByte.2.source.isEnded = (s.source.isEnded || decide (s.bytes = [])) := by
  obtain ⟨pending, source⟩ := s
  cases pending with
  | cons b rest => exact (Bool.or_false _).symm
  | nil => exact Source.isEnded_next source

theorem isEnded_source_takeBytes (k : Nat) (s : CharStream) :
    (s.takeBytes k).2.source.isEnded = (s.source.isEnded || decide (s.bytes.length < k)) := by
  induction k generalizing s with
  | zero => exact (Bool.or_false _).symm
  | succ k ih =>
      have hended := isEnded_source_nextByte s
      rw [takeBytes]
      split
      · rename_i s' hbyte
        rw [hbyte, (bytes_of_nextByte_none hbyte).1] at hended
        rw [(bytes_of_nextByte_none hbyte).1]
        simpa using hended
      · rename_i b s' hbyte
        rw [hbyte, bytes_of_nextByte_some hbyte, decide_eq_false (List.cons_ne_nil _ _),
          Bool.or_false] at hended
        rw [Prod.map_snd, id, ih, hended, bytes_of_nextByte_some hbyte, List.length_cons]
        simp only [Nat.add_lt_add_iff_right]

theorem source_nextFrom (first : UInt8) (s : CharStream) :
    (nextFrom first s).2.source = (s.takeBytes (Utf8.width first - 1)).2.source := by
  rw [nextFrom_eq]
  cases Utf8.leading? (first :: s.bytes) <;> rfl

/-- To read a character the source gives as many bytes as are wanted and were not handed back. -/
theorem bytes_source_next (s : CharStream) :
    s.next.2.source.bytes = s.source.bytes.drop (Utf8.wanted s.bytes - s.pending.length) := by
  have hsource := bytes_source_nextByte s
  have hpending := length_pending_nextByte s
  unfold next
  split
  · rename_i s' hbyte
    rw [hbyte] at hsource
    rw [(bytes_of_nextByte_none hbyte).1]
    exact hsource
  · rename_i first s' hbyte
    rw [hbyte] at hsource hpending
    have hone := Utf8.one_le_width first
    have hsum : 1 - s.pending.length + (Utf8.width first - 1 - (s.pending.length - 1)) =
        Utf8.width first - s.pending.length := by omega
    rw [Prod.map_snd, id, source_nextFrom, bytes_source_takeBytes, hsource, hpending,
      List.drop_drop, hsum, bytes_of_nextByte_some hbyte, Utf8.wanted]

/-- The source meets its ending when more bytes are wanted than are left. -/
theorem isEnded_source_next (s : CharStream) :
    s.next.2.source.isEnded =
      (s.source.isEnded || decide (s.bytes.length < Utf8.wanted s.bytes)) := by
  have hended := isEnded_source_nextByte s
  unfold next
  split
  · rename_i s' hbyte
    rw [hbyte, (bytes_of_nextByte_none hbyte).1] at hended
    rw [(bytes_of_nextByte_none hbyte).1]
    exact hended
  · rename_i first s' hbyte
    rw [hbyte, bytes_of_nextByte_some hbyte, decide_eq_false (List.cons_ne_nil _ _),
      Bool.or_false] at hended
    have hone := Utf8.one_le_width first
    have hlt : s'.bytes.length < Utf8.width first - 1 ↔
        (first :: s'.bytes).length < Utf8.wanted (first :: s'.bytes) := by
      rw [List.length_cons, Utf8.wanted]
      omega
    rw [Prod.map_snd, id, source_nextFrom, isEnded_source_takeBytes, hended,
      bytes_of_nextByte_some hbyte]
    simp only [hlt]

/-- This is when the source tells how it ended. -/
theorem fault?_next (s : CharStream) :
    s.next.2.fault? =
      if s.bytes.length < Utf8.wanted s.bytes then s.ending.fault? else s.fault? := by
  have hending : s.next.2.source.ending = s.ending := ending_next s
  rw [fault?, Source.fault?_eq, hending, isEnded_source_next, fault?, Source.fault?_eq, ← ending]
  by_cases hwanted : s.bytes.length < Utf8.wanted s.bytes <;> simp [hwanted]

/-! ### A source that gives what is demanded -/

/-- The source has given what the first `k` characters of `bytes` demand, and has told how it ended
if they demand more than there is. -/
structure Drawn (bytes : List UInt8) (k : Nat) (s : CharStream) : Prop where
  bytes_eq : s.source.bytes = bytes.drop (Utf8.demand bytes k)
  fault?_eq : s.fault? =
    if bytes.length < Utf8.demand bytes k then s.ending.fault? else none

variable {bytes : List UInt8} {k : Nat} {s : CharStream}

theorem drawn_ofScript (events : Script) :
    (ofSource (.ofScript events)).Drawn events.bytes 0 :=
  ⟨rfl, rfl⟩

/-- **Reading one more character** draws what it demands. -/
theorem Drawn.next (h : s.Drawn bytes k)
    (hpieces : Utf8.pieces s.bytes = (Utf8.pieces bytes).drop k) :
    s.next.2.Drawn bytes (k + 1) := by
  constructor
  · have hoffset := Utf8.offset_le_length bytes k
    have hbytes := Utf8.eq_drop_offset hpieces
    have hlength : s.bytes.length = bytes.length - Utf8.offset bytes k := by
      rw [hbytes, List.length_drop]
    have hwanted : Utf8.reach bytes k = Utf8.offset bytes k + Utf8.wanted s.bytes := by
      rw [Utf8.reach, ← hbytes]
    have hpending : s.pending.length + (bytes.length - Utf8.demand bytes k) = s.bytes.length := by
      rw [CharStream.bytes, List.length_append, h.bytes_eq, List.length_drop]
    rw [bytes_source_next, h.bytes_eq, List.drop_drop, Utf8.demand]
    rcases Nat.lt_or_ge bytes.length (Utf8.demand bytes k) with hover | hwithin
    · -- nothing was left before
      rw [List.drop_of_length_le (by omega), List.drop_of_length_le (by omega)]
    · have hsum : Utf8.demand bytes k + (Utf8.wanted s.bytes - s.pending.length) =
          max (Utf8.demand bytes k) (Utf8.reach bytes k) := by omega
      rw [hsum]
  · rw [CharStream.fault?_next, h.fault?_eq, ending_next]
    simp only [Utf8.length_lt_demand_succ_iff hpieces]
    by_cases hwanted : s.bytes.length < Utf8.wanted s.bytes <;> simp [hwanted]

/-- The source has given what the first `k` characters of `bytes` demand, and has met its ending if
they demand more than there is, and not before. -/
structure Asked (bytes : List UInt8) (k : Nat) (s : CharStream) : Prop where
  drawn : s.Drawn bytes k
  isEnded_eq : s.source.isEnded = decide (bytes.length < Utf8.demand bytes k)

theorem asked_ofScript (events : Script) :
    (ofSource (.ofScript events)).Asked events.bytes 0 :=
  ⟨drawn_ofScript events, rfl⟩

theorem Asked.next (h : s.Asked bytes k)
    (hpieces : Utf8.pieces s.bytes = (Utf8.pieces bytes).drop k) :
    s.next.2.Asked bytes (k + 1) := by
  refine ⟨h.drawn.next hpieces, ?_⟩
  rw [isEnded_source_next, h.isEnded_eq, ← Bool.decide_or]
  simp only [Utf8.length_lt_demand_succ_iff hpieces]

end CharStream

namespace Caret

variable {c : Caret} {i : Nat}

/-! ### Which operation reads a character -/

/-- What was looked at is current after a move, and nothing has been looked at behind it. -/
theorem ahead_advance (c : Caret) : c.advance.ahead = none := by
  cases ha : c.ahead <;> simp [advance, ha]

section

variable {P : Nat → CharStream → Prop} {ps : List Utf8.Piece}

/-- A move reads the next character unless that was looked at before. -/
theorem Reads.advance_input
    (hP : ∀ {k s}, P k s → Utf8.pieces s.bytes = ps.drop k → P (k + 1) s.next.2)
    (h : c.Reads ps i) (hinput : P (i + 1 + c.ahead.toList.length) c.input) :
    P (i + 1 + 1 + c.advance.ahead.toList.length) c.advance.input := by
  have hpieces := h.pieces_eq
  cases ha : c.ahead with
  | some char? =>
      rw [ha] at hinput
      simp only [Caret.advance, ha, input_nextColumn]
      exact hinput
  | none =>
      rw [ha] at hpieces hinput
      simp only [Caret.advance, ha, ahead_read, ahead_nextColumn, input_read, input_nextColumn]
      exact hP hinput hpieces

/-- A first look reads the next character. -/
theorem Reads.lookAhead_input
    (hP : ∀ {k s}, P k s → Utf8.pieces s.bytes = ps.drop k → P (k + 1) s.next.2)
    (h : c.Reads ps i) (hinput : P (i + 1 + c.ahead.toList.length) c.input) :
    P (i + 1 + c.lookAhead.2.ahead.toList.length) c.lookAhead.2.input := by
  have hpieces := h.pieces_eq
  cases ha : c.ahead with
  | some char? =>
      simpa only [Caret.lookAhead, ha] using hinput
  | none =>
      rw [ha] at hpieces hinput
      simp only [Caret.lookAhead, ha, input_read]
      exact hP hinput hpieces

end

/-! ### What a caret has drawn -/

/-- The caret stands on the piece with the index `i`, and its source has given what the characters
read so far demand. -/
structure Draws (bytes : List UInt8) (i : Nat) (c : Caret) : Prop where
  reads : c.Reads (Utf8.pieces bytes) i
  drawn : c.input.Drawn bytes (i + 1 + c.ahead.toList.length)

variable {bytes : List UInt8}

theorem draws_ofScript (events : Script) :
    (ofSource (.ofScript events)).Draws events.bytes 0 :=
  ⟨reads_ofSource (.ofScript events), (CharStream.drawn_ofScript events).next rfl⟩

theorem Draws.advance (h : c.Draws bytes i) : c.advance.Draws bytes (i + 1) :=
  ⟨h.reads.advance, h.reads.advance_input CharStream.Drawn.next h.drawn⟩

theorem Draws.lookAhead (h : c.Draws bytes i) : c.lookAhead.2.Draws bytes i :=
  ⟨h.reads.lookAhead.2, h.reads.lookAhead_input CharStream.Drawn.next h.drawn⟩

/-- **No operation draws more than the characters demand.** -/
theorem preserved_draws (bytes : List UInt8) : Preserved (fun c => ∃ i, c.Draws bytes i) where
  advance := fun ⟨i, h⟩ => ⟨i + 1, h.advance⟩
  lookAhead := fun ⟨i, h⟩ => ⟨i, h.lookAhead⟩
  breakLine := fun ⟨i, h⟩ => ⟨i, h.reads.apply .breakLine, h.drawn⟩
  takeFault {c} := fun ⟨i, h⟩ => by
    refine ⟨i, h.reads.apply .takeFault, ?_⟩
    have hdrawn := h.drawn
    rwa [takeFault_eq]

end Caret

end TokenStream
