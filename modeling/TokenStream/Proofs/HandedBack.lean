/-
The bytes that are handed back.

Bytes that were collected for a character in vain go back in front of all others, perhaps in front
of some that were handed back before.  Their order is kept, since what is handed back is what was
just taken, and there are **never more than three** of them: a character wants at most four bytes,
its first byte is never handed back, and while more bytes wait than are wanted, those that go back
came from there.  So the bytes that wait and those that are left in the source are at all times **the
last ones of the bytes of the source**, and a character takes off its encoding, or the one byte that
it replaces.

For the same reason four cells are enough to collect a character in.  `CharStream.nextInBuffer` reads
a character through a buffer of four cells, gives up where a cell is asked for that does not exist,
and never does.

* `Utf8.ReadOff` — a character in front of what it leaves;
* `CharStream.length_pending_next_le`, `CharStream.next_eq_none_iff`, `CharStream.readOff_next` —
  **one character**;
* `CharStream.Kept`, `CharStream.Kept.next` — what reading preserves;
* `Buffer`, `Buffer.Holds`, `CharStream.fill_eq`, `CharStream.nextInBuffer_eq` — **four cells are
  enough**;
* `Script.Feeds`, `Script.stream_is_suffix` — the streams of a caret, in each of its states.
-/

import TokenStream.Proofs.Calls
import TokenStream.Proofs.Mark

set_option relaxedAutoImplicit false
set_option autoImplicit false

namespace TokenStream

namespace Utf8

/-- The character `c` is read off the front of the first bytes, and the second ones are left: a
well-formed encoding of it stood there, or it replaces one byte at which none starts. -/
inductive ReadOff (c : Char) : List UInt8 → List UInt8 → Prop
  | encoded {enc rest : List UInt8} (henc : WellFormed enc c.toNat) : ReadOff c (enc ++ rest) rest
  | replaced {first : UInt8} {rest : List UInt8} (hc : c = replacement)
      (hnone : ∀ n enc, WellFormed enc n → ¬ enc <+: first :: rest) : ReadOff c (first :: rest) rest

theorem ReadOff.suffix {c : Char} {bytes rest : List UInt8} (h : ReadOff c bytes rest) :
    rest <:+ bytes := by
  cases h with
  | encoded henc => exact List.suffix_append _ _
  | replaced hc hnone => exact List.suffix_cons _ _

theorem readOff_behind (first : UInt8) (rest : List UInt8) :
    ReadOff ((leading? (first :: rest)).getD replacement) (first :: rest) (behind first rest) := by
  cases hlead : leading? (first :: rest) with
  | some c =>
      rw [(pieces_of_leading? hlead).1]
      exact .encoded (wellFormed_utf8EncodeChar c)
  | none =>
      have hbehind : behind first rest = rest := by simp only [behind, hlead]
      rw [hbehind]
      exact .replaced rfl (leading?_eq_none_iff_wellFormed.1 hlead)

theorem width_le_four (first : UInt8) : width first ≤ 4 := by
  fun_cases width first <;> decide

end Utf8

namespace CharStream

variable {s : CharStream} {bytes : List UInt8}

/-! ### What a character takes off -/

theorem next_eq_none_iff (s : CharStream) : s.next.1 = none ↔ s.bytes = [] := by
  constructor
  · intro h
    exact (bytes_of_next_none (Prod.ext h rfl)).1
  · intro h
    rw [fst_next, h, Utf8.decode_nil, List.head?_nil]

/-- **A character takes off its encoding, or the byte that it replaces.** -/
theorem readOff_next {c : Char} (h : s.next.1 = some c) :
    Utf8.ReadOff c s.bytes s.next.2.bytes := by
  rcases hbyte : s.nextByte with ⟨first?, s'⟩
  cases first? with
  | none => simp [next, hbyte] at h
  | some first =>
      have hnext : s.next = (nextFrom first s').map some id := by rw [next, hbyte]
      rw [hnext] at h ⊢
      obtain rfl : (nextFrom first s').1 = c := Option.some.inj h
      rw [bytes_of_nextByte_some hbyte, fst_nextFrom]
      exact (bytes_nextFrom first s') ▸ Utf8.readOff_behind first s'.bytes

theorem suffix_next (s : CharStream) : s.next.2.bytes <:+ s.bytes := by
  cases hnext : s.next.1 with
  | none =>
      rw [(bytes_of_next_none (Prod.ext hnext rfl)).2]
      exact List.nil_suffix
  | some c => exact (readOff_next hnext).suffix

/-! ### How many bytes wait -/

theorem pending_takeBytes (k : Nat) (s : CharStream) :
    (s.takeBytes k).2.pending = s.pending.drop k := by
  induction k generalizing s with
  | zero => rfl
  | succ k ih =>
      have hpending := pending_nextByte s
      rw [takeBytes]
      split
      · rename_i s' hbyte
        have hnil := (bytes_of_nextByte_none hbyte).1
        rw [bytes, List.append_eq_nil_iff] at hnil
        rw [hbyte] at hpending
        rw [hpending, hnil.1, List.tail_nil, List.drop_nil]
      · rename_i b s' hbyte
        rw [hbyte] at hpending
        rw [Prod.map_snd, id, ih, hpending, List.drop_tail]

/-- What goes back was collected, or was waiting before. -/
theorem length_pending_nextFrom_le (first : UInt8) (s : CharStream) :
    (nextFrom first s).2.pending.length ≤ max (Utf8.width first - 1) s.pending.length := by
  have htaken := fst_takeBytes (Utf8.width first - 1) s
  have hpending := pending_takeBytes (Utf8.width first - 1) s
  rcases htake : s.takeBytes (Utf8.width first - 1) with ⟨more, s'⟩
  simp only [htake] at htaken hpending
  rw [nextFrom_eq, htake]
  cases Utf8.leading? (first :: s.bytes) with
  | some c =>
      have hlength : s'.pending.length = s.pending.length - (Utf8.width first - 1) := by
        rw [hpending, List.length_drop]
      show s'.pending.length ≤ _
      omega
  | none =>
      have hmore : more.length ≤ Utf8.width first - 1 := by
        rw [htaken]
        exact List.length_take_le _ _
      have hlength : (s'.handBack more).pending.length =
          more.length + (s.pending.length - (Utf8.width first - 1)) := by
        rw [handBack, List.length_append, hpending, List.length_drop]
      show (s'.handBack more).pending.length ≤ _
      omega

/-- **Three bytes wait at most**, or as many as before. -/
theorem length_pending_next_le (s : CharStream) :
    s.next.2.pending.length ≤ max 3 s.pending.length := by
  have hpending := length_pending_nextByte s
  rcases hbyte : s.nextByte with ⟨first?, s'⟩
  simp only [hbyte] at hpending
  cases first? with
  | none =>
      simp only [next, hbyte]
      omega
  | some first =>
      have hwidth := Utf8.width_le_four first
      have hfrom := length_pending_nextFrom_le first s'
      simp only [next, hbyte, Prod.map_snd, id]
      omega

/-! ### What reading preserves -/

/-- Three bytes wait at most, and the bytes to come are the last ones of the given bytes. -/
structure Kept (bytes : List UInt8) (s : CharStream) : Prop where
  length_pending_le : s.pending.length ≤ 3
  suffix : s.bytes <:+ bytes

theorem kept_ofScript (events : Script) : (ofSource (.ofScript events)).Kept events.bytes :=
  ⟨Nat.zero_le 3, List.suffix_refl _⟩

theorem Kept.next (h : s.Kept bytes) : s.next.2.Kept bytes := by
  refine ⟨?_, (suffix_next s).trans h.suffix⟩
  have hle := length_pending_next_le s
  rwa [Nat.max_eq_left h.length_pending_le] at hle

end CharStream

/-! ### A buffer of four cells -/

/-- Four cells, of which the first ones are filled. -/
structure Buffer where
  cells : Vector UInt8 4
  filled : Nat
  deriving DecidableEq, Repr

namespace Buffer

/-- A buffer that holds one byte. -/
def ofFirst (first : UInt8) : Buffer := ⟨#v[first, 0, 0, 0], 1⟩

/-- Fills the next cell; there may be none. -/
def push? (b : Buffer) (byte : UInt8) : Option Buffer :=
  if h : b.filled < 4 then some ⟨b.cells.set b.filled byte h, b.filled + 1⟩ else none

/-- The filled cells from `start` on; there may be fewer cells than that. -/
def slice? (b : Buffer) (start : Nat) : Option (List UInt8) :=
  if start ≤ b.filled ∧ b.filled ≤ 4 then some ((b.cells.toList.take b.filled).drop start)
  else none

theorem filled_of_push? {b b' : Buffer} {byte : UInt8} (h : b.push? byte = some b') :
    b'.filled = b.filled + 1 := by
  rw [push?] at h
  split at h
  · obtain rfl := Option.some.inj h
    rfl
  · exact nomatch h

/-- The filled cells hold these bytes. -/
structure Holds (b : Buffer) (bytes : List UInt8) : Prop where
  filled_eq : b.filled = bytes.length
  take_eq : b.cells.toList.take b.filled = bytes

variable {b : Buffer} {bytes : List UInt8}

theorem holds_ofFirst (first : UInt8) : (ofFirst first).Holds [first] := ⟨rfl, rfl⟩

theorem Holds.length_le (h : b.Holds bytes) : bytes.length ≤ 4 := by
  rw [← h.take_eq, List.length_take, Vector.length_toList]
  exact Nat.min_le_right _ _

/-- **While fewer than four cells are filled there is a next one.** -/
theorem Holds.push? (h : b.Holds bytes) (byte : UInt8) (hlt : bytes.length < 4) :
    ∃ b', b.push? byte = some b' ∧ b'.Holds (bytes ++ [byte]) := by
  have hfilled : b.filled < 4 := h.filled_eq ▸ hlt
  refine ⟨_, dif_pos hfilled, ?_, ?_⟩
  · rw [List.length_append, List.length_singleton, ← h.filled_eq]
  · have hcells : b.filled < b.cells.toList.length := by rwa [Vector.length_toList]
    rw [Vector.toList_set, List.take_succ_eq_append_getElem (by simpa using hcells),
      List.take_set_of_le (Nat.le_refl _), h.take_eq, List.getElem_set_self]

/-- The filled cells are there. -/
theorem Holds.slice? (h : b.Holds bytes) {start : Nat} (hstart : start ≤ bytes.length) :
    b.slice? start = some (bytes.drop start) := by
  have hlength := h.length_le
  rw [Buffer.slice?, if_pos (h.filled_eq ▸ ⟨hstart, hlength⟩), h.take_eq]

end Buffer

namespace CharStream

/-- Collects bytes until `width` cells are filled or the source ends. -/
def fill (width : Nat) (b : Buffer) (s : CharStream) : Option (Buffer × CharStream) :=
  if b.filled < width then
    match s.nextByte with
    | (none, s') => some (b, s')
    | (some byte, s') =>
        match _ : b.push? byte with
        | none => none
        | some b' => fill width b' s'
  else some (b, s)
termination_by width - b.filled
decreasing_by
  have hfilled := Buffer.filled_of_push? ‹_›
  omega

/-- The character at the front when `first` has just been taken, read through a buffer. -/
def nextFromInBuffer (first : UInt8) (s : CharStream) : Option (Char × CharStream) := do
  let (b, s') ← fill (Utf8.width first) (.ofFirst first) s
  let collected ← b.slice? 0
  match Utf8.char? collected with
  | some c => return (c, s')
  | none =>
      let more ← b.slice? 1
      return (Utf8.replacement, s'.handBack more)

/-- The next character, read through a buffer of four cells: gives up where a cell is asked for that
does not exist. -/
def nextInBuffer (s : CharStream) : Option (Option Char × CharStream) :=
  match s.nextByte with
  | (none, s') => some (none, s')
  | (some first, s') => (nextFromInBuffer first s').map (·.map some id)

/-- Collecting in the buffer is taking bytes, as long as four cells are wanted at most. -/
theorem fill_eq {width : Nat} {b : Buffer} {held : List UInt8} (hwidth : width ≤ 4)
    (h : b.Holds held) (s : CharStream) :
    ∃ b', fill width b s = some (b', (s.takeBytes (width - held.length)).2) ∧
      b'.Holds (held ++ (s.takeBytes (width - held.length)).1) := by
  have hfilled := h.filled_eq
  fun_induction fill width b s generalizing held with
  | case1 b s hlt s' hbyte =>
      -- the source has ended
      obtain ⟨k, hk⟩ : ∃ k, width - held.length = k + 1 := ⟨width - held.length - 1, by omega⟩
      rw [hk, takeBytes, hbyte]
      exact ⟨b, rfl, by rwa [List.append_nil]⟩
  | case2 b s hlt byte s' hbyte hpush =>
      -- there is a next cell
      obtain ⟨b', hpush', -⟩ := h.push? byte (by omega)
      rw [hpush'] at hpush
      cases hpush
  | case3 b s hlt byte s' hbyte b' hpush ih =>
      obtain ⟨b'', hpush', hholds⟩ := h.push? byte (by omega)
      obtain rfl : b'' = b' := Option.some.inj (hpush'.symm.trans hpush)
      obtain ⟨k, hk⟩ : ∃ k, width - held.length = k + 1 := ⟨width - held.length - 1, by omega⟩
      have hk' : width - (held ++ [byte]).length = k := by
        rw [List.length_append, List.length_singleton]
        omega
      have hrest := ih hholds hholds.filled_eq
      rw [hk', List.append_assoc, List.singleton_append] at hrest
      rw [hk, takeBytes, hbyte]
      exact hrest
  | case4 b s hge =>
      have hk : width - held.length = 0 := by omega
      rw [hk]
      exact ⟨b, rfl, by rwa [takeBytes, List.append_nil]⟩

theorem nextFromInBuffer_eq (first : UInt8) (s : CharStream) :
    nextFromInBuffer first s = some (nextFrom first s) := by
  obtain ⟨b, hfill, hholds⟩ :=
    fill_eq (Utf8.width_le_four first) (Buffer.holds_ofFirst first) s
  rcases htake : s.takeBytes (Utf8.width first - 1) with ⟨more, s'⟩
  rw [List.length_singleton, htake] at hfill hholds
  have hall : b.slice? 0 = some (first :: more) := hholds.slice? (Nat.zero_le _)
  have hmore : b.slice? 1 = some more := hholds.slice? (Nat.le_add_left _ _)
  rw [nextFromInBuffer, nextFrom, hfill, htake]
  simp only [Option.bind_eq_bind, Option.bind_some, hall, hmore]
  cases Utf8.char? (first :: more) <;> rfl

/-- **Four cells are enough**: reading through the buffer never gives up, and reads what is read
without one. -/
theorem nextInBuffer_eq (s : CharStream) : s.nextInBuffer = some s.next := by
  rcases hbyte : s.nextByte with ⟨first?, s'⟩
  rw [nextInBuffer, next, hbyte]
  cases first? with
  | none => rfl
  | some first => exact congrArg (Option.map _) (nextFromInBuffer_eq first s')

end CharStream

/-! ### The streams of a caret -/

namespace Script

/-- The streams that a caret over a script reads from: before it reads its first character, and in
every state that operations lead to. -/
inductive Feeds (events : Script) : CharStream → Prop
  | unread : events.Feeds (.ofSource (.ofScript events))
  | reached (ops : List Caret.Op) :
      events.Feeds ((Caret.ofSource (.ofScript events)).after ops).input

theorem Feeds.kept {events : Script} {s : CharStream} (h : events.Feeds s) :
    s.Kept events.bytes := by
  cases h with
  | unread => exact CharStream.kept_ofScript events
  | reached ops =>
      have hfirst : (Caret.ofSource (.ofScript events)).input.Kept events.bytes :=
        (CharStream.kept_ofScript events).next
      have hkept : Caret.Preserved (fun c => c.input.Kept events.bytes) :=
        Caret.preserved_input (R := CharStream.Kept events.bytes) fun _ => .next
      exact hkept.after hfirst ops

/-- **What a caret has still to decode is a suffix of the bytes of its source.**  At most three of
these bytes wait in front of the source.  A character that is read takes off a well-formed encoding
of it, or one byte at which none starts and which it replaces; none is read only where nothing is
left.  A buffer of four cells is enough to read it. -/
theorem stream_is_suffix (events : Script) {s : CharStream} (h : events.Feeds s) :
    s.pending.length ≤ 3 ∧ s.pending ++ s.source.bytes <:+ events.bytes ∧
      (s.next.1 = none ↔ s.pending ++ s.source.bytes = []) ∧
      (∀ c, s.next.1 = some c →
        Utf8.ReadOff c (s.pending ++ s.source.bytes)
          (s.next.2.pending ++ s.next.2.source.bytes)) ∧
      s.nextInBuffer = some s.next :=
  ⟨h.kept.length_pending_le, h.kept.suffix, s.next_eq_none_iff, fun _ => CharStream.readOff_next,
    s.nextInBuffer_eq⟩

/-- Three bytes are handed back, of which the first takes the second one once more; the other two
begin a character that ends in the next delivery. -/
theorem stream_is_suffix_of_overlapping :
    let events : Script := [.bytes [0xf0, 0xc3, 0xf0, 0x9f], .fault (.ofKind .interrupted),
      .bytes [0x98, 0x80], .fault (.ofKind .timedOut), .bytes [0x61]]
    let s : List Caret.Op → CharStream := fun ops =>
      ((Caret.ofSource (.ofScript events)).after ops).input
    ((s []).pending = [0xc3, 0xf0, 0x9f] ∧
      Utf8.ReadOff Utf8.replacement [0xc3, 0xf0, 0x9f, 0x98, 0x80] [0xf0, 0x9f, 0x98, 0x80]) ∧
    ((s [.advance]).pending = [0xf0, 0x9f] ∧ (s [.advance]).source.bytes = [0x98, 0x80] ∧
      [0xf0, 0x9f] ++ [0x98, 0x80] <:+ events.bytes ∧
      Utf8.ReadOff (.ofNat 0x1f600) [0xf0, 0x9f, 0x98, 0x80] []) ∧
    (s [.advance, .advance]).next.1 = none := by
  intro events s
  obtain ⟨-, -, -, hfirst, -⟩ := stream_is_suffix events (.reached [])
  obtain ⟨-, hsuffix, -, hsecond, -⟩ := stream_is_suffix events (.reached [.advance])
  obtain ⟨-, -, hend, -, -⟩ := stream_is_suffix events (.reached [.advance, .advance])
  refine ⟨⟨by decide +kernel, ?_⟩, ⟨by decide +kernel, by decide +kernel, ?_, ?_⟩, ?_⟩
  · exact hfirst _ (by decide +kernel)
  · exact hsuffix
  · exact hsecond _ (by decide +kernel)
  · exact hend.2 (by decide +kernel)

end Script

end TokenStream
