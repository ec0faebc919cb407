/-
Characters read from a source, one at a time.

A character stream decodes a byte source as it goes.  To find the next character it takes one byte,
learns from it how many bytes to collect, collects them (or as many as the source still has) and
only then looks whether they are an encoding.  If they are not, the first byte alone is replaced and
**the others are handed back**: they wait in front of the source and will be decoded again, each
with its own chance to begin a character.

What is still to be decoded is `CharStream.bytes`, the bytes handed back followed by those of the
source.  Each step that produces a character takes a non-empty piece from its front.

* `CharStream` — a source with the bytes handed back;
* `CharStream.nextByte`, `CharStream.takeBytes`, `CharStream.handBack` — bytes in and out;
* `CharStream.next` — the next character;
* `CharStream.length_bytes_of_next_some`, `CharStream.bytes_of_next_none` — a character costs at
  least one byte, and there is none only when no byte is left.
-/

import TokenStream.Source
import TokenStream.Utf8

set_option relaxedAutoImplicit false
set_option autoImplicit false

namespace TokenStream

/-- A source that is read as characters. -/
structure CharStream where
  /-- Bytes that were collected for a malformed sequence and handed back, in their order. -/
  pending : List UInt8
  source : Source
  deriving DecidableEq, Repr

namespace CharStream

/-- Nothing has been read from the source yet. -/
def ofSource (source : Source) : CharStream := ⟨[], source⟩

/-- The bytes that are still to be decoded. -/
def bytes (s : CharStream) : List UInt8 := s.pending ++ s.source.bytes

/-! ### Bytes -/

/-- The next byte: one that was handed back, or else one of the source. -/
def nextByte (s : CharStream) : Option UInt8 × CharStream :=
  match s.pending with
  | b :: rest => (some b, { s with pending := rest })
  | [] => s.source.next.map id (CharStream.mk [])

/-- The next `k` bytes, or fewer where the source ends. -/
def takeBytes : Nat → CharStream → List UInt8 × CharStream
  | 0, s => ([], s)
  | k + 1, s =>
      match s.nextByte with
      | (none, s') => ([], s')
      | (some b, s') => (s'.takeBytes k).map (b :: ·) id

/-- Puts bytes back in front of all others. -/
def handBack (s : CharStream) (bytes : List UInt8) : CharStream :=
  { s with pending := bytes ++ s.pending }

/-! ### Characters -/

/-- The character at the front when `first` has just been taken. -/
def nextFrom (first : UInt8) (s : CharStream) : Char × CharStream :=
  match s.takeBytes (Utf8.width first - 1) with
  | (more, s') =>
      match Utf8.char? (first :: more) with
      | some c => (c, s')
      | none => (Utf8.replacement, s'.handBack more)

/-- The next character, or `none` at the end. -/
def next (s : CharStream) : Option Char × CharStream :=
  match s.nextByte with
  | (none, s') => (none, s')
  | (some first, s') => (nextFrom first s').map some id

/-! ### The bytes to come -/

theorem bytes_of_nextByte_some {s s' : CharStream} {b : UInt8} (h : s.nextByte = (some b, s')) :
    s.bytes = b :: s'.bytes := by
  obtain ⟨pending, source⟩ := s
  cases pending with
  | cons c rest =>
      simp only [nextByte, Prod.mk.injEq, Option.some.injEq] at h
      obtain ⟨rfl, rfl⟩ := h
      rfl
  | nil =>
      simp only [nextByte, Prod.ext_iff, Prod.map_fst, Prod.map_snd, id] at h
      obtain ⟨hb, rfl⟩ := h
      simpa [bytes] using Source.bytes_of_next_some (Prod.ext hb rfl)

theorem bytes_of_nextByte_none {s s' : CharStream} (h : s.nextByte = (none, s')) :
    s.bytes = [] ∧ s'.bytes = [] := by
  obtain ⟨pending, source⟩ := s
  cases pending with
  | cons c rest => simp [nextByte] at h
  | nil =>
      simp only [nextByte, Prod.ext_iff, Prod.map_fst, Prod.map_snd, id] at h
      obtain ⟨hb, rfl⟩ := h
      simpa [bytes] using Source.bytes_of_next_none (Prod.ext hb rfl)

/-- Taking bytes splits the bytes to come. -/
theorem takeBytes_append_bytes (k : Nat) (s : CharStream) :
    (s.takeBytes k).1 ++ (s.takeBytes k).2.bytes = s.bytes := by
  induction k generalizing s with
  | zero => rfl
  | succ k ih =>
      rw [takeBytes]
      split
      · rename_i s' h
        simp [bytes_of_nextByte_none h]
      · rename_i b s' h
        rw [bytes_of_nextByte_some h, ← ih s']
        rfl

@[simp] theorem bytes_handBack (s : CharStream) (bs : List UInt8) :
    (s.handBack bs).bytes = bs ++ s.bytes := by
  simp [handBack, bytes]

theorem length_bytes_nextFrom_le (first : UInt8) (s : CharStream) :
    (nextFrom first s).2.bytes.length ≤ s.bytes.length := by
  have h := congrArg List.length (takeBytes_append_bytes (Utf8.width first - 1) s)
  rw [List.length_append] at h
  rw [nextFrom]
  split
  rename_i more s' ht
  simp only [ht] at h
  split <;> simp <;> omega

/-- A character costs at least one byte. -/
theorem length_bytes_of_next_some {s s' : CharStream} {c : Char} (h : s.next = (some c, s')) :
    s'.bytes.length < s.bytes.length := by
  unfold next at h
  split at h
  · simp at h
  · rename_i first t ht
    rw [bytes_of_nextByte_some ht, ← (Prod.mk.inj h).2, List.length_cons]
    exact Nat.lt_succ_of_le (length_bytes_nextFrom_le first t)

/-- There is no character only when no byte is left. -/
theorem bytes_of_next_none {s s' : CharStream} (h : s.next = (none, s')) :
    s.bytes = [] ∧ s'.bytes = [] := by
  unfold next at h
  split at h
  · rename_i t ht
    simp only [Prod.mk.injEq, true_and] at h
    exact h ▸ bytes_of_nextByte_none ht
  · exact nomatch (Prod.mk.inj h).1

end CharStream

end TokenStream
