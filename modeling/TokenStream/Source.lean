/-
Byte sources that are read piece by piece.

A source is played from a *script* of read events: a read delivers some bytes, finds the end of the
input, or fails with a fault.  Bytes are handed out one at a time from a buffer, and a read happens
**only when a byte is asked for and the buffer is empty**; one read moves at most
`Source.capacity` bytes into it, and what is left of a longer delivery waits for the next read.  The
first end of input (an empty delivery is one, and so is the end of the script) and the first fault
that is not an interruption end the source for good: from then on no read happens, and whatever the
script still holds is forgotten.

The number of reads is observable, so `Source.reads` counts every one of them, interrupted and
failing ones included.  Everything else that a consumer can learn depends only on two views of the
source: the bytes that it will still deliver, `Source.bytes`, and how it will end,
`Source.ending`.

* `ReadEvent`, `Script`, `Ending`, `Supply`, `Source` — scripts and the state of reading one, with
  `ReadEvent.ends`;
* `Script.bytes`, `Script.ending` — what a script delivers, and how it ends;
* `Source.ofBytes`, `Source.ofScript` — fresh sources;
* `Source.next` — the next byte, reading when it has to;
* `Source.bytes`, `Source.ending` — what is still to come; `Source.isEnded`, `Source.fault?` —
  whether the ending has been met, and the fault in it;
* `Source.bytes_of_next_some`, `Source.bytes_of_next_none` — `next` hands out the first of the bytes
  to come and fails to do so only when there are none.
-/

import TokenStream.Fault

set_option relaxedAutoImplicit false
set_option autoImplicit false

namespace TokenStream

/-- What one read can meet. -/
inductive ReadEvent where
  | bytes (delivered : List UInt8)
  | endOfInput
  | fault (cause : Fault)
  deriving DecidableEq, Repr

/-- Whether a read that meets this ends its source. -/
def ReadEvent.ends : ReadEvent → Bool
  | bytes delivered => delivered.isEmpty
  | endOfInput => true
  | fault cause => !cause.isInterrupted

/-- How a source ends: cleanly, or with a fault. -/
inductive Ending where
  | clean
  | failed (cause : Fault)
  deriving DecidableEq, Repr

/-- The reads of a source in the order in which they happen. -/
abbrev Script := List ReadEvent

/-- Where further bytes come from: a script that is still to be played, or nowhere. -/
inductive Supply where
  | script (events : Script)
  | ended (ending : Ending)
  deriving DecidableEq, Repr

/-- A source in the middle of being read. -/
structure Source where
  /-- Bytes of the last read that have not been handed out. -/
  buffer : List UInt8
  supply : Supply
  /-- How many reads have been made. -/
  reads : Nat
  deriving DecidableEq, Repr

/-! ### What a script delivers -/

/-- The bytes that a script delivers before it ends. -/
def Script.bytes : Script → List UInt8
  | [] => []
  | .bytes [] :: _ => []
  | .bytes (b :: bs) :: events => b :: bs ++ Script.bytes events
  | .endOfInput :: _ => []
  | .fault cause :: events => if cause.isInterrupted then Script.bytes events else []

/-- How a script ends. -/
def Script.ending : Script → Ending
  | [] => .clean
  | .bytes [] :: _ => .clean
  | .bytes (_ :: _) :: events => Script.ending events
  | .endOfInput :: _ => .clean
  | .fault cause :: events => if cause.isInterrupted then Script.ending events else .failed cause

namespace Supply

/-- The bytes that the supply will still deliver. -/
def bytes : Supply → List UInt8
  | script events => events.bytes
  | ended _ => []

/-- How the supply will end, or has ended. -/
def ending : Supply → Ending
  | script events => events.ending
  | ended ending => ending

end Supply

namespace Source

/-- The most bytes that one read moves into the buffer. -/
def capacity : Nat := 8192

/-- A source that plays a script. -/
def ofScript (events : Script) : Source := ⟨[], .script events, 0⟩

/-- A source that delivers the given bytes and then ends cleanly. -/
def ofBytes (bytes : List UInt8) : Source := ofScript [.bytes bytes]

/-- The bytes that have not been handed out yet. -/
def bytes (s : Source) : List UInt8 := s.buffer ++ s.supply.bytes

/-- How the source will end, or has ended. -/
def ending (s : Source) : Ending := s.supply.ending

/-- Whether a read has met the end of the input, or a fault. -/
def isEnded (s : Source) : Bool :=
  match s.supply with
  | .script _ => false
  | .ended _ => true

/-- The fault that ended the source, once it has been met. -/
def fault? (s : Source) : Option Fault :=
  match s.supply with
  | .ended (.failed cause) => some cause
  | _ => none

/-! ### Reading -/

/-- Puts what does not fit into the buffer back in front of the script. -/
def leftOver (bytes : List UInt8) (events : Script) : Script :=
  match bytes.drop capacity with
  | [] => events
  | rest => .bytes rest :: events

/-- Reads from a script until a read delivers bytes or ends the source, where `reads` counts the
reads made before. -/
def refill (reads : Nat) : Script → Source
  | [] => ⟨[], .ended .clean, reads + 1⟩
  | .bytes [] :: _ => ⟨[], .ended .clean, reads + 1⟩
  | .bytes (b :: bs) :: events =>
      ⟨(b :: bs).take capacity, .script (leftOver (b :: bs) events), reads + 1⟩
  | .endOfInput :: _ => ⟨[], .ended .clean, reads + 1⟩
  | .fault cause :: events =>
      if cause.isInterrupted then refill (reads + 1) events
      else ⟨[], .ended (.failed cause), reads + 1⟩

/-- Reads only if the buffer is empty and the source has not ended. -/
def filled (s : Source) : Source :=
  match s.buffer, s.supply with
  | [], .script events => refill s.reads events
  | _, _ => s

/-- The next byte, or `none` at the end. -/
def next (s : Source) : Option UInt8 × Source :=
  match s.filled with
  | ⟨b :: rest, supply, reads⟩ => (some b, ⟨rest, supply, reads⟩)
  | ended => (none, ended)

/-! ### The bytes to come -/

theorem bytes_leftOver (bs : List UInt8) (events : Script) :
    Script.bytes (leftOver bs events) = bs.drop capacity ++ Script.bytes events := by
  unfold leftOver
  split
  · rename_i h
    simp [h]
  · rename_i rest hne
    cases h : bs.drop capacity with
    | nil => exact absurd h hne
    | cons b bs' => simp [Script.bytes]

@[simp] theorem bytes_refill (reads : Nat) (events : Script) :
    (refill reads events).bytes = Script.bytes events := by
  fun_induction refill reads events with
  | case1 => rfl
  | case2 => rfl
  | case3 reads b bs events =>
      simp only [bytes, Supply.bytes, bytes_leftOver, Script.bytes]
      rw [← List.append_assoc, List.take_append_drop]
  | case4 => rfl
  | case5 reads cause events h ih => simp [Script.bytes, h, ih]
  | case6 reads cause events h => simp [Script.bytes, h, bytes, Supply.bytes]

@[simp] theorem bytes_filled (s : Source) : s.filled.bytes = s.bytes := by
  obtain ⟨buffer, supply, reads⟩ := s
  cases buffer <;> cases supply <;> simp [filled, bytes, Supply.bytes]
  exact bytes_refill _ _

/-- A read that leaves the buffer empty has ended the source. -/
theorem bytes_eq_nil_of_buffer_filled {s : Source} (h : s.filled.buffer = []) : s.bytes = [] := by
  obtain ⟨buffer, supply, reads⟩ := s
  cases buffer with
  | cons b bs => simp [filled] at h
  | nil =>
      cases supply with
      | ended ending => rfl
      | script events =>
          simp only [bytes, Supply.bytes, List.nil_append]
          simp only [filled] at h
          fun_induction refill reads events with
          | case1 => rfl
          | case2 => rfl
          | case3 reads b bs events => simp [capacity] at h
          | case4 => rfl
          | case5 reads cause events hi ih => simpa [Script.bytes, hi] using ih h
          | case6 reads cause events hi => simp [Script.bytes, hi]

/-- A byte that is handed out is the first of the bytes to come. -/
theorem bytes_of_next_some {s s' : Source} {b : UInt8} (h : s.next = (some b, s')) :
    s.bytes = b :: s'.bytes := by
  rw [← bytes_filled]
  unfold next at h
  split at h
  · rename_i c rest supply reads hf
    simp only [Prod.mk.injEq, Option.some.injEq] at h
    obtain ⟨rfl, rfl⟩ := h
    simp [hf, bytes]
  · simp at h

/-- No byte is handed out only when none is left. -/
theorem bytes_of_next_none {s s' : Source} (h : s.next = (none, s')) :
    s.bytes = [] ∧ s'.bytes = [] := by
  unfold next at h
  split at h
  · simp at h
  · rename_i hne
    simp only [Prod.mk.injEq, true_and] at h
    have hb : s.filled.buffer = [] := by
      cases hf : s.filled.buffer with
      | nil => rfl
      | cons b rest => exact absurd (by rw [← hf]) (hne b rest s.filled.supply s.filled.reads)
    have hs := bytes_eq_nil_of_buffer_filled hb
    exact ⟨hs, by rw [← h, bytes_filled, hs]⟩

end Source

end TokenStream
