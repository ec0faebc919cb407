/-
What reading does to the views of a source.

All that a consumer can learn from a source is contained in three views: the bytes to come, how the
source will end, and the fault that has already been met.  This module says what the reading of a
byte does to each of them, **whatever the script looks like**: the first of the bytes to come is
handed out, the ending stays what it is, and the ending is met exactly when a byte is asked for and
none is left.  How the bytes are cut into reads, which reads are interrupted and what a script holds
behind its end no longer occurs in these statements.

A character stream has the same views, where bytes that were handed back count as bytes to come.

* `Ending.fault?` — the fault of an ending;
* `Source.fst_next`, `Source.bytes_next`, `Source.ending_next`, `Source.isEnded_next`,
  `Source.fault?_next` — reading a byte of a source;
* `CharStream.ending`, `CharStream.fault?` — the other two views of a stream;
* `CharStream.fst_nextByte`, `CharStream.bytes_nextByte`, `CharStream.pending_nextByte`,
  `CharStream.ending_nextByte`, `CharStream.fault?_nextByte` — reading a byte of a stream;
* `CharStream.fst_takeBytes`, `CharStream.bytes_takeBytes` — reading several.
-/

import TokenStream.CharStream

set_option relaxedAutoImplicit false
set_option autoImplicit false

namespace TokenStream

/-- The fault that an ending consists in. -/
def Ending.fault? : Ending → Option Fault
  | clean => none
  | failed cause => some cause

/-- The bytes of a script that delivers all of them at once. -/
theorem Script.bytes_singleton (bytes : List UInt8) : Script.bytes [.bytes bytes] = bytes := by
  cases bytes with
  | nil => rfl
  | cons b bs => exact List.append_nil _

namespace Source

/-! ### Fresh sources -/

@[simp] theorem bytes_ofScript (events : Script) : (ofScript events).bytes = events.bytes := rfl

@[simp] theorem ending_ofScript (events : Script) : (ofScript events).ending = events.ending := rfl

@[simp] theorem fault?_ofScript (events : Script) : (ofScript events).fault? = none := rfl

/-! ### The end of a source -/

@[simp] theorem isEnded_ofScript (events : Script) : (ofScript events).isEnded = false := rfl

/-- A fault has been met if the source has ended with one. -/
theorem fault?_eq (s : Source) : s.fault? = if s.isEnded then s.ending.fault? else none := by
  obtain ⟨buffer, supply, reads⟩ := s
  cases supply with
  | script events => rfl
  | ended ending => cases ending <;> rfl

/-! ### Filling the buffer -/

theorem ending_leftOver (bs : List UInt8) (events : Script) :
    Script.ending (leftOver bs events) = Script.ending events := by
  unfold leftOver
  split
  · rfl
  · rename_i rest hne
    cases h : bs.drop capacity with
    | nil => exact absurd h hne
    | cons b bs' => rfl

theorem ending_refill (reads : Nat) (events : Script) :
    (refill reads events).ending = Script.ending events := by
  fun_induction refill reads events with
  | case1 => rfl
  | case2 => rfl
  | case3 reads b bs events => exact ending_leftOver _ _
  | case4 => rfl
  | case5 reads cause events h ih => simpa [Script.ending, h] using ih
  | case6 reads cause events h => simp [Script.ending, h, ending, Supply.ending]

/-- Reads that find a byte go on, and reads that find none end the source. -/
theorem isEnded_refill (reads : Nat) (events : Script) :
    (refill reads events).isEnded = decide (Script.bytes events = []) := by
  fun_induction refill reads events with
  | case1 => rfl
  | case2 => rfl
  | case3 reads b bs events => rfl
  | case4 => rfl
  | case5 reads cause events h ih =>
      -- an interruption leaves the bytes to the reads behind it
      simpa [Script.bytes, h] using ih
  | case6 reads cause events h => simp [Script.bytes, h, isEnded]

theorem ending_filled (s : Source) : s.filled.ending = s.ending := by
  obtain ⟨buffer, supply, reads⟩ := s
  cases buffer with
  | cons b bs => rfl
  | nil =>
      cases supply with
      | ended ending => rfl
      | script events => exact ending_refill reads events

theorem isEnded_filled (s : Source) :
    s.filled.isEnded = (s.isEnded || decide (s.bytes = [])) := by
  obtain ⟨buffer, supply, reads⟩ := s
  cases buffer with
  | cons b bs => exact (Bool.or_false _).symm
  | nil =>
      cases supply with
      | ended ending => rfl
      | script events => exact isEnded_refill reads events

/-! ### Reading a byte -/

theorem supply_next (s : Source) : s.next.2.supply = s.filled.supply := by
  unfold next
  split
  · rename_i h
    rw [h]
  · rfl

theorem buffer_next (s : Source) : s.next.2.buffer = s.filled.buffer.tail := by
  unfold next
  split
  · rename_i h
    rw [h]
    rfl
  · rename_i hne
    cases hbuffer : s.filled.buffer with
    | nil => rfl
    | cons b rest => exact absurd (by rw [← hbuffer]) (hne b rest s.filled.supply s.filled.reads)

theorem fst_next (s : Source) : s.next.1 = s.bytes.head? := by
  rcases h : s.next with ⟨b?, s'⟩
  cases b? with
  | none => simp [bytes_of_next_none h]
  | some b => simp [bytes_of_next_some h]

theorem bytes_next (s : Source) : s.next.2.bytes = s.bytes.tail := by
  rcases h : s.next with ⟨b?, s'⟩
  cases b? with
  | none => simp [bytes_of_next_none h]
  | some b => simp [bytes_of_next_some h]

@[simp] theorem ending_next (s : Source) : s.next.2.ending = s.ending := by
  rw [ending, supply_next, ← ending, ending_filled]

/-- **The ending is met when a byte is asked for and none is left**, and not before. -/
theorem isEnded_next (s : Source) : s.next.2.isEnded = (s.isEnded || decide (s.bytes = [])) := by
  rw [isEnded, supply_next, ← isEnded, isEnded_filled]

/-- The fault is met with the ending. -/
theorem fault?_next (s : Source) :
    s.next.2.fault? = if s.bytes = [] then s.ending.fault? else s.fault? := by
  rw [fault?_eq, isEnded_next, ending_next, fault?_eq s]
  by_cases hbytes : s.bytes = [] <;> simp [hbytes]

end Source

namespace CharStream

/-- How the source of the stream will end, or has ended. -/
def ending (s : CharStream) : Ending := s.source.ending

/-- The fault that ended the source of the stream, once it has been met. -/
def fault? (s : CharStream) : Option Fault := s.source.fault?

/-! ### Bytes of a stream -/

theorem fst_nextByte (s : CharStream) : s.nextByte.1 = s.bytes.head? := by
  obtain ⟨pending, source⟩ := s
  cases pending with
  | cons b rest => rfl
  | nil => exact Source.fst_next source

theorem bytes_nextByte (s : CharStream) : s.nextByte.2.bytes = s.bytes.tail := by
  obtain ⟨pending, source⟩ := s
  cases pending with
  | cons b rest => rfl
  | nil => exact Source.bytes_next source

theorem pending_nextByte (s : CharStream) : s.nextByte.2.pending = s.pending.tail := by
  obtain ⟨pending, source⟩ := s
  cases pending <;> rfl

theorem length_pending_nextByte (s : CharStream) :
    s.nextByte.2.pending.length = s.pending.length - 1 := by
  rw [pending_nextByte, List.length_tail]

/-- A byte that is read is taken off the bytes to come. -/
theorem nextByte_eq (s : CharStream) :
    ∃ s', s.nextByte = (s.bytes.head?, s') ∧ s'.bytes = s.bytes.tail :=
  ⟨s.nextByte.2, Prod.ext (fst_nextByte s) rfl, bytes_nextByte s⟩

@[simp] theorem ending_nextByte (s : CharStream) : s.nextByte.2.ending = s.ending := by
  obtain ⟨pending, source⟩ := s
  cases pending with
  | cons b rest => rfl
  | nil => exact Source.ending_next source

/-- A byte that was handed back is read without asking the source; otherwise the source decides. -/
theorem fault?_nextByte (s : CharStream) :
    s.nextByte.2.fault? = if s.bytes = [] then s.ending.fault? else s.fault? := by
  obtain ⟨pending, source⟩ := s
  cases pending with
  | cons b rest => rfl
  | nil => exact Source.fault?_next source

theorem fst_takeBytes (k : Nat) (s : CharStream) : (s.takeBytes k).1 = s.bytes.take k := by
  induction k generalizing s with
  | zero => rfl
  | succ k ih =>
      rw [takeBytes]
      split
      · rename_i s' h
        simp [bytes_of_nextByte_none h]
      · rename_i b s' h
        rw [bytes_of_nextByte_some h, List.take_succ_cons, ← ih s']
        rfl

theorem bytes_takeBytes (k : Nat) (s : CharStream) :
    (s.takeBytes k).2.bytes = s.bytes.drop k := by
  have h := takeBytes_append_bytes k s
  rw [fst_takeBytes] at h
  exact List.append_cancel_left (h.trans (List.take_append_drop k s.bytes).symm)

@[simp] theorem ending_takeBytes (k : Nat) (s : CharStream) :
    (s.takeBytes k).2.ending = s.ending := by
  induction k generalizing s with
  | zero => rfl
  | succ k ih =>
      have hnext := ending_nextByte s
      rw [takeBytes]
      split
      · rename_i s' h
        rwa [h] at hnext
      · rename_i b s' h
        rw [h] at hnext
        exact (ih s').trans hnext

@[simp] theorem ending_handBack (s : CharStream) (bs : List UInt8) :
    (s.handBack bs).ending = s.ending := rfl

end CharStream

end TokenStream
