/-
Streams and carets that differ only in how their bytes are delivered.

The same bytes can arrive in one read or in many, cut anywhere, with interruptions between them, and
a script may go on behind its end.  Two streams are *alike* when the bytes to come are the same, the
endings are told in the same words, and the fault has been met in both or in neither.  What they
have handed back and what their buffers hold need not be the same: one of them may still have to
read what the other has read ahead.

**Every operation gives the same answer on both, and leaves them alike again.**  That is one lemma
for each operation, from a single byte up to a move of the caret, and it is carried to whole runs by
induction on the operations.

* `Ending.reason?` — what is told of an ending;
* `Agree` — two steps with the same answer, which lead to related states;
* `CharStream.Alike` with `CharStream.Alike.next` — alike streams, and reading a character;
* `Caret.Alike` with `Caret.Alike.advance`, `Caret.Alike.lookAhead`, `Caret.Alike.takeFault` — alike
  carets, and their operations;
* `Caret.Reply.Alike`, `Caret.Alike.apply`, `Caret.Alike.trace` — answers that read the same, **one
  operation and a run of operations**.
-/

import TokenStream.Proofs.CaretText
import Mathlib.Data.List.Forall2

set_option relaxedAutoImplicit false
set_option autoImplicit false

namespace TokenStream

/-- What is told of the fault that an ending consists in. -/
def Ending.reason? (e : Ending) : Option String := e.fault?.map Fault.message

/-! ### Steps that agree -/

/-- Two steps with the same answer, which lead to related states. -/
def Agree {α σ : Type} (R : σ → σ → Prop) (x y : α × σ) : Prop :=
  ∃ a s t, x = (a, s) ∧ y = (a, t) ∧ R s t

/-- What is computed from the answers alone agrees too. -/
theorem Agree.map {α β σ : Type} {R : σ → σ → Prop} {x y : α × σ} (h : Agree R x y) (f : α → β) :
    Agree R (x.map f id) (y.map f id) := by
  obtain ⟨a, s, t, rfl, rfl, hst⟩ := h
  exact ⟨f a, s, t, rfl, rfl, hst⟩

namespace CharStream

/-- The same bytes are to come, with endings that are told in the same words and have been met in
both streams or in neither. -/
structure Alike (s t : CharStream) : Prop where
  bytes_eq : s.bytes = t.bytes
  reason?_eq : s.ending.reason? = t.ending.reason?
  fault?_eq : s.fault?.map Fault.message = t.fault?.map Fault.message

theorem alike_ofScript {events events' : Script} (hbytes : events.bytes = events'.bytes)
    (hreason : events.ending.reason? = events'.ending.reason?) :
    (ofSource (.ofScript events)).Alike (ofSource (.ofScript events')) :=
  ⟨hbytes, hreason, rfl⟩

variable {s t : CharStream}

/-- Whether the fault has been met is the same in alike streams. -/
theorem Alike.map_fault?_eq {α : Type} (h : s.Alike t) (a : α) :
    (s.fault?.map fun _ => a) = t.fault?.map fun _ => a := by
  have hmap := congrArg (Option.map fun _ => a) h.fault?_eq
  rwa [Option.map_map, Option.map_map] at hmap

/-! ### Bytes -/

theorem Alike.nextByte (h : s.Alike t) : Agree Alike s.nextByte t.nextByte := by
  refine ⟨s.nextByte.1, s.nextByte.2, t.nextByte.2, rfl, Prod.ext ?_ rfl, ?_, ?_, ?_⟩
  · rw [fst_nextByte, fst_nextByte, h.bytes_eq]
  · rw [bytes_nextByte, bytes_nextByte, h.bytes_eq]
  · rw [ending_nextByte, ending_nextByte, h.reason?_eq]
  · -- both streams are asked for a byte that they do not have, or both have it
    rw [fault?_nextByte, fault?_nextByte, h.bytes_eq]
    split
    · exact h.reason?_eq
    · exact h.fault?_eq

theorem Alike.takeBytes (k : Nat) (h : s.Alike t) : Agree Alike (s.takeBytes k) (t.takeBytes k) := by
  induction k generalizing s t with
  | zero => exact ⟨[], s, t, rfl, rfl, h⟩
  | succ k ih =>
      obtain ⟨b?, s', t', hs, ht, h'⟩ := h.nextByte
      rw [CharStream.takeBytes, CharStream.takeBytes, hs, ht]
      cases b? with
      | none => exact ⟨[], s', t', rfl, rfl, h'⟩
      | some b => exact (ih h').map (b :: ·)

theorem Alike.handBack (bs : List UInt8) (h : s.Alike t) : (s.handBack bs).Alike (t.handBack bs) :=
  ⟨by rw [bytes_handBack, bytes_handBack, h.bytes_eq], h.reason?_eq, h.fault?_eq⟩

/-! ### Characters -/

theorem Alike.nextFrom (first : UInt8) (h : s.Alike t) :
    Agree Alike (nextFrom first s) (nextFrom first t) := by
  obtain ⟨more, s', t', hs, ht, h'⟩ := h.takeBytes (Utf8.width first - 1)
  rw [CharStream.nextFrom, CharStream.nextFrom, hs, ht]
  cases hchar : Utf8.char? (first :: more) with
  | some c =>
      simp only [hchar]
      exact ⟨c, s', t', rfl, rfl, h'⟩
  | none =>
      simp only [hchar]
      exact ⟨Utf8.replacement, s'.handBack more, t'.handBack more, rfl, rfl, h'.handBack more⟩

theorem Alike.next (h : s.Alike t) : Agree Alike s.next t.next := by
  obtain ⟨first?, s', t', hs, ht, h'⟩ := h.nextByte
  rw [CharStream.next, CharStream.next, hs, ht]
  cases first? with
  | none => exact ⟨none, s', t', rfl, rfl, h'⟩
  | some first => exact (h'.nextFrom first).map some

end CharStream

namespace Caret

/-- The carets are the same but for their streams, which are alike. -/
def Alike (c d : Caret) : Prop := ∃ input, c.input.Alike input ∧ d = { c with input }

variable {c d : Caret}

theorem Alike.current_eq (h : c.Alike d) : c.current = d.current := by
  obtain ⟨input, -, rfl⟩ := h
  rfl

theorem Alike.ahead_eq (h : c.Alike d) : c.ahead = d.ahead := by
  obtain ⟨input, -, rfl⟩ := h
  rfl

theorem Alike.position_eq (h : c.Alike d) : c.position = d.position := by
  obtain ⟨input, -, rfl⟩ := h
  rfl

/-! ### Operations -/

theorem Alike.read (h : c.Alike d) : Agree Alike c.read d.read := by
  obtain ⟨input, hinput, rfl⟩ := h
  obtain ⟨char?, s, t, hs, ht, hst⟩ := hinput.next
  refine ⟨char?, { c.read.2 with input := s }, { c.read.2 with input := t }, ?_, ?_, t, hst, rfl⟩
  · simp [Caret.read, hs]
  · -- the place of the fault is noted by both or by neither
    have hmet := hst.map_fault?_eq c.position
    simp only [CharStream.fault?] at hmet
    simp [Caret.read, hs, ht, hmet]

theorem alike_ofScript {events events' : Script} (hbytes : events.bytes = events'.bytes)
    (hreason : events.ending.reason? = events'.ending.reason?) :
    (ofSource (.ofScript events)).Alike (ofSource (.ofScript events')) := by
  have hinput := CharStream.alike_ofScript hbytes hreason
  have hstart : Alike ⟨.ofSource (.ofScript events), none, none, .start, none, false⟩
      ⟨.ofSource (.ofScript events'), none, none, .start, none, false⟩ := ⟨_, hinput, rfl⟩
  obtain ⟨char?, c, d, hc, hd, input, halike, rfl⟩ := hstart.read
  rw [ofSource, ofSource, hc, hd]
  exact ⟨input, halike, rfl⟩

theorem Alike.nextColumn (h : c.Alike d) : c.nextColumn.Alike d.nextColumn := by
  obtain ⟨input, hinput, rfl⟩ := h
  cases hc : c.current with
  | none => exact ⟨input, by simpa using hinput, by simp [Caret.nextColumn, hc]⟩
  | some char => exact ⟨input, by simpa using hinput, by simp [Caret.nextColumn, hc]⟩

theorem Alike.advance (h : c.Alike d) : c.advance.Alike d.advance := by
  have hahead := h.ahead_eq
  cases ha : c.ahead with
  | some char? =>
      obtain ⟨input, hinput, hd⟩ := h.nextColumn
      simp only [Caret.advance, ← hahead, ha, hd]
      exact ⟨input, hinput, rfl⟩
  | none =>
      obtain ⟨char?, c', d', hc', hd', input, hinput, rfl⟩ := h.nextColumn.read
      simp only [Caret.advance, ← hahead, ha, hc', hd']
      exact ⟨input, hinput, rfl⟩

theorem Alike.lookAhead (h : c.Alike d) : Agree Alike c.lookAhead d.lookAhead := by
  have hahead := h.ahead_eq
  cases ha : c.ahead with
  | some char? =>
      simp only [Caret.lookAhead, ← hahead, ha]
      exact ⟨char?, c, d, rfl, rfl, h⟩
  | none =>
      obtain ⟨char?, c', d', hc', hd', input, hinput, rfl⟩ := h.read
      simp only [Caret.lookAhead, ← hahead, ha, hc', hd']
      exact ⟨char?, _, _, rfl, rfl, input, hinput, rfl⟩

theorem Alike.breakLine (h : c.Alike d) : c.breakLine.Alike d.breakLine := by
  obtain ⟨input, hinput, rfl⟩ := h
  exact ⟨input, hinput, rfl⟩

/-- The faults that alike carets give away are told in the same words. -/
theorem Alike.takeFault (h : c.Alike d) :
    c.takeFault.1.map Fault.message = d.takeFault.1.map Fault.message ∧
      c.takeFault.2.Alike d.takeFault.2 := by
  obtain ⟨input, hinput, rfl⟩ := h
  have hmet := congrArg Option.isSome hinput.fault?_eq
  rw [Option.isSome_map, Option.isSome_map] at hmet
  rw [takeFault_eq, takeFault_eq]
  refine ⟨?_, input, hinput, ?_⟩
  · cases hreported : c.reported with
    | true => simp
    | false => simpa [Caret.fault?] using hinput.fault?_eq
  · simp [Caret.fault?, hmet]

/-! ### Runs of operations -/

/-- The answers are the same, or faults that are told in the same words. -/
inductive Reply.Alike : Reply → Reply → Prop
  | refl (reply : Reply) : Alike reply reply
  | fault {cause? cause?' : Option Fault}
      (h : cause?.map Fault.message = cause?'.map Fault.message) :
      Alike (.fault cause?) (.fault cause?')

/-- **One operation** on alike carets. -/
theorem Alike.apply (h : c.Alike d) (op : Op) :
    (c.apply op).1.Alike (d.apply op).1 ∧ (c.apply op).2.Alike (d.apply op).2 := by
  cases op with
  | advance =>
      refine ⟨?_, h.advance⟩
      have hcurrent := h.advance.current_eq
      simp only [Caret.apply, hcurrent]
      exact .refl _
  | lookAhead =>
      obtain ⟨char?, c', d', hc, hd, h'⟩ := h.lookAhead
      simp only [Caret.apply, hc, hd]
      exact ⟨.refl _, h'⟩
  | breakLine => exact ⟨.refl _, h.breakLine⟩
  | takeFault =>
      obtain ⟨hmessage, h'⟩ := h.takeFault
      exact ⟨.fault hmessage, h'⟩

/-- **A run of operations** on alike carets. -/
theorem Alike.trace (h : c.Alike d) (ops : List Op) :
    List.Forall₂ (fun a b => a.1.Alike b.1 ∧ a.2.Alike b.2) (c.trace ops) (d.trace ops) := by
  induction ops generalizing c d with
  | nil => exact .nil
  | cons op ops ih =>
      have hstep := h.apply op
      exact .cons hstep (ih hstep.2)

end Caret

end TokenStream
