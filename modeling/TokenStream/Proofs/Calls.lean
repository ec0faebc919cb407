/-
The read calls on a script, and where they stop.

A script says what a reader would return, call after call, for as long as it is called: a delivery
that is longer than the buffer takes several calls, and behind the last event every call finds the
end of the input.  `Script.call` is this list of answers, and it knows nothing of where a source
stops calling.  A source stops **with the first call that ends it**, one that finds the end of the
input or fails without being interrupted; how many calls it has made is all that has to be counted
for that.

Reading happens at the bottom of everything else, so what reading a byte preserves is preserved by
whatever is done to a stream or to a caret.

* `ReadEvent.calls`, `Script.calls`, `Script.call` — what the calls on a script return;
* `Script.exists_calls_of_ends`, `Script.ending_eq_of_ends` — **the first call that ends a source
  tells how it ends**;
* `Source.refill_cases` — **what a refill does**;
* `Source.Played`, `Source.played_next` — the calls that were made are the first ones on the script,
  and only the last of them can have ended the source;
* `CharStream.source_next`, `Caret.preserved_input`, `Caret.preserved_source` — **what reading
  preserves**;
* `Source.Played.of_ends` — a call that ended the source was the last one;
* `Script.FailsWithin`, `Source.Played.fault?_eq_some_iff` — a fault has been met when the call that
  fails has been made;
* `Caret.preserved_played`, `Caret.preserved_reads_of_ended` — the same for a caret.
-/

import TokenStream.Proofs.Reading
import Mathlib.Data.List.GetD

set_option relaxedAutoImplicit false
set_option autoImplicit false

namespace TokenStream

/-! ### What the calls return -/

/-- The deliveries of the single calls that deliver the given bytes. -/
def Source.deliveries (bs : List UInt8) : List (List UInt8) :=
  if capacity < bs.length then bs.take capacity :: deliveries (bs.drop capacity) else [bs]
termination_by bs.length
decreasing_by
  have hpos : 0 < capacity := by decide
  rw [List.length_drop]
  omega

/-- What the calls return that play one event. -/
def ReadEvent.calls : ReadEvent → List ReadEvent
  | bytes delivered => (Source.deliveries delivered).map bytes
  | endOfInput => [endOfInput]
  | fault cause => [fault cause]

namespace Script

/-- What the calls return that play the events of a script. -/
def calls (events : Script) : List ReadEvent := events.flatMap ReadEvent.calls

/-- What the call with index `i` returns. -/
def call (events : Script) (i : Nat) : ReadEvent := events.calls.getD i .endOfInput

@[simp] theorem calls_nil : calls [] = [] := rfl

@[simp] theorem calls_cons (event : ReadEvent) (events : Script) :
    calls (event :: events) = event.calls ++ calls events := rfl

/-- A call delivers what fits into the buffer, and leaves the rest of the delivery to the calls
behind it. -/
theorem calls_bytes_cons (bs : List UInt8) (events : Script) :
    calls (.bytes bs :: events) = .bytes (bs.take Source.capacity) ::
      calls (Source.leftOver bs events) := by
  rw [calls_cons, ReadEvent.calls, Source.deliveries]
  by_cases hlong : Source.capacity < bs.length
  · have hrest : bs.drop Source.capacity ≠ [] := by
      rw [Ne, List.drop_eq_nil_iff]
      omega
    have hleft : Source.leftOver bs events = .bytes (bs.drop Source.capacity) :: events := by
      unfold Source.leftOver
      split
      · rename_i hnil
        exact absurd hnil hrest
      · rfl
    rw [if_pos hlong, hleft, calls_cons]
    rfl
  · have hshort : bs.length ≤ Source.capacity := Nat.le_of_not_lt hlong
    have hleft : Source.leftOver bs events = events := by
      rw [Source.leftOver, List.drop_eq_nil_of_le hshort]
    rw [if_neg hlong, hleft, List.take_of_length_le hshort]
    rfl

variable {events : Script} {made behind : List ReadEvent}

theorem call_mem_of_lt {i : Nat} (h : events.calls = made ++ behind) (hi : i < made.length) :
    events.call i ∈ made := by
  rw [call, h, List.getD_append _ _ _ _ hi, List.getD_eq_getElem _ _ hi]
  exact List.getElem_mem hi

theorem call_length (h : events.calls = made ++ behind) :
    events.call made.length = behind.head?.getD .endOfInput := by
  rw [call, h, List.getD_append_right _ _ _ _ (Nat.le_refl _), Nat.sub_self]
  cases behind <;> rfl

end Script

/-! ### What the calls tell -/

/-- How a source ends that ends with this call. -/
def ReadEvent.ending : ReadEvent → Ending
  | bytes _ => .clean
  | endOfInput => .clean
  | fault cause => .failed cause

namespace Script

variable {events : Script}

/-- A delivery does not end a source. -/
theorem ending_bytes_cons {bs : List UInt8} (h : bs ≠ []) (events : Script) :
    ending (.bytes bs :: events) = ending events := by
  cases bs with
  | nil => exact absurd rfl h
  | cons b bs => rfl

/-- A delivery that is made in several calls is followed by the same ending. -/
theorem ending_map_deliveries (bs : List UInt8) (events : Script) :
    ending ((Source.deliveries bs).map .bytes ++ events) = ending (.bytes bs :: events) := by
  fun_induction Source.deliveries bs with
  | case1 bs hlong ih =>
      have hpos : 0 < Source.capacity := by decide
      have hbs : bs ≠ [] := List.ne_nil_of_length_pos (by omega)
      have htake : bs.take Source.capacity ≠ [] := by simp [hbs, Nat.ne_of_gt hpos]
      have hdrop : bs.drop Source.capacity ≠ [] := by simpa using hlong
      rw [List.map_cons, List.cons_append, ending_bytes_cons htake, ih, ending_bytes_cons hdrop,
        ending_bytes_cons hbs]
  | case2 bs hshort => rfl

/-- The calls on a script end as the script does. -/
theorem ending_calls (events : Script) : ending events.calls = events.ending := by
  induction events with
  | nil => rfl
  | cons event events ih =>
      cases event with
      | endOfInput => rfl
      | bytes bs =>
          rw [calls_cons, ReadEvent.calls, ending_map_deliveries]
          cases bs with
          | nil => rfl
          | cons b bs => rwa [ending_bytes_cons (by simp), ending_bytes_cons (by simp)]
      | fault cause =>
          rw [calls_cons, ReadEvent.calls, List.singleton_append, ending, ending, ih]

/-- Calls that do not end a source leave its ending to those behind them. -/
theorem ending_append {made : List ReadEvent} (behind : Script)
    (h : ∀ call ∈ made, call.ends = false) : ending (made ++ behind) = ending behind := by
  induction made with
  | nil => rfl
  | cons call made ih =>
      obtain ⟨hcall, hmade⟩ := List.forall_mem_cons.1 h
      rw [List.cons_append, ← ih hmade]
      cases call with
      | endOfInput => exact nomatch hcall
      | bytes bs =>
          cases bs with
          | nil => exact nomatch hcall
          | cons b bs => rfl
      | fault cause => exact if_pos (by simpa [ReadEvent.ends] using hcall)

theorem ending_of_head_ends {behind : Script}
    (h : (behind.head?.getD .endOfInput).ends = true) :
    ending behind = (behind.head?.getD .endOfInput).ending := by
  cases behind with
  | nil => rfl
  | cons call behind =>
      cases call with
      | endOfInput => rfl
      | bytes bs =>
          obtain rfl : bs = [] := List.isEmpty_iff.1 h
          rfl
      | fault cause => exact if_neg (by simpa [ReadEvent.ends] using h)

/-- The calls in front of the first one that ends a source, and that one with those behind it. -/
theorem exists_calls_of_ends {i : Nat} (hnot : ∀ j, j < i → (events.call j).ends = false) :
    ∃ made behind, events.calls = made ++ behind ∧ made.length = i ∧
      (∀ call ∈ made, call.ends = false) ∧ events.call i = behind.head?.getD .endOfInput := by
  have hsplit : events.calls = events.calls.take i ++ events.calls.drop i :=
    (List.take_append_drop i events.calls).symm
  have hlength : (events.calls.take i).length = i := by
    rcases Nat.lt_or_ge events.calls.length i with hlt | hle
    · -- behind the last call the end of the input is found
      have hlast := hnot events.calls.length hlt
      rw [call_length (List.append_nil events.calls).symm] at hlast
      exact nomatch hlast
    · exact List.length_take_of_le hle
  refine ⟨_, _, hsplit, hlength, ?_, ?_⟩
  · intro call hmem
    obtain ⟨j, hj, rfl⟩ := List.mem_iff_getElem.1 hmem
    rw [hlength] at hj
    have hcall := hnot j hj
    rw [call, List.getD_eq_getElem _ _ (by rw [List.length_take] at hlength; omega)] at hcall
    simpa using hcall
  · have hcall := call_length hsplit
    rwa [hlength] at hcall

/-- **The first call that ends a source tells how it ends.** -/
theorem ending_eq_of_ends {i : Nat} (hnot : ∀ j, j < i → (events.call j).ends = false)
    (hends : (events.call i).ends = true) : events.ending = (events.call i).ending := by
  obtain ⟨made, behind, hsplit, -, hmade, hcall⟩ := exists_calls_of_ends hnot
  rw [hcall] at hends ⊢
  calc events.ending
    _ = ending (made ++ behind) := by rw [← hsplit, ending_calls]
    _ = ending behind := ending_append _ hmade
    _ = (behind.head?.getD .endOfInput).ending := ending_of_head_ends hends

end Script

namespace Source

/-! ### The calls that were made -/

/-- Where a source stands in the calls on its script: it is going on behind calls none of which has
ended it, or it is over since the last call. -/
inductive Played (events : Script) : Supply → Nat → Prop
  | going (rest : Script) (made : List ReadEvent) (calls_eq : events.calls = made ++ rest.calls)
      (not_ends : ∀ call ∈ made, call.ends = false) : Played events (.script rest) made.length
  | stopped (ending : Ending) (i : Nat) (not_ends : ∀ j, j < i → (events.call j).ends = false)
      (ends : (events.call i).ends = true) : Played events (.ended ending) (i + 1)

variable {events : Script}

theorem played_ofScript (events : Script) :
    Played events (ofScript events).supply (ofScript events).reads :=
  .going events [] rfl nofun

/-- The call behind those made ends the source. -/
theorem played_stopped {made behind : List ReadEvent} (ending : Ending)
    (hcalls : events.calls = made ++ behind) (hmade : ∀ call ∈ made, call.ends = false)
    (hends : (behind.head?.getD .endOfInput).ends = true) :
    Played events (.ended ending) (made.length + 1) := by
  refine .stopped ending made.length ?_ ?_
  · intro j hj
    exact hmade _ (Script.call_mem_of_lt hcalls hj)
  · rw [Script.call_length hcalls]
    exact hends

/-- **What a refill does.**  It makes calls that do not end the source, and then one that delivers
what is in the buffer from then on, or one that ends the source. -/
theorem refill_cases {rest : Script} {made : List ReadEvent}
    (hcalls : events.calls = made ++ rest.calls) (hmade : ∀ call ∈ made, call.ends = false) :
    ∃ made' : List ReadEvent, (∀ call ∈ made', call.ends = false) ∧
      ((∃ bs rest', bs ≠ [] ∧ events.calls = made' ++ .bytes bs :: Script.calls rest' ∧
          refill made.length rest = ⟨bs, .script rest', made'.length + 1⟩) ∨
        ∃ behind ending, events.calls = made' ++ behind ∧
          (behind.head?.getD .endOfInput).ends = true ∧
          refill made.length rest = ⟨[], .ended ending, made'.length + 1⟩) := by
  induction rest generalizing made with
  | nil => exact ⟨made, hmade, .inr ⟨_, .clean, hcalls, rfl, rfl⟩⟩
  | cons event rest ih =>
      cases event with
      | endOfInput => exact ⟨made, hmade, .inr ⟨_, .clean, hcalls, rfl, rfl⟩⟩
      | bytes bs =>
          rw [Script.calls_bytes_cons] at hcalls
          cases bs with
          | nil => exact ⟨made, hmade, .inr ⟨_, .clean, hcalls, rfl, rfl⟩⟩
          | cons b bs => exact ⟨made, hmade, .inl ⟨_, _, by simp [capacity], hcalls, rfl⟩⟩
      | fault cause =>
          cases hcause : cause.isInterrupted with
          | true =>
              -- an interrupted call counts, and the calls behind it go on
              have hcalls' : events.calls = (made ++ [.fault cause]) ++ Script.calls rest := by
                rw [hcalls]
                simp [ReadEvent.calls]
              have hmade' : ∀ call ∈ made ++ [.fault cause], call.ends = false :=
                List.forall_mem_append.2
                  ⟨hmade, List.forall_mem_singleton.2 (by simp [ReadEvent.ends, hcause])⟩
              have hcases := ih hcalls' hmade'
              rw [refill, if_pos hcause]
              rwa [List.length_append, List.length_singleton] at hcases
          | false =>
              rw [refill, if_neg (by simp [hcause])]
              exact ⟨made, hmade, .inr ⟨_, .failed cause, hcalls,
                by simp [ReadEvent.calls, ReadEvent.ends, hcause], rfl⟩⟩

theorem played_refill {rest : Script} {made : List ReadEvent}
    (hcalls : events.calls = made ++ rest.calls) (hmade : ∀ call ∈ made, call.ends = false) :
    Played events (refill made.length rest).supply (refill made.length rest).reads := by
  obtain ⟨made', hmade', ⟨bs, rest', hbs, hcalls', hrefill⟩ |
    ⟨behind, ending, hcalls', hends, hrefill⟩⟩ := refill_cases hcalls hmade
  · rw [hrefill, ← List.length_singleton (a := ReadEvent.bytes bs), ← List.length_append]
    refine .going rest' (made' ++ [.bytes bs]) (by rw [hcalls']; simp) ?_
    exact List.forall_mem_append.2
      ⟨hmade', List.forall_mem_singleton.2 (by simpa [ReadEvent.ends] using hbs)⟩
  · rw [hrefill]
    exact played_stopped ending hcalls' hmade' hends

theorem reads_next (s : Source) : s.next.2.reads = s.filled.reads := by
  unfold next
  split
  · rename_i h
    rw [h]
  · rfl

/-- Reading a byte makes calls only as long as none has ended the source. -/
theorem played_next {s : Source} (h : Played events s.supply s.reads) :
    Played events s.next.2.supply s.next.2.reads := by
  rw [supply_next, reads_next]
  obtain ⟨buffer, supply, reads⟩ := s
  cases buffer with
  | cons b bs => exact h
  | nil =>
      cases h with
      | stopped ending i hnot hends => exact .stopped ending i hnot hends
      | going rest made hcalls hmade => exact played_refill hcalls hmade

/-- A source that has ended makes no calls. -/
theorem next_of_ended {s : Source} {ending : Ending} (h : s.supply = .ended ending) :
    s.next.2.supply = .ended ending ∧ s.next.2.reads = s.reads := by
  rw [supply_next, reads_next]
  obtain ⟨buffer, supply, reads⟩ := s
  obtain rfl : supply = .ended ending := h
  cases buffer <;> exact ⟨rfl, rfl⟩

/-- **A call that ended the source was the last one.** -/
theorem Played.of_ends {supply : Supply} {reads i : Nat} (h : Played events supply reads)
    (hi : i < reads) (hends : (events.call i).ends = true) :
    (∃ ending, supply = .ended ending) ∧ reads = i + 1 := by
  cases h with
  | going rest made hcalls hmade =>
      have hnot := hmade _ (Script.call_mem_of_lt hcalls hi)
      exact absurd hends (by simp [hnot])
  | stopped ending last hnot hlast =>
      refine ⟨⟨ending, rfl⟩, ?_⟩
      rcases Nat.lt_or_ge i last with hlt | hge
      · exact absurd hends (by simp [hnot i hlt])
      · omega

end Source

/-! ### The call that failed -/

/-- One of the first `n` calls fails, and not because it was interrupted. -/
def Script.FailsWithin (events : Script) (n : Nat) (cause : Fault) : Prop :=
  ∃ i, i < n ∧ events.call i = .fault cause ∧ cause.isInterrupted = false

/-- **A fault has been met when the call that fails has been made.** -/
theorem Source.Played.fault?_eq_some_iff {events : Script} {s : Source} {cause : Fault}
    (h : Played events s.supply s.reads) (hending : s.ending = events.ending) :
    s.fault? = some cause ↔ events.FailsWithin s.reads cause := by
  have hends : ∀ i, events.call i = .fault cause → cause.isInterrupted = false →
      (events.call i).ends = true := by
    intro i hcall hcause
    simp [hcall, ReadEvent.ends, hcause]
  obtain ⟨buffer, supply, reads⟩ := s
  cases h with
  | going rest made hcalls hmade =>
      constructor
      · intro hfault
        exact nomatch hfault
      · rintro ⟨i, hi, hcall, hcause⟩
        have hnot := hmade _ (Script.call_mem_of_lt hcalls hi)
        exact absurd (hends i hcall hcause) (by simp [hnot])
  | stopped ending last hnot hlast =>
      obtain rfl : ending = (events.call last).ending :=
        hending.trans (Script.ending_eq_of_ends hnot hlast)
      constructor
      · intro hfault
        cases hcall : events.call last with
        | bytes bs => simp [Source.fault?, hcall, ReadEvent.ending] at hfault
        | endOfInput => simp [Source.fault?, hcall, ReadEvent.ending] at hfault
        | fault met =>
            obtain rfl : met = cause := by
              simpa [Source.fault?, hcall, ReadEvent.ending] using hfault
            exact ⟨last, Nat.lt_succ_self last, hcall,
              by simpa [hcall, ReadEvent.ends] using hlast⟩
      · rintro ⟨i, hi, hcall, hcause⟩
        have hlt : ¬ i < last := fun hlt => absurd (hends i hcall hcause) (by simp [hnot i hlt])
        obtain rfl : i = last := Nat.le_antisymm (Nat.le_of_lt_succ hi) (Nat.le_of_not_lt hlt)
        simp [Source.fault?, hcall, ReadEvent.ending]

/-! ### What reading a byte preserves -/

section

variable {Q : Source → Prop}

theorem CharStream.source_nextByte (hQ : ∀ s : Source, Q s → Q s.next.2) {s : CharStream}
    (h : Q s.source) : Q s.nextByte.2.source := by
  obtain ⟨pending, source⟩ := s
  cases pending with
  | cons b rest => exact h
  | nil => exact hQ source h

theorem CharStream.source_takeBytes (hQ : ∀ s : Source, Q s → Q s.next.2) {s : CharStream}
    (k : Nat) (h : Q s.source) : Q (s.takeBytes k).2.source := by
  induction k generalizing s with
  | zero => exact h
  | succ k ih =>
      have hnext := source_nextByte hQ h
      rw [takeBytes]
      split
      · rename_i s' hbyte
        rwa [hbyte] at hnext
      · rename_i b s' hbyte
        rw [hbyte] at hnext
        exact ih hnext

/-- What reading a byte preserves, reading a character preserves. -/
theorem CharStream.source_next (hQ : ∀ s : Source, Q s → Q s.next.2) {s : CharStream}
    (h : Q s.source) : Q s.next.2.source := by
  have hnext := source_nextByte hQ h
  unfold next
  split
  · rename_i s' hbyte
    rwa [hbyte] at hnext
  · rename_i first s' hbyte
    rw [hbyte] at hnext
    have htaken := source_takeBytes hQ (Utf8.width first - 1) hnext
    rw [Prod.map_snd, nextFrom_eq]
    -- bytes that are handed back do not go to the source
    cases Utf8.leading? (first :: s'.bytes) <;> exact htaken

theorem Caret.source_ofSource (hQ : ∀ s : Source, Q s → Q s.next.2) {source : Source}
    (h : Q source) : Q (ofSource source).input.source :=
  CharStream.source_next (s := .ofSource source) hQ h

/-- **What reading a character preserves, a caret preserves.** -/
theorem Caret.preserved_input {R : CharStream → Prop} (hR : ∀ s : CharStream, R s → R s.next.2) :
    Preserved (fun c => R c.input) where
  advance {c} h := by
    cases ha : c.ahead with
    | some char? => simpa [Caret.advance, ha] using h
    | none => simpa [Caret.advance, ha] using hR _ h
  lookAhead {c} h := by
    cases ha : c.ahead with
    | some char? => simpa [Caret.lookAhead, ha] using h
    | none => simpa [Caret.lookAhead, ha] using hR _ h
  breakLine h := h
  takeFault {c} h := by
    rw [takeFault_eq]
    exact h

/-- What reading a byte preserves, a caret preserves. -/
theorem Caret.preserved_source (hQ : ∀ s : Source, Q s → Q s.next.2) :
    Preserved (fun c => Q c.input.source) :=
  preserved_input (R := fun s => Q s.source) fun _ => CharStream.source_next hQ

end

/-! ### The calls of a caret -/

namespace Caret

theorem played_ofScript (events : Script) :
    Source.Played events (ofSource (.ofScript events)).input.source.supply
      (ofSource (.ofScript events)).reads :=
  source_ofSource (Q := fun source => Source.Played events source.supply source.reads)
    (fun _ => Source.played_next) (Source.played_ofScript events)

theorem preserved_played (events : Script) :
    Preserved (fun c => Source.Played events c.input.source.supply c.reads) :=
  preserved_source (Q := fun source => Source.Played events source.supply source.reads)
    fun _ => Source.played_next

/-- Over a source that has ended, no call is made. -/
theorem preserved_reads_of_ended (ending : Ending) (n : Nat) :
    Preserved (fun c => c.input.source.supply = .ended ending ∧ c.reads = n) := by
  refine preserved_source
    (Q := fun source => source.supply = .ended ending ∧ source.reads = n) ?_
  intro source h
  obtain ⟨hsupply, hreads⟩ := Source.next_of_ended h.1
  exact ⟨hsupply, hreads.trans h.2⟩

end Caret

end TokenStream
