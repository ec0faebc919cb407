/-
How many read calls a caret has made.

A call is made when a byte is wanted and all that was delivered has been handed out, so the call
that was made last is the one that **delivers the last byte that was wanted**.  Where more bytes are
wanted than there are, it is the one that ends the source.  Interrupted calls and the cut of the
deliveries into calls count, but nothing else does: not how often the caret has looked at a
character, not in which order it was asked, and not which bytes were collected in vain.

What a caret wants is known without it.  Whoever keeps an index into the text and the farthest index
that was asked for, knows the characters that have been read, and these demand their bytes.

* `ReadEvent.delivered`, `Script.deliveredBy` — what the first calls have delivered;
* `Source.Played.deliveredBy_add` — what has been delivered, and what is still to be delivered;
* `Script.Supplies`, `Script.Supplies.unique` — the call that delivers a byte, or ends the source;
* `Source.Counted`, `Source.counted_next` — **no call is made before it is needed**;
* `Source.Counted.exists_reads` — the calls of a source, from the bytes that it was asked for;
* `Outlook`, `Outlook.move`, `Outlook.after` — how far a caret has asked;
* `Caret.Follows`, `Caret.Follows.apply`, `Caret.Follows.after` — one operation and a run of
  operations;
* `Script.demanded`, `Script.demanded_le_append` — the bytes that were wanted, a running maximum;
* `Script.calls_until_demanded` — **the read calls and the fault**, after any operations.
-/

import TokenStream.Proofs.Demand
import TokenStream.Proofs.Mark
import Mathlib.Data.List.Induction

set_option relaxedAutoImplicit false
set_option autoImplicit false

namespace TokenStream

/-! ### What the first calls deliver -/

/-- The bytes that a call delivers. -/
def ReadEvent.delivered : ReadEvent → List UInt8
  | bytes bs => bs
  | endOfInput => []
  | fault _ => []

/-- A call that ends a source delivers nothing. -/
theorem ReadEvent.delivered_of_ends {call : ReadEvent} (h : call.ends = true) :
    call.delivered = [] := by
  cases call with
  | endOfInput => rfl
  | bytes bs => exact List.isEmpty_iff.1 h
  | fault cause => rfl

namespace Script

/-- How many bytes the first `k` calls deliver. -/
def deliveredBy (events : Script) : Nat → Nat
  | 0 => 0
  | k + 1 => deliveredBy events k + (events.call k).delivered.length

variable {events : Script}

theorem deliveredBy_length {made behind : List ReadEvent} (h : events.calls = made ++ behind) :
    events.deliveredBy made.length = (made.flatMap ReadEvent.delivered).length := by
  induction made using List.reverseRecOn generalizing behind with
  | nil => rfl
  | append_singleton made call ih =>
      rw [List.append_assoc, List.singleton_append] at h
      have hcall : events.call made.length = call := call_length h
      rw [List.length_append, List.length_singleton, deliveredBy, ih h, hcall,
        List.flatMap_append, List.flatMap_singleton, List.length_append]

theorem deliveredBy_mono {j k : Nat} (h : j ≤ k) : events.deliveredBy j ≤ events.deliveredBy k := by
  induction h with
  | refl => exact Nat.le_refl _
  | step _ ih => exact Nat.le_trans ih (Nat.le_add_right _ _)

theorem bytes_bytes_cons {bs : List UInt8} (h : bs ≠ []) (events : Script) :
    bytes (.bytes bs :: events) = bs ++ bytes events := by
  cases bs with
  | nil => exact absurd rfl h
  | cons b bs => rfl

/-- A delivery that is made in several calls delivers the same bytes. -/
theorem bytes_map_deliveries (bs : List UInt8) (events : Script) :
    bytes ((Source.deliveries bs).map .bytes ++ events) = bytes (.bytes bs :: events) := by
  fun_induction Source.deliveries bs with
  | case1 bs hlong ih =>
      have hpos : 0 < Source.capacity := by decide
      have hbs : bs ≠ [] := List.ne_nil_of_length_pos (by omega)
      have htake : bs.take Source.capacity ≠ [] := by simp [hbs, Nat.ne_of_gt hpos]
      have hdrop : bs.drop Source.capacity ≠ [] := by simpa using hlong
      rw [List.map_cons, List.cons_append, bytes_bytes_cons htake, ih, bytes_bytes_cons hdrop,
        bytes_bytes_cons hbs, ← List.append_assoc, List.take_append_drop]
  | case2 bs hshort => rfl

/-- The calls on a script deliver its bytes. -/
theorem bytes_calls (events : Script) : bytes events.calls = events.bytes := by
  induction events with
  | nil => rfl
  | cons event events ih =>
      cases event with
      | endOfInput => rfl
      | bytes bs =>
          rw [calls_cons, ReadEvent.calls, bytes_map_deliveries]
          cases bs with
          | nil => rfl
          | cons b bs => rw [bytes_bytes_cons (by simp), bytes_bytes_cons (by simp), ih]
      | fault cause =>
          rw [calls_cons, ReadEvent.calls, List.singleton_append, bytes, bytes, ih]

/-- Calls that do not end a source deliver their bytes in front of those behind them. -/
theorem bytes_append {made : List ReadEvent} (behind : Script)
    (h : ∀ call ∈ made, call.ends = false) :
    bytes (made ++ behind) = made.flatMap ReadEvent.delivered ++ bytes behind := by
  induction made with
  | nil => rfl
  | cons call made ih =>
      obtain ⟨hcall, hmade⟩ := List.forall_mem_cons.1 h
      rw [List.cons_append, List.flatMap_cons, List.append_assoc, ← ih hmade]
      cases call with
      | endOfInput => exact nomatch hcall
      | bytes bs => exact bytes_bytes_cons (by simpa [ReadEvent.ends] using hcall) _
      | fault cause => exact if_pos (by simpa [ReadEvent.ends] using hcall)

/-- Behind a call that ends a source nothing is delivered. -/
theorem bytes_of_head_ends {behind : Script} (h : (behind.head?.getD .endOfInput).ends = true) :
    bytes behind = [] := by
  cases behind with
  | nil => rfl
  | cons call behind =>
      cases call with
      | endOfInput => rfl
      | bytes bs =>
          obtain rfl : bs = [] := List.isEmpty_iff.1 h
          rfl
      | fault cause => exact if_neg (by simpa [ReadEvent.ends] using h)

/-- The call with the index `k` delivers the byte with the number `d`, counted from one.  If there
are fewer bytes, it is the call that ends the source. -/
structure Supplies (events : Script) (d k : Nat) : Prop where
  not_ends : ∀ j, j < k → (events.call j).ends = false
  delivers : d ≤ events.bytes.length → events.deliveredBy k < d ∧ d ≤ events.deliveredBy (k + 1)
  ends : events.bytes.length < d → (events.call k).ends = true

/-- There is only one such call. -/
theorem Supplies.unique {d k k' : Nat} (h : events.Supplies d k) (h' : events.Supplies d k') :
    k = k' := by
  -- an earlier call would have delivered the byte, or ended the source
  have hnot : ∀ {j k : Nat}, events.Supplies d j → events.Supplies d k → ¬ j < k := by
    intro j k hj hk hlt
    rcases Nat.lt_or_ge events.bytes.length d with hover | hwithin
    · have hends := hk.not_ends j hlt
      rw [hj.ends hover] at hends
      exact nomatch hends
    · have hmono : events.deliveredBy (j + 1) ≤ events.deliveredBy k := deliveredBy_mono hlt
      have hdelivered := (hj.delivers hwithin).2
      have hbefore := (hk.delivers hwithin).1
      omega
  exact Nat.le_antisymm (Nat.le_of_not_lt (hnot h' h)) (Nat.le_of_not_lt (hnot h h'))

end Script

namespace Source

/-! ### No call too early -/

variable {events : Script}

/-- What has been delivered and what is still to be delivered are all the bytes. -/
theorem Played.deliveredBy_add {supply : Supply} {reads : Nat} (h : Played events supply reads) :
    events.deliveredBy reads + supply.bytes.length = events.bytes.length := by
  have hsplit : ∀ {made behind : List ReadEvent}, events.calls = made ++ behind →
      (∀ call ∈ made, call.ends = false) →
      events.deliveredBy made.length + (Script.bytes behind).length = events.bytes.length := by
    intro made behind hcalls hmade
    rw [← Script.bytes_calls events, hcalls, Script.bytes_append _ hmade, List.length_append,
      Script.deliveredBy_length hcalls]
  cases h with
  | going rest made hcalls hmade =>
      have hdelivered := hsplit hcalls hmade
      rwa [Script.bytes_calls] at hdelivered
  | stopped ending i hnot hends =>
      obtain ⟨made, behind, hcalls, rfl, hmade, hcall⟩ := Script.exists_calls_of_ends hnot
      have hdelivered := hsplit hcalls hmade
      rw [Script.bytes_of_head_ends (hcall ▸ hends)] at hdelivered
      rwa [Script.deliveredBy, ReadEvent.delivered_of_ends hends]

/-- No call was made behind one that ended the source, and a byte of the last delivery has been
handed out. -/
structure Counted (events : Script) (s : Source) : Prop where
  played : Played events s.supply s.reads
  begun : s.isEnded = false → ∀ k, s.reads = k + 1 →
    s.buffer.length < (events.call k).delivered.length

theorem counted_ofScript (events : Script) : (ofScript events).Counted events :=
  ⟨played_ofScript events, nofun⟩

/-- **Reading a byte makes calls only until one delivers it.** -/
theorem counted_next {s : Source} (h : s.Counted events) : s.next.2.Counted events := by
  refine ⟨played_next h.played, ?_⟩
  intro hgoing k hk
  rw [isEnded, supply_next, ← isEnded] at hgoing
  rw [reads_next] at hk
  rw [buffer_next]
  obtain ⟨hplayed, hbegun⟩ := h
  obtain ⟨buffer, supply, reads⟩ := s
  cases buffer with
  | cons b bs => exact Nat.lt_of_succ_lt (hbegun hgoing k hk)
  | nil =>
      cases hplayed with
      | stopped ending i hnot hends => cases hgoing
      | going rest made hcalls hmade =>
          -- the first byte of what the last call delivers is handed out at once
          have hfilled : filled ⟨[], .script rest, made.length⟩ = refill made.length rest := rfl
          rw [hfilled] at hgoing hk ⊢
          obtain ⟨made', -, ⟨bs, rest', hbs, hcalls', hrefill⟩ | ⟨behind, ending, -, -, hrefill⟩⟩ :=
            refill_cases hcalls hmade
          · rw [hrefill] at hk ⊢
            obtain rfl : made'.length = k := Nat.succ.inj hk
            rw [Script.call_length hcalls', List.length_tail]
            exact Nat.sub_one_lt (mt List.length_eq_zero_iff.1 hbs)
          · rw [hrefill] at hgoing
            cases hgoing

/-- **A source has made the calls up to the one that delivers the last byte asked for.** -/
theorem Counted.exists_reads {s : Source} {d : Nat} (h : s.Counted events) (hd : 0 < d)
    (hbytes : s.bytes = events.bytes.drop d)
    (hended : s.isEnded = decide (events.bytes.length < d)) :
    ∃ k, s.reads = k + 1 ∧ events.Supplies d k := by
  obtain ⟨hplayed, hbegun⟩ := h
  obtain ⟨buffer, supply, reads⟩ := s
  cases hplayed with
  | stopped ending i hnot hends =>
      have hover : events.bytes.length < d := of_decide_eq_true hended.symm
      refine ⟨i, rfl, hnot, ?_, fun _ => hends⟩
      intro hwithin
      exact absurd hover (Nat.not_lt.2 hwithin)
  | going rest made hcalls hmade =>
      have hwithin : d ≤ events.bytes.length := Nat.le_of_not_lt (of_decide_eq_false hended.symm)
      -- what was delivered has been handed out, or waits in the buffer
      have hdelivered : events.deliveredBy made.length = d + buffer.length := by
        have hall := (Played.going rest made hcalls hmade).deliveredBy_add
        have hrest : (buffer ++ Script.bytes rest).length = (events.bytes.drop d).length :=
          congrArg List.length hbytes
        rw [List.length_append, List.length_drop] at hrest
        change _ + (Script.bytes rest).length = _ at hall
        omega
      obtain ⟨k, hk⟩ : ∃ k, made.length = k + 1 := by
        refine Nat.exists_eq_add_one.2 (Nat.pos_of_ne_zero ?_)
        intro hzero
        rw [hzero, Script.deliveredBy] at hdelivered
        omega
      have hlast : buffer.length < (events.call k).delivered.length := hbegun rfl k hk
      refine ⟨k, hk, ?_, ?_, ?_⟩
      · intro j hj
        exact hmade _ (Script.call_mem_of_lt hcalls (by omega))
      · intro _
        rw [hk, Script.deliveredBy] at hdelivered
        rw [Script.deliveredBy]
        omega
      · intro hover
        exact absurd hover (Nat.not_lt.2 hwithin)

end Source

/-! ### How far a caret asks -/

/-- The index of the character on which a caret stands, and the farthest index that it has asked
for.  The index behind the text stands for its end. -/
structure Outlook where
  index : Nat := 0
  farthest : Nat := 0
  deriving DecidableEq, Repr

namespace Outlook

/-- What an operation asks for, in a text of `count` characters. -/
def move (count : Nat) (o : Outlook) : Caret.Op → Outlook
  | .advance =>
      ⟨min (o.index + 1) count, max o.farthest (min (o.index + 1) count)⟩
  | .lookAhead => { o with farthest := max o.farthest (min (o.index + 1) count) }
  | .breakLine => o
  | .takeFault => o

/-- What some operations ask for. -/
def after (count : Nat) (o : Outlook) (ops : List Caret.Op) : Outlook := ops.foldl (move count) o

theorem farthest_le_move (count : Nat) (o : Outlook) (op : Caret.Op) :
    o.farthest ≤ (o.move count op).farthest := by
  cases op with
  | advance => exact Nat.le_max_left _ _
  | lookAhead => exact Nat.le_max_left _ _
  | breakLine => exact Nat.le_refl _
  | takeFault => exact Nat.le_refl _

theorem farthest_le_after (count : Nat) (o : Outlook) (ops : List Caret.Op) :
    o.farthest ≤ (o.after count ops).farthest := by
  induction ops generalizing o with
  | nil => exact Nat.le_refl _
  | cons op ops ih => exact Nat.le_trans (farthest_le_move count o op) (ih (o.move count op))

end Outlook

namespace Caret

/-- The caret stands at the index of the outlook, and has asked for nothing behind the farthest
one.  `i` is the number of moves, which goes on at the end of the text. -/
structure Follows (events : Script) (o : Outlook) (i : Nat) (c : Caret) : Prop where
  reads : c.Reads (Utf8.pieces events.bytes) i
  asked : c.input.Asked events.bytes (i + 1 + c.ahead.toList.length)
  index_eq : o.index = min i (Utf8.decode events.bytes).length
  farthest_eq : o.farthest = min (i + c.ahead.toList.length) (Utf8.decode events.bytes).length

variable {events : Script} {o : Outlook} {i : Nat} {c : Caret}

theorem follows_ofScript (events : Script) :
    (ofSource (.ofScript events)).Follows events { } 0 where
  reads := reads_ofSource (.ofScript events)
  asked := (CharStream.asked_ofScript events).next rfl
  index_eq := (Nat.zero_min _).symm
  farthest_eq := (Nat.zero_min _).symm

theorem length_ahead_le (c : Caret) : c.ahead.toList.length ≤ 1 := by
  cases c.ahead with
  | none => exact Nat.zero_le 1
  | some char? => exact Nat.le_refl 1

theorem length_ahead_lookAhead (c : Caret) : c.lookAhead.2.ahead.toList.length = 1 := by
  cases ha : c.ahead <;> simp [lookAhead, ha]

/-- **One operation.** -/
theorem Follows.apply (h : c.Follows events o i) (op : Op) :
    (c.apply op).2.Follows events (o.move (Utf8.decode events.bytes).length op)
      (i + [op].count .advance) := by
  have hreads := h.reads.apply op
  have hindex := h.index_eq
  have hfarthest := h.farthest_eq
  have hahead := length_ahead_le c
  cases op with
  | advance =>
      refine ⟨hreads, h.reads.advance_input CharStream.Asked.next h.asked, ?_, ?_⟩
      · show min (o.index + 1) _ = min (i + 1) _
        omega
      · show max o.farthest (min (o.index + 1) _) = min (i + 1 + c.advance.ahead.toList.length) _
        rw [ahead_advance, Option.toList_none, List.length_nil]
        omega
  | lookAhead =>
      refine ⟨hreads, h.reads.lookAhead_input CharStream.Asked.next h.asked, hindex, ?_⟩
      show max o.farthest (min (o.index + 1) _) = min (i + c.lookAhead.2.ahead.toList.length) _
      rw [length_ahead_lookAhead]
      omega
  | breakLine => exact ⟨hreads, h.asked, hindex, hfarthest⟩
  | takeFault =>
      have hkeep : c.takeFault.2.input = c.input ∧ c.takeFault.2.ahead = c.ahead := by
        rw [takeFault_eq]
        exact ⟨rfl, rfl⟩
      refine ⟨hreads, ?_, hindex, ?_⟩
      · show c.takeFault.2.input.Asked _ (i + 1 + c.takeFault.2.ahead.toList.length)
        rw [hkeep.1, hkeep.2]
        exact h.asked
      · show o.farthest = min (i + c.takeFault.2.ahead.toList.length) _
        rw [hkeep.2]
        exact hfarthest

/-- **A run of operations.** -/
theorem Follows.after (h : c.Follows events o i) (ops : List Op) :
    ∃ i', (c.after ops).Follows events (o.after (Utf8.decode events.bytes).length ops) i' := by
  induction ops generalizing c o i with
  | nil => exact ⟨i, h⟩
  | cons op ops ih => exact ih (h.apply op)

/-- Behind the end of the text nothing more is demanded. -/
theorem Follows.demand_eq (h : c.Follows events o i) :
    Utf8.demand events.bytes (i + 1 + c.ahead.toList.length) =
      Utf8.demand events.bytes (o.farthest + 1) := by
  have hfarthest := h.farthest_eq
  rw [← Utf8.length_pieces] at hfarthest
  rcases Nat.lt_or_ge (Utf8.pieces events.bytes).length (i + 1 + c.ahead.toList.length) with
    hover | hwithin
  · rw [Utf8.demand_of_length_lt hover]
    congr 1
    omega
  · congr 1
    omega

end Caret

namespace Script

/-- How many bytes of the text some operations have asked for.  To see that the text ends, one byte
more is asked for than there is. -/
def demanded (events : Script) (ops : List Caret.Op) : Nat :=
  Utf8.demand events.bytes
    ((Outlook.after (Utf8.decode events.bytes).length { } ops).farthest + 1)

theorem one_le_demanded (events : Script) (ops : List Caret.Op) : 1 ≤ events.demanded ops := by
  rw [demanded, Utf8.demand, Utf8.reach]
  have hone := Utf8.one_le_wanted (events.bytes.drop (Utf8.offset events.bytes
    (Outlook.after (Utf8.decode events.bytes).length { } ops).farthest))
  omega

/-- Further operations never ask for less. -/
theorem demanded_le_append (events : Script) (ops more : List Caret.Op) :
    events.demanded ops ≤ events.demanded (ops ++ more) := by
  refine Utf8.demand_mono (Nat.succ_le_succ ?_)
  rw [Outlook.after, Outlook.after, List.foldl_append]
  exact Outlook.farthest_le_after _ _ more

end Script

namespace Caret

/-! ### What is left of a script -/

theorem counted_after (events : Script) (ops : List Op) :
    ((ofSource (.ofScript events)).after ops).input.source.Counted events :=
  have hnext : ∀ s : Source, s.Counted events → s.next.2.Counted events :=
    fun _ => Source.counted_next
  (preserved_source hnext).after (source_ofSource hnext (Source.counted_ofScript events)) ops

/-- The source of a caret has given the bytes that were asked for, and has met its ending if there
are fewer. -/
theorem source_after (events : Script) (ops : List Op) :
    let source := ((ofSource (.ofScript events)).after ops).input.source
    source.bytes = events.bytes.drop (events.demanded ops) ∧
      source.isEnded = decide (events.bytes.length < events.demanded ops) := by
  obtain ⟨i, hfollows⟩ := (follows_ofScript events).after ops
  rw [Script.demanded, ← hfollows.demand_eq]
  exact ⟨hfollows.asked.drawn.bytes_eq, hfollows.asked.isEnded_eq⟩

/-! ### When the fault is met -/

/-- The fault has been met when more was asked for than there is. -/
theorem fault?_after_eq_some_iff_lt {events : Script} {cause : Fault} (ops : List Op) :
    ((ofSource (.ofScript events)).after ops).fault? = some cause ↔
      events.ending = .failed cause ∧ events.bytes.length < events.demanded ops := by
  have hending : ((ofSource (.ofScript events)).after ops).input.source.ending = events.ending :=
    (preserved_ending events.ending).after (ending_ofSource (.ofScript events)) ops
  rw [fault?, CharStream.fault?, Source.fault?_eq, (source_after events ops).2, hending]
  by_cases hover : events.bytes.length < events.demanded ops
  · cases hcase : events.ending <;> simp [hover, Ending.fault?]
  · simp [hover]

end Caret

namespace Script

/-- **The read calls go as far as the byte that was wanted, and no farther.**  The call that was
made last is the one that delivers the last byte asked for, or, where there are fewer bytes, the one
that ends the source.  What is asked for never becomes less.  The fault of a source that fails is
there to be taken from the operation on that asked for more bytes than there are, and until it is
taken. -/
theorem calls_until_demanded (events : Script) (ops : List Caret.Op) :
    let c := (Caret.ofSource (.ofScript events)).after ops
    (∃ k, c.reads = k + 1 ∧ ∀ k', events.Supplies (events.demanded ops) k' ↔ k' = k) ∧
      (∀ more, events.demanded ops ≤ events.demanded (ops ++ more)) ∧
      ∀ cause, c.takeFault.1 = some cause ↔
        events.ending = .failed cause ∧ events.bytes.length < events.demanded ops ∧
          ∀ earlier later, ops = earlier ++ .takeFault :: later →
            events.demanded earlier ≤ events.bytes.length := by
  intro c
  refine ⟨?_, events.demanded_le_append ops, ?_⟩
  · obtain ⟨hbytes, hended⟩ := Caret.source_after events ops
    obtain ⟨k, hk, hsupplies⟩ :=
      (Caret.counted_after events ops).exists_reads (events.one_le_demanded ops) hbytes hended
    refine ⟨k, hk, ?_⟩
    intro k'
    constructor
    · intro hsupplies'
      exact hsupplies'.unique hsupplies
    · rintro rfl
      exact hsupplies
  · intro cause
    have hreported := Caret.reported_after_iff (Caret.ofSource (.ofScript events)) ops
    simp only [Caret.reported_ofSource, Bool.false_eq_true, false_or, Option.isSome_iff_exists,
      Caret.fault?_after_eq_some_iff_lt] at hreported
    rw [Caret.fst_takeFault_eq_some_iff, Caret.fault?_after_eq_some_iff_lt, hreported, and_assoc]
    refine and_congr_right fun hending => and_congr_right fun _ => ?_
    -- the cause is the same whenever it is asked for
    constructor
    · intro hnot earlier later hops
      exact Nat.le_of_not_lt fun hover => hnot ⟨earlier, later, hops, cause, hending, hover⟩
    · rintro hwithin ⟨earlier, later, hops, -, -, hover⟩
      exact absurd hover (Nat.not_lt.2 (hwithin earlier later hops))

/-- The bytes that were collected for the first character serve the two behind it, and a character
that is cut short by the end asks for the call that fails. -/
theorem calls_until_demanded_of_truncated :
    let events : Script := [.bytes [0xe2], .fault (.ofKind .interrupted), .bytes [0x82, 0x61],
      .bytes [0x62, 0xf0], .fault (.ofKind .timedOut), .bytes [0x63]]
    let c := (Caret.ofSource (.ofScript events)).after
    let far : List Caret.Op := [.advance, .advance, .advance, .lookAhead]
    (c [.advance, .lookAhead]).reads = 3 ∧ (c [.advance, .lookAhead]).takeFault.1 = none ∧
      (c far).reads = 5 ∧ (c far).takeFault.1 = some (.ofKind .timedOut) := by
  intro events c far
  have hnear : events.demanded [.advance, .lookAhead] = 3 := by decide +kernel
  have hfar : events.demanded far = 8 := by decide +kernel
  obtain ⟨⟨k, hk, hcall⟩, -, hgiven⟩ := calls_until_demanded events [.advance, .lookAhead]
  obtain ⟨⟨k', hk', hcall'⟩, -, hgiven'⟩ := calls_until_demanded events far
  rw [hnear] at hcall
  rw [hfar] at hcall'
  obtain rfl := (hcall 2).1 ⟨by decide +kernel, by decide +kernel, by decide +kernel⟩
  obtain rfl := (hcall' 4).1 ⟨by decide +kernel, by decide +kernel, by decide +kernel⟩
  refine ⟨hk, ?_, hk', (hgiven' _).2 ⟨by decide +kernel, by rw [hfar]; decide +kernel, ?_⟩⟩
  · rw [Option.eq_none_iff_forall_ne_some]
    intro cause hcause
    have hover := ((hgiven cause).1 hcause).2.1
    rw [hnear] at hover
    exact absurd hover (by decide +kernel)
  · intro earlier later hops
    have hmem : Caret.Op.takeFault ∈ far := hops ▸ by simp
    exact absurd hmem (by decide)

end Script

end TokenStream
