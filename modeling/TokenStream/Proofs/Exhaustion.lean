/-
The end of a source is final.

A source can come to its end in several places, one behind the other: the last read call finds it,
bytes that were handed back may still have to be decoded, the caret may have seen the end by a look
while it stands on a character, a fault may wait for its report, and a token may be held.  The end
token says that **none of these has anything left**, and from then on nothing changes any more: no
call is made, every operation answers that nothing is left, and no second report of a fault is
given.

* `Cut.error_of_mem_tokens`, `Scanner.eq_nil_of_error` — only the last token to come can carry an
  error;
* `Scanner.Reply.popped`, `Scanner.Op.nothing` — the tokens behind an answer, and the answer when
  nothing is left;
* `Scanner.Spent`, `Scanner.Reached.spent_of_isEnd` — nothing is left anywhere, and when;
* `Scanner.answers_of_final`, `Scanner.reads_after_of_ends`, `Scanner.countP_error_taken` — the
  answers, the calls and the errors at the end;
* `Scanner.end_is_final` — **what the end of a source means**.
-/

import TokenStream.Proofs.Calls
import TokenStream.Proofs.Queue

set_option relaxedAutoImplicit false
set_option autoImplicit false

namespace TokenStream

/-! ### Errors among the tokens to come -/

/-- No token of a text carries an error. -/
theorem Cut.error_of_mem_tokens {p : Position} {cs : List Char} {t : Token}
    (h : t ∈ Cut.tokens p cs) : t.error = none := by
  fun_induction Cut.tokens p cs with
  | case1 p => exact absurd h (by simp)
  | case2 p c rest hblank ih => exact ih h
  | case3 p c rest hblank ih =>
      rcases List.mem_cons.1 h with rfl | h
      · rfl
      · exact ih h

theorem Caret.preserved_sound : Preserved Sound where
  advance h := h.advance
  lookAhead h := h.lookAhead
  breakLine h := h.breakLine
  takeFault h := h.takeFault

namespace Scanner

/-- The tokens to come are those of the text, and then the report of the fault. -/
theorem queue_ofScript (events : Script) :
    (ofSource (.ofScript events)).queue =
      Cut.tokens .start (Utf8.decode events.bytes) ++
        (events.ending.fault?.map fun cause =>
          .failure cause.message (Position.start.after (Utf8.decode events.bytes))).toList :=
  Source.drain_eq (.ofScript events)

/-- **Only the last token to come can carry an error.** -/
theorem eq_nil_of_error {events : Script} {before behind : List Token} {t : Token}
    (h : (ofSource (.ofScript events)).queue = before ++ t :: behind) (ht : t.error.isSome) :
    behind = [] := by
  cases behind with
  | nil => rfl
  | cons u behind =>
      -- a token in front of another one is a token of the text
      have hmem : t ∈ (ofSource (.ofScript events)).queue.dropLast := by
        rw [h, List.dropLast_append_cons]
        exact List.mem_append_right _ List.mem_cons_self
      have htext : t ∈ Cut.tokens .start (Utf8.decode events.bytes) := by
        rw [queue_ofScript] at hmem
        cases hfault : events.ending.fault? with
        | none =>
            rw [hfault, Option.map_none, Option.toList_none, List.append_nil] at hmem
            exact (List.dropLast_sublist _).subset hmem
        | some cause =>
            rw [hfault, Option.map_some, Option.toList_some, List.dropLast_concat] at hmem
            exact hmem
      rw [Cut.error_of_mem_tokens htext] at ht
      exact absurd ht (by decide)

/-- One token to come carries an error if the source fails, and none otherwise. -/
theorem countP_error_queue (events : Script) :
    (ofSource (.ofScript events)).queue.countP (·.error.isSome) =
      events.ending.fault?.toList.length := by
  have htext : (Cut.tokens .start (Utf8.decode events.bytes)).countP (·.error.isSome) = 0 := by
    rw [List.countP_eq_zero]
    intro t ht
    simp [Cut.error_of_mem_tokens ht]
  rw [queue_ofScript, List.countP_append, htext]
  cases events.ending.fault? <;> rfl

/-! ### Answers at the end -/

/-- The tokens that were looked at or taken for an answer: an answer without a token stands for the
end token, and draining goes on up to it. -/
def Reply.popped : Reply → List Token
  | token t => [t]
  | yielded token? => [token?.getD .endOfStream]
  | drained ts => ts ++ [.endOfStream]

/-- The answer to an operation when nothing is left. -/
def Op.nothing : Op → Reply
  | peek | take => .token .endOfStream
  | next => .yielded none
  | drain => .drained []

theorem queueAnswers_nil (ops : List Op) : queueAnswers [] ops = ops.map Op.nothing := by
  induction ops with
  | nil => rfl
  | cons op ops ih => cases op <;> exact congrArg _ ih

variable {s : Scanner} {op : Op} {ts : List Token} {t : Token}

/-- An end token behind an answer is the default one, and it is met only at the end. -/
theorem Op.popped_onQueue_of_isEnd (hts : ∀ t ∈ ts, t.isEnd = false)
    (ht : t ∈ (op.onQueue ts).1.popped) (hend : t.isEnd = true) :
    t = .endOfStream ∧ (ts = [] ∨ op = .drain) := by
  have hnot : t ∉ ts := fun hmem => absurd (hts t hmem) (by simp [hend])
  cases op with
  | drain =>
      rcases List.mem_append.1 ht with ht | ht
      · exact absurd ht hnot
      · exact ⟨List.mem_singleton.1 ht, Or.inr rfl⟩
  | peek | take | next =>
      cases ts with
      | nil => exact ⟨List.mem_singleton.1 ht, Or.inl rfl⟩
      | cons first rest =>
          obtain rfl : t = first := List.mem_singleton.1 ht
          exact absurd List.mem_cons_self hnot

/-- Nothing is to come behind an end token, and behind an error if it is the last to come. -/
theorem Op.onQueue_eq_nil (hop : op.consumes = true) (hts : ∀ t ∈ ts, t.isEnd = false)
    (hlast : ∀ t rest, ts = t :: rest → t.error.isSome → rest = [])
    (ht : t ∈ (op.onQueue ts).1.popped) (hfinal : t.isEnd = true ∨ t.error.isSome) :
    (op.onQueue ts).2 = [] := by
  cases ts with
  | nil => cases op <;> rfl
  | cons first rest =>
      cases op with
      | peek => exact absurd hop (by decide)
      | drain => rfl
      | take | next =>
          obtain rfl : t = first := List.mem_singleton.1 ht
          rcases hfinal with hend | herror
          · exact absurd (hts t List.mem_cons_self) (by simp [hend])
          · exact hlast t rest rfl herror

/-! ### Where nothing is left -/

/-- What is known of every state that a scanner of the given script can reach. -/
structure Reached (events : Script) (s : Scanner) : Prop where
  genuine : s.Genuine
  sound : s.caret.Sound
  ending_eq : s.caret.ending = events.ending

/-- Nothing is left anywhere: no token is held, no character is kept, no byte waits to be decoded,
to be handed out or to be delivered, and no fault waits for its report. -/
structure Spent (events : Script) (s : Scanner) : Prop where
  held_eq : s.held = none
  current_eq : s.caret.current = none
  ahead_eq : s.caret.ahead.join = none
  pending_eq : s.caret.input.pending = []
  buffer_eq : s.caret.input.source.buffer = []
  supply_eq : s.caret.input.source.supply.bytes = []
  takeFault_eq : s.caret.takeFault.1 = none
  reported_of_failed : ∀ cause, events.ending = .failed cause → s.caret.reported = true

variable {events : Script}

theorem reached_ofScript (events : Script) : Reached events (ofSource (.ofScript events)) where
  genuine := genuine_ofSource _
  sound := Caret.sound_ofSource _
  ending_eq := Caret.ending_ofSource _

theorem Reached.apply (h : Reached events s) (op : Op) : Reached events (s.apply op).2 where
  genuine := (h.genuine.apply op).2.2
  sound := preserved_apply Caret.preserved_sound h.sound op
  ending_eq := preserved_apply (Caret.preserved_ending _) h.ending_eq op

theorem Reached.after (h : Reached events s) (ops : List Op) : Reached events (s.after ops) where
  genuine := h.genuine.after ops
  sound := preserved_after Caret.preserved_sound h.sound ops
  ending_eq := preserved_after (Caret.preserved_ending _) h.ending_eq ops

/-- A fetch for an empty queue finds nothing left anywhere. -/
theorem Reached.spent_fetch (h : Reached events s) (hqueue : s.queue = []) :
    Spent events s.fetch := by
  have hfetch : s.fetch.held = none :=
    congrArg (fun x => x.2.held) (h.genuine.take_of_queue_nil hqueue).symm
  have hheld : s.held = none := by
    cases hheld : s.held with
    | none => rfl
    | some t => exact absurd (hheld.symm.trans (fetch_of_held hheld ▸ hfetch)) (by simp)
  rw [fetch_of_none hheld] at hfetch ⊢
  obtain ⟨hcurrent, hfault, hsnd⟩ := Caret.scan_none hfetch
  have hsound := Caret.preserved_sound.skipBlanks h.sound
  obtain ⟨hahead, hended⟩ := hsound.of_current hcurrent
  have hbytes := hended.bytes_eq
  rw [CharStream.bytes, Source.bytes, List.append_eq_nil_iff, List.append_eq_nil_iff] at hbytes
  rw [hsnd]
  refine ⟨hfetch, hcurrent, hahead, hbytes.1, hbytes.2.1, hbytes.2.2, hfault, ?_⟩
  intro cause hcause
  -- the fault has been met, and yet it is not given away
  have hending : s.caret.skipBlanks.ending = .failed cause :=
    ((Caret.preserved_ending _).skipBlanks h.ending_eq).trans hcause
  have hmet : s.caret.skipBlanks.fault? = some cause := by
    rw [hsound.fault?_of_text_nil (hsound.text_of_current_none hcurrent), hending]
    rfl
  rw [Caret.takeFault_eq, hmet] at hfault
  simpa using hfault

/-- **Nothing is left anywhere** behind an operation on an empty queue, and behind a drain. -/
theorem Reached.spent_apply (h : Reached events s) (hdone : s.queue = [] ∨ op = .drain) :
    Spent events (s.apply op).2 := by
  have hqueue : (s.apply op).2.queue = [] := by
    rw [(h.genuine.apply op).2.1]
    rcases hdone with hnil | rfl
    · rw [hnil]
      cases op <;> rfl
    · rfl
  have hfixed : (s.apply op).2.fetch = (s.apply op).2 := by
    rcases hdone with hnil | rfl
    · have htake : s.take.2 = s.fetch :=
        congrArg Prod.snd (h.genuine.take_of_queue_nil hnil)
      cases op with
      | peek => exact fetch_fetch s
      | take | next =>
          change s.take.2.fetch = s.take.2
          rw [htake, fetch_fetch]
      | drain => exact h.genuine.drain.2.2.2
    · exact h.genuine.drain.2.2.2
  rw [← hfixed]
  exact (h.apply op).spent_fetch hqueue

/-- **What an end token says**: that nothing is left anywhere. -/
theorem Reached.spent_of_isEnd (h : Reached events s) (ht : t ∈ (s.apply op).1.popped)
    (hend : t.isEnd = true) : t = .endOfStream ∧ Spent events (s.apply op).2 := by
  rw [(h.genuine.apply op).1] at ht
  obtain ⟨rfl, hdone⟩ := Op.popped_onQueue_of_isEnd h.genuine.drain.1 ht hend
  exact ⟨rfl, h.spent_apply hdone⟩

/-- **Nothing is answered any more** once an end token or an error has been taken. -/
theorem answers_of_final {ops : List Op} (hop : op.consumes = true)
    (ht : t ∈ (((ofSource (.ofScript events)).after ops).apply op).1.popped)
    (hfinal : t.isEnd = true ∨ t.error.isSome) (ops' : List Op) :
    (((ofSource (.ofScript events)).after ops).apply op).2.answers ops' = ops'.map Op.nothing := by
  have hs := (reached_ofScript events).genuine
  have hafter := hs.after ops
  have hlast : ∀ t rest, ((ofSource (.ofScript events)).after ops).queue = t :: rest →
      t.error.isSome → rest = [] := by
    intro t rest hcons herror
    have hsplit := hs.taken_append_queue ops
    rw [hcons] at hsplit
    exact eq_nil_of_error hsplit.symm herror
  obtain ⟨hreply, hqueue, hgenuine⟩ := hafter.apply op
  rw [hreply] at ht
  rw [hgenuine.answers_eq, hqueue, Op.onQueue_eq_nil hop hafter.drain.1 hlast ht hfinal,
    queueAnswers_nil]

/-! ### Calls -/

/-- Once a call has ended the source, it stays the last one. -/
theorem reads_after_of_ends {ops : List Op} {i : Nat}
    (hi : i < ((ofSource (.ofScript events)).after ops).reads)
    (hends : (events.call i).ends = true) (ops' : List Op) :
    ((ofSource (.ofScript events)).after (ops ++ ops')).reads = i + 1 := by
  have hplayed := preserved_after (Caret.preserved_played events) (Caret.played_ofScript events)
    (s := ofSource (.ofScript events)) ops
  obtain ⟨⟨ending, hsupply⟩, hreads⟩ := hplayed.of_ends hi hends
  rw [after_append]
  exact (preserved_after (Caret.preserved_reads_of_ended ending (i + 1)) ⟨hsupply, hreads⟩ ops').2

/-! ### Errors handed out -/

/-- What was handed out and what is to come hold one error if the source fails, and none
otherwise. -/
theorem countP_error_taken (events : Script) (ops : List Op) :
    ((ofSource (.ofScript events)).taken ops).countP (·.error.isSome) +
      ((ofSource (.ofScript events)).after ops).queue.countP (·.error.isSome) =
        events.ending.fault?.toList.length := by
  have hsplit := (genuine_ofSource (.ofScript events)).taken_append_queue ops
  rw [← countP_error_queue, ← hsplit, List.countP_append]

/-- A source that fails has handed out one error when no token is to come any more. -/
theorem countP_error_taken_of_failed {ops : List Op} (hfails : events.ending ≠ .clean)
    (hqueue : ((ofSource (.ofScript events)).after ops).queue = []) :
    ((ofSource (.ofScript events)).taken ops).countP (·.error.isSome) = 1 := by
  have hcount := countP_error_taken events ops
  have hone : events.ending.fault?.toList.length = 1 := by
    cases hending : events.ending with
    | clean => exact absurd hending hfails
    | failed cause => rfl
  rwa [hqueue, List.countP_nil, Nat.add_zero, hone] at hcount

/-! ### The end -/

/-- **The end of a source is final.**  Once a call has ended the source, no further call is made,
whatever is asked.  An end token is the default token, and is met only where nothing is left
anywhere.  Once it or the token with the error has been taken, every operation answers that nothing
is left.  And of all tokens handed out at most one carries an error, exactly one if a source that
fails is drained or has nothing more to give. -/
theorem end_is_final (events : Script) :
    let s := ofSource (.ofScript events)
    (∀ ops ops' i, i < (s.after ops).reads → (events.call i).ends = true →
      (s.after (ops ++ ops')).reads = i + 1) ∧
    (∀ ops op, ∀ t ∈ ((s.after ops).apply op).1.popped, t.isEnd = true →
      t = .endOfStream ∧ Spent events (s.after (ops ++ [op]))) ∧
    (∀ ops op ops', op.consumes = true →
      (∃ t ∈ ((s.after ops).apply op).1.popped, t.isEnd = true ∨ t.error.isSome) →
      (s.after (ops ++ [op])).answers ops' = ops'.map Op.nothing) ∧
    ∀ ops, (s.taken ops).countP (·.error.isSome) ≤ 1 ∧
      (events.ending ≠ .clean → .drain ∈ ops ∨ (s.after ops).peek.1.isEnd = true →
        (s.taken ops).countP (·.error.isSome) = 1) := by
  intro s
  have hs : Reached events s := reached_ofScript events
  refine ⟨?_, ?_, ?_, ?_⟩
  · intro ops ops' i hi hends
    exact reads_after_of_ends hi hends ops'
  · intro ops op t ht hend
    rw [after_append]
    exact (hs.after ops).spent_of_isEnd ht hend
  · intro ops op ops' hop ⟨t, ht, hfinal⟩
    rw [after_append]
    exact answers_of_final hop ht hfinal ops'
  · intro ops
    have hcount : (s.taken ops).countP (·.error.isSome) +
        (s.after ops).queue.countP (·.error.isSome) = events.ending.fault?.toList.length :=
      countP_error_taken events ops
    have hle : events.ending.fault?.toList.length ≤ 1 := by cases events.ending.fault? <;> simp
    refine ⟨by omega, ?_⟩
    intro hfails hdone
    refine countP_error_taken_of_failed hfails ?_
    rcases hdone with hdrain | hend
    · exact hs.genuine.queue_after_of_drain hdrain
    · exact (hs.genuine.after ops).queue_eq_nil_of_peek hend

/-- A fault that is met by the look behind an equals sign, with bytes behind it in the script. -/
theorem end_is_final_of_failing :
    let events : Script := [.bytes [0x3d], .fault (.ofKind .interrupted),
      .fault (.ofKind .timedOut), .bytes [0x62]]
    let s := ofSource (.ofScript events)
    let report := Token.failure "timed out" ⟨1, 2⟩
    (2 < (s.after [.take]).reads ∧ (events.call 2).ends = true ∧
      (s.after ([.take] ++ [.drain, .peek])).reads = 3) ∧
    (.endOfStream ∈ ((s.after [.take, .next]).apply .peek).1.popped ∧
      Spent events (s.after ([.take, .next] ++ [.peek]))) ∧
    (report ∈ ((s.after [.take]).apply .next).1.popped ∧ report.error.isSome ∧
      (s.after ([.take] ++ [.next])).answers [.peek, .take, .next, .drain] =
        [.token .endOfStream, .token .endOfStream, .yielded none, .drained []]) ∧
    events.ending ≠ .clean ∧ (s.taken [.peek, .drain]).countP (·.error.isSome) = 1 := by
  intro events s report
  obtain ⟨hcalls, hends, hanswers, herrors⟩ := end_is_final events
  have hmade : 2 < (s.after [.take]).reads := by decide +kernel
  have hcall : (events.call 2).ends = true := by decide +kernel
  have hend : .endOfStream ∈ ((s.after [.take, .next]).apply .peek).1.popped := by decide +kernel
  have hreport : report ∈ ((s.after [.take]).apply .next).1.popped := by decide +kernel
  have hfails : events.ending ≠ .clean := by decide
  refine ⟨⟨hmade, hcall, hcalls _ _ _ hmade hcall⟩, ⟨hend, ?_⟩, ⟨hreport, rfl, ?_⟩, hfails, ?_⟩
  · exact (hends _ _ _ hend rfl).2
  · exact hanswers _ _ _ rfl ⟨report, hreport, Or.inr rfl⟩
  · exact (herrors _).2 hfails (Or.inl (by decide))

end Scanner

end TokenStream
