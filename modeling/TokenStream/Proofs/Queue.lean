/-
A scanner is a queue of tokens.

A scanner keeps one token back, and only sometimes: at the end of the text nothing is kept, and
every look at the next token scans again.  Looking also moves the caret over blanks, reads ahead,
and may meet or report a fault.  For a user none of this exists.  There is a **queue of tokens to
come**, looking shows its front, taking removes the front, and an empty queue is answered with the
end token.

Two facts carry this.  A scan that finds nothing leaves a caret at which the next scan finds nothing
either and changes nothing, so that *making sure that the next token is held* is done once and for
all (`Scanner.fetch_fetch`).  And a scan never finds an end token, so that an end token always says
that the queue is empty.

* `Caret.scan_of_scan_none`, `Caret.isEnd_of_scan` — the two facts about a scan;
* `Scanner.after`, `Scanner.answers`, `Scanner.taken` — the state, the answers and the tokens that a
  run of operations leads to;
* `Scanner.preserved_after` — what the operations of a caret preserve, a run preserves;
* `Scanner.apply_fetch`, `Scanner.fetch_after` — looking ahead of time makes no difference;
* `Scanner.queue`, `Scanner.Op.onQueue` — the tokens to come, and the operations on a queue;
* `Scanner.Genuine.apply`, `Scanner.Genuine.answers_eq` — **one operation and a run of operations**;
* `Scanner.looking_is_free` — what a user can rely on.
-/

import TokenStream.Proofs.Reading

set_option relaxedAutoImplicit false
set_option autoImplicit false

namespace TokenStream

namespace Caret

variable {c : Caret}

/-! ### What a scan finds -/

theorem skipBlanks_skipBlanks (c : Caret) : c.skipBlanks.skipBlanks = c.skipBlanks :=
  skipBlanks_of_not_blank fun _ hchar => isBlank_current_skipBlanks hchar

/-- A fault that is not given away leaves the caret as it is. -/
theorem takeFault_of_none (h : c.takeFault.1 = none) : c.takeFault.2 = c := by
  rw [takeFault_eq] at h ⊢
  have hsame : (c.reported || c.fault?.isSome) = c.reported := by
    cases hreported : c.reported with
    | true => rfl
    | false =>
        have hfault : c.fault? = none := by simpa [hreported] using h
        simp [hfault]
  rw [hsame]

/-- Nothing is found only where the text ends and there is nothing to report. -/
theorem scan_none (h : c.scan.1 = none) :
    c.skipBlanks.current = none ∧ c.skipBlanks.takeFault.1 = none ∧ c.scan.2 = c.skipBlanks := by
  rw [scan, tokenHere] at h ⊢
  cases hc : c.skipBlanks.current with
  | some char => cases hkind : Kind.ofSymbol? char <;> simp [hc, hkind] at h
  | none =>
      have hfault : c.skipBlanks.takeFault.1 = none := by simpa [hc, failure?] using h
      exact ⟨rfl, hfault, takeFault_of_none hfault⟩

/-- **Where nothing was found, nothing will be found**, and looking again changes nothing. -/
theorem scan_of_scan_none (h : c.scan.1 = none) : c.scan.2.scan = (none, c.scan.2) := by
  obtain ⟨hc, hfault, hsnd⟩ := scan_none h
  rw [hsnd, scan, skipBlanks_skipBlanks, tokenHere, hc]
  simp only [failure?]
  rw [hfault, takeFault_of_none hfault]
  rfl

theorem isEnd_of_takeSymbol {first : Char} {kind : Kind} (hkind : kind ≠ .unknown) :
    (c.takeSymbol first kind).1.isEnd = false := by
  have hpair : ∀ second pairKind, Kind.ofPair? first second = some pairKind →
      pairKind ≠ .unknown := by
    intro second pairKind h
    obtain ⟨-, -, rfl⟩ := Kind.ofPair?_eq_some_iff.1 h
    decide
  unfold takeSymbol
  split
  split
  · rename_i hsome
    obtain ⟨second, -, h⟩ := Option.bind_eq_some_iff.1 hsome
    simp [Token.isEnd, hpair second _ h]
  · simp [Token.isEnd, hkind]

/-- **An end token is never found.** -/
theorem isEnd_of_scan {t : Token} (h : c.scan.1 = some t) : t.isEnd = false := by
  rw [scan, tokenHere] at h
  cases hc : c.skipBlanks.current with
  | none =>
      have hreport : c.skipBlanks.failure?.1 = some t := by simpa [hc] using h
      obtain ⟨cause, -, rfl⟩ := Option.map_eq_some_iff.1 hreport
      rfl
  | some char =>
      cases hkind : Kind.ofSymbol? char with
      | none =>
          obtain rfl : c.skipBlanks.takeWord.1 = t := by simpa [hc, hkind] using h
          rfl
      | some kind =>
          obtain rfl : (c.skipBlanks.takeSymbol char kind).1 = t := by simpa [hc, hkind] using h
          refine isEnd_of_takeSymbol ?_
          rcases Kind.ofSymbol?_eq_some_iff.1 hkind with ⟨-, rfl⟩ | ⟨-, rfl⟩
          · decide
          · decide

end Caret

namespace Scanner

variable {s : Scanner}

/-! ### Runs of operations -/

/-- The state after some operations. -/
def after (s : Scanner) : List Op → Scanner
  | [] => s
  | op :: ops => (s.apply op).2.after ops

/-- The answers to some operations. -/
def answers (s : Scanner) (ops : List Op) : List Reply := (s.trace ops).map Prod.fst

/-- Whether an operation takes tokens, and does not only look. -/
def Op.consumes : Op → Bool
  | peek => false
  | take | next | drain => true

/-- The tokens that are handed out by an operation which answers with the given reply; an end token
is none. -/
def Op.taken : Op → Reply → List Token
  | .peek, _ => []
  | _, .token t => if t.isEnd then [] else [t]
  | _, .yielded token? => token?.toList
  | _, .drained ts => ts

/-- The tokens that are handed out by some operations. -/
def taken (s : Scanner) : List Op → List Token
  | [] => []
  | op :: ops => op.taken (s.apply op).1 ++ (s.apply op).2.taken ops

/-- The token that an answer names first, which is the end token if it names none. -/
def Reply.first : Reply → Token
  | token t => t
  | yielded token? => token?.getD .endOfStream
  | drained ts => ts.head?.getD .endOfStream

@[simp] theorem after_nil (s : Scanner) : s.after [] = s := rfl

@[simp] theorem after_cons (s : Scanner) (op : Op) (ops : List Op) :
    s.after (op :: ops) = (s.apply op).2.after ops := rfl

theorem after_append (s : Scanner) (ops ops' : List Op) :
    s.after (ops ++ ops') = (s.after ops).after ops' := by
  induction ops generalizing s with
  | nil => rfl
  | cons op ops ih => exact ih (s.apply op).2

@[simp] theorem answers_nil (s : Scanner) : s.answers [] = [] := rfl

@[simp] theorem answers_cons (s : Scanner) (op : Op) (ops : List Op) :
    s.answers (op :: ops) = (s.apply op).1 :: (s.apply op).2.answers ops := rfl

@[simp] theorem taken_nil (s : Scanner) : s.taken [] = [] := rfl

@[simp] theorem taken_cons (s : Scanner) (op : Op) (ops : List Op) :
    s.taken (op :: ops) = op.taken (s.apply op).1 ++ (s.apply op).2.taken ops := rfl

/-! ### What a run preserves -/

section

variable {P : Caret → Prop}

theorem preserved_fetch (hP : Caret.Preserved P) (h : P s.caret) : P s.fetch.caret := by
  cases hheld : s.held with
  | some t => simpa [fetch, hheld] using h
  | none => simpa [fetch, hheld] using hP.scan h

/-- What taking a token preserves, taking all of them preserves. -/
theorem drainOnto_of_take {Q : Scanner → Prop} (hQ : ∀ s : Scanner, Q s → Q s.take.2)
    (taken : Array Token) (h : Q s) : Q (drainOnto taken s).2 := by
  fun_induction drainOnto taken s with
  | case1 taken s s' hnext =>
      obtain rfl : s.take.2 = s' := congrArg Prod.snd hnext
      exact hQ s h
  | case2 taken s t s' hnext ih =>
      obtain rfl : s.take.2 = s' := congrArg Prod.snd hnext
      exact ih (hQ s h)

/-- What the operations of a caret preserve, those of a scanner preserve. -/
theorem preserved_apply (hP : Caret.Preserved P) (h : P s.caret) (op : Op) :
    P (s.apply op).2.caret := by
  cases op with
  | peek => exact preserved_fetch hP h
  | take => exact preserved_fetch hP h
  | next => exact preserved_fetch hP h
  | drain =>
      exact drainOnto_of_take (Q := fun s => P s.caret) (fun _ => preserved_fetch hP) #[] h

theorem preserved_after (hP : Caret.Preserved P) (h : P s.caret) (ops : List Op) :
    P (s.after ops).caret := by
  induction ops generalizing s with
  | nil => exact h
  | cons op ops ih => exact ih (preserved_apply hP h op)

end

/-! ### Looking ahead of time -/

theorem fetch_of_held {t : Token} (h : s.held = some t) : s.fetch = s := by
  simp [fetch, h]

theorem fetch_of_none (h : s.held = none) : s.fetch = ⟨s.caret.scan.2, s.caret.scan.1⟩ := by
  simp [fetch, h]

/-- **The next token is fetched once and for all.** -/
theorem fetch_fetch (s : Scanner) : s.fetch.fetch = s.fetch := by
  cases hheld : s.held with
  | some t => rw [fetch_of_held hheld, fetch_of_held hheld]
  | none =>
      rw [fetch_of_none hheld]
      cases hscan : s.caret.scan.1 with
      | some t => rfl
      | none =>
          -- at the end nothing is held, and the second scan finds the same nothing
          rw [fetch_of_none rfl, Caret.scan_of_scan_none hscan]

theorem peek_fetch (s : Scanner) : s.fetch.peek = s.peek := by
  rw [peek, peek, fetch_fetch]

theorem take_fetch (s : Scanner) : s.fetch.take = s.take := by
  rw [take, take, fetch_fetch]

theorem next?_fetch (s : Scanner) : s.fetch.next? = s.next? := by
  rw [next?, next?, take_fetch]

/-- No operation depends on whether the next token has been fetched. -/
theorem apply_fetch (s : Scanner) (op : Op) : s.fetch.apply op = s.apply op := by
  cases op with
  | peek => rw [apply, apply, peek_fetch]
  | take => rw [apply, apply, take_fetch]
  | next => rw [apply, apply, next?_fetch]
  | drain => rw [apply, apply, drain_congr (next?_fetch s)]

theorem fetch_after_fetch (s : Scanner) (ops : List Op) :
    (s.fetch.after ops).fetch = (s.after ops).fetch := by
  cases ops with
  | nil => exact fetch_fetch s
  | cons op ops => rw [after_cons, after_cons, apply_fetch]

/-- **But for the next token being held, only the operations that take tokens count.** -/
theorem fetch_after (s : Scanner) (ops : List Op) :
    (s.after ops).fetch = (s.after (ops.filter Op.consumes)).fetch := by
  induction ops generalizing s with
  | nil => rfl
  | cons op ops ih =>
      cases hop : op.consumes with
      | true =>
          rw [List.filter_cons_of_pos hop, after_cons, after_cons]
          exact ih (s.apply op).2
      | false =>
          obtain rfl : op = .peek := by cases op <;> simp_all [Op.consumes]
          have hpeek : (s.apply .peek).2 = s.fetch := rfl
          rw [List.filter_cons_of_neg (by simp [Op.consumes]), after_cons, hpeek,
            fetch_after_fetch, ih]

/-- Runs with the same takes lead to states that answer alike, and a further take leads to the same
state. -/
theorem apply_after_congr {ops ops' : List Op}
    (h : ops.filter Op.consumes = ops'.filter Op.consumes) (op : Op) :
    (s.after ops).apply op = (s.after ops').apply op := by
  rw [← apply_fetch, fetch_after, h, ← fetch_after, apply_fetch]

/-! ### The queue -/

/-- The tokens to come. -/
def queue (s : Scanner) : List Token := s.drain.1

/-- What an operation answers when exactly the given tokens are to come, and what is to come
then. -/
def Op.onQueue : Op → List Token → Reply × List Token
  | .peek, ts => (.token (ts.head?.getD .endOfStream), ts)
  | .take, ts => (.token (ts.head?.getD .endOfStream), ts.tail)
  | .next, ts => (.yielded ts.head?, ts.tail)
  | .drain, ts => (.drained ts, [])

/-- A token that is held is no end token. -/
def Genuine (s : Scanner) : Prop := ∀ t, s.held = some t → t.isEnd = false

theorem genuine_ofSource (source : Source) : (ofSource source).Genuine := nofun

theorem Genuine.fetch (h : s.Genuine) : s.fetch.Genuine := by
  intro t ht
  cases hheld : s.held with
  | some t' =>
      rw [fetch_of_held hheld] at ht
      exact h t ht
  | none =>
      rw [fetch_of_none hheld] at ht
      exact Caret.isEnd_of_scan ht

theorem genuine_take (s : Scanner) : s.take.2.Genuine := nofun

theorem fst_peek (s : Scanner) : s.peek.1 = s.take.1 := rfl

theorem next?_eq (s : Scanner) :
    s.next? = (if s.take.1.isEnd then none else some s.take.1, s.take.2) := rfl

/-- The end token is taken and none is to come, or the token that is taken was in front of the
tokens to come. -/
theorem Genuine.take_cases (h : s.Genuine) :
    s.take = (.endOfStream, s.fetch) ∧ s.queue = [] ∨
      s.take.1.isEnd = false ∧ s.queue = s.take.1 :: s.take.2.queue := by
  cases hheld : s.fetch.held with
  | some t =>
      have htake : s.take.1 = t := by rw [take, hheld, Option.getD_some]
      have hend : s.take.1.isEnd = false := by
        rw [htake]
        exact h.fetch t hheld
      have hnext : s.next? = (some s.take.1, s.take.2) := by
        rw [next?_eq, if_neg (by simp [hend])]
      exact Or.inr ⟨hend, congrArg Prod.fst (drain_of_some hnext)⟩
  | none =>
      have htake : s.take = (.endOfStream, s.fetch) := by
        rw [take, hheld, Option.getD_none]
        exact congrArg (Token.endOfStream, ·) (by rw [← hheld])
      have hnext : s.next? = (none, s.fetch) := by
        rw [next?_eq, htake]
        rfl
      exact Or.inl ⟨htake, congrArg Prod.fst (drain_of_none hnext)⟩

/-- From an empty queue the end token is taken, and no more is done than to look. -/
theorem Genuine.take_of_queue_nil (h : s.Genuine) (hqueue : s.queue = []) :
    s.take = (.endOfStream, s.fetch) := by
  rcases h.take_cases with ⟨htake, -⟩ | ⟨-, hcons⟩
  · exact htake
  · exact absurd (hcons.symm.trans hqueue) (List.cons_ne_nil _ _)

/-- An end token is shown only by an empty queue. -/
theorem Genuine.queue_eq_nil_of_peek (h : s.Genuine) (hend : s.peek.1.isEnd = true) :
    s.queue = [] := by
  rw [fst_peek] at hend
  rcases h.take_cases with ⟨-, hqueue⟩ | ⟨hnot, -⟩
  · exact hqueue
  · exact absurd hend (by simp [hnot])

/-- Looking leaves the queue alone. -/
theorem queue_fetch (s : Scanner) : s.fetch.queue = s.queue :=
  congrArg Prod.fst (drain_congr (next?_fetch s))

/-- Taking takes the front of the queue. -/
theorem Genuine.take (h : s.Genuine) :
    s.take.1 = s.queue.head?.getD .endOfStream ∧ s.take.2.queue = s.queue.tail := by
  rcases h.take_cases with ⟨htake, hqueue⟩ | ⟨-, hqueue⟩
  · rw [htake, queue_fetch, hqueue]
    exact ⟨rfl, rfl⟩
  · rw [hqueue]
    exact ⟨rfl, rfl⟩

theorem Genuine.next? (h : s.Genuine) :
    s.next?.1 = s.queue.head? ∧ s.next?.2.queue = s.queue.tail := by
  refine ⟨?_, h.take.2⟩
  rcases h.take_cases with ⟨htake, hqueue⟩ | ⟨hend, hqueue⟩
  · rw [next?_eq, htake, hqueue]
    rfl
  · rw [next?_eq, hqueue, hend]
    rfl

theorem Genuine.queue_of_next?_none (h : s.Genuine) (hnext : s.next?.1 = none) : s.queue = [] := by
  rw [← List.head?_eq_none_iff, ← h.next?.1, hnext]

/-- A token that is asked for was the front of the queue. -/
theorem Genuine.queue_of_next?_some {t : Token} (h : s.Genuine) (hnext : s.next?.1 = some t) :
    s.queue = t :: s.next?.2.queue := by
  obtain ⟨rest, hrest⟩ := List.head?_eq_some_iff.1 (h.next?.1.symm.trans hnext)
  rw [h.next?.2, hrest]
  rfl

/-- What is to come holds no end token; draining leaves nothing, and nothing to be fetched. -/
theorem Genuine.drain (h : s.Genuine) :
    (∀ t ∈ s.queue, t.isEnd = false) ∧ s.drain.2.queue = [] ∧ s.drain.2.Genuine ∧
      s.drain.2.fetch = s.drain.2 := by
  -- on the queue, which loses its front with each token that is taken
  generalize hts : s.queue = ts
  induction ts generalizing s with
  | nil =>
      have hnext : s.next? = (none, s.fetch) := by
        rw [next?_eq, h.take_of_queue_nil hts]
        rfl
      rw [drain_of_none hnext]
      exact ⟨by simp, (queue_fetch s).trans hts, h.fetch, fetch_fetch s⟩
  | cons t ts ih =>
      rcases h.take_cases with ⟨-, hqueue⟩ | ⟨hend, hqueue⟩
      · exact absurd (hts.symm.trans hqueue) (List.cons_ne_nil _ _)
      · obtain ⟨rfl, hts'⟩ := List.cons.inj (hts.symm.trans hqueue)
        have hnext : s.next? = (some s.take.1, s.take.2) := by
          rw [next?_eq, if_neg (by simp [hend])]
        obtain ⟨hmem, hdone⟩ := ih (genuine_take s) hts'.symm
        rw [drain_of_some hnext]
        refine ⟨?_, hdone⟩
        intro t ht
        rcases List.mem_cons.1 ht with rfl | ht
        · exact hend
        · exact hmem t ht

/-- **One operation** is that of a queue. -/
theorem Genuine.apply (h : s.Genuine) (op : Op) :
    (s.apply op).1 = (op.onQueue s.queue).1 ∧ (s.apply op).2.queue = (op.onQueue s.queue).2 ∧
      (s.apply op).2.Genuine := by
  cases op with
  | peek => exact ⟨congrArg Reply.token h.take.1, queue_fetch s, h.fetch⟩
  | take => exact ⟨congrArg Reply.token h.take.1, h.take.2, genuine_take s⟩
  | next => exact ⟨congrArg Reply.yielded h.next?.1, h.next?.2, genuine_take s⟩
  | drain => exact ⟨rfl, h.drain.2.1, h.drain.2.2.1⟩

theorem Genuine.after (h : s.Genuine) (ops : List Op) : (s.after ops).Genuine := by
  induction ops generalizing s with
  | nil => exact h
  | cons op ops ih => exact ih (h.apply op).2.2

/-- The answers to some operations when exactly the given tokens are to come. -/
def queueAnswers (ts : List Token) : List Op → List Reply
  | [] => []
  | op :: ops => (op.onQueue ts).1 :: queueAnswers (op.onQueue ts).2 ops

/-- **A run of operations** is answered as by a queue. -/
theorem Genuine.answers_eq (h : s.Genuine) (ops : List Op) :
    s.answers ops = queueAnswers s.queue ops := by
  induction ops generalizing s with
  | nil => rfl
  | cons op ops ih =>
      obtain ⟨hreply, hqueue, h'⟩ := h.apply op
      rw [answers_cons, queueAnswers, hreply, ih h', hqueue]

/-! ### What is taken -/

/-- Taking splits the queue. -/
theorem Op.taken_append_onQueue (op : Op) {ts : List Token} (h : ∀ t ∈ ts, t.isEnd = false) :
    op.taken (op.onQueue ts).1 ++ (op.onQueue ts).2 = ts := by
  cases ts with
  | nil => cases op <;> rfl
  | cons t ts =>
      have ht : t.isEnd = false := h t List.mem_cons_self
      cases op <;> simp [taken, onQueue, ht]

/-- **What has been taken, followed by what is to come, is always the same.** -/
theorem Genuine.taken_append_queue (h : s.Genuine) (ops : List Op) :
    s.taken ops ++ (s.after ops).queue = s.queue := by
  induction ops generalizing s with
  | nil => rfl
  | cons op ops ih =>
      obtain ⟨hreply, hqueue, h'⟩ := h.apply op
      rw [taken_cons, after_cons, List.append_assoc, ih h', hreply, hqueue]
      exact op.taken_append_onQueue h.drain.1

/-- An empty queue stays empty. -/
theorem Genuine.queue_after_of_nil (h : s.Genuine) (hqueue : s.queue = []) (ops : List Op) :
    (s.after ops).queue = [] := by
  have happend := h.taken_append_queue ops
  rw [hqueue] at happend
  exact (List.append_eq_nil_iff.1 happend).2

/-- Nothing is left once all has been taken. -/
theorem Genuine.queue_after_of_drain (h : s.Genuine) {ops : List Op} (hmem : .drain ∈ ops) :
    (s.after ops).queue = [] := by
  obtain ⟨before, behind, rfl⟩ := List.append_of_mem hmem
  have hbefore := h.after before
  rw [after_append, after_cons]
  exact (hbefore.apply .drain).2.2.queue_after_of_nil hbefore.drain.2.1 behind

/-- Each of some takes takes the front of the queue. -/
theorem Genuine.queue_after_takes (h : s.Genuine) (n : Nat) :
    (s.after (List.replicate n .take)).queue = s.queue.drop n := by
  induction n generalizing s with
  | zero => rfl
  | succ n ih =>
      obtain ⟨-, hqueue, h'⟩ := h.apply .take
      rw [List.replicate_succ, after_cons, ih h', hqueue]
      exact List.drop_tail

/-- Taking one by one takes the tokens of the queue in order, and then end tokens. -/
theorem Genuine.take_after_takes (h : s.Genuine) (n : Nat) :
    (s.after (List.replicate n .take)).take.1 = s.queue[n]?.getD .endOfStream := by
  rw [(h.after _).take.1, h.queue_after_takes, List.head?_drop]

/-- Whatever is asked, the answer names the front of the queue first. -/
theorem Op.first_onQueue (op : Op) (ts : List Token) :
    (op.onQueue ts).1.first = ts.head?.getD .endOfStream := by
  cases op <;> rfl

/-- Looks, however many, show what the operation behind them names first. -/
theorem first_queueAnswers_peeks (ts : List Token) (k : Nat) (op : Op) :
    ∀ reply ∈ queueAnswers ts (List.replicate k .peek ++ [op]),
      reply.first = ts.head?.getD .endOfStream := by
  intro reply hreply
  induction k with
  | zero =>
      obtain rfl : reply = (op.onQueue ts).1 := by simpa [queueAnswers] using hreply
      exact op.first_onQueue ts
  | succ k ih =>
      rw [List.replicate_succ, List.cons_append, queueAnswers] at hreply
      rcases List.mem_cons.1 hreply with rfl | hreply
      · rfl
      · exact ih hreply

/-- **Looking is free.**  Taking one by one takes some tokens `all`, none of which is an end token,
and then end tokens for ever.  Whatever sequence of operations is performed, the tokens handed out
are the first of these, and they are all of them once all were asked for; looks show what the
operation behind them hands out; and looks put in or left out anywhere change neither an answer to
any other operation nor the state that it leads to. -/
theorem looking_is_free (source : Source) :
    let s := ofSource source
    (∃ all : List Token, (∀ t ∈ all, t.isEnd = false) ∧
      (∀ n, (s.after (List.replicate n .take)).take.1 = all[n]?.getD .endOfStream) ∧
      ∀ ops, s.taken ops <+: all ∧ (.drain ∈ ops → s.taken ops = all)) ∧
    (∀ ops k op, ∀ reply ∈ (s.after ops).answers (List.replicate k .peek ++ [op]),
      reply.first = (s.after ops).peek.1) ∧
    ∀ ops ops', ops.filter Op.consumes = ops'.filter Op.consumes →
      ∀ op, (s.after ops).apply op = (s.after ops').apply op := by
  intro s
  have hs : s.Genuine := genuine_ofSource source
  refine ⟨⟨s.queue, hs.drain.1, hs.take_after_takes, ?_⟩, ?_, ?_⟩
  · intro ops
    have happend := hs.taken_append_queue ops
    refine ⟨⟨(s.after ops).queue, happend⟩, ?_⟩
    intro hdrain
    rw [hs.queue_after_of_drain hdrain, List.append_nil] at happend
    exact happend
  · intro ops k op reply hreply
    have hafter := hs.after ops
    rw [hafter.answers_eq] at hreply
    rw [first_queueAnswers_peeks _ k op reply hreply, fst_peek, hafter.take.1]
  · intro ops ops' h op
    exact apply_after_congr h op

/-- Looks before, between and behind the tokens of a source that fails, the report included. -/
theorem looking_is_free_of_failing :
    let s := ofSource (.ofScript [.bytes [0x61, 0x20, 0x3d], .fault (.ofKind .timedOut)])
    let ops : List Op := [.peek, .next, .peek, .peek, .take, .peek, .drain, .peek, .take]
    .drain ∈ ops ∧
      s.taken ops = [⟨.identifier, ⟨1, 1⟩, "a", none⟩, ⟨.assignment, ⟨1, 3⟩, "=", none⟩,
        .failure "timed out" ⟨1, 4⟩] ∧
      [Op.peek, .next, .peek, .peek].filter Op.consumes = [Op.next].filter Op.consumes ∧
      (s.after [.peek, .next, .peek, .peek]).apply .take = (s.after [.next]).apply .take := by
  intro s ops
  have hdrain : s.taken [.drain] = [⟨.identifier, ⟨1, 1⟩, "a", none⟩,
      ⟨.assignment, ⟨1, 3⟩, "=", none⟩, .failure "timed out" ⟨1, 4⟩] := by
    have hall := Source.drain_eq (.ofScript [.bytes [0x61, 0x20, 0x3d], .fault (.ofKind .timedOut)])
    refine (List.append_nil _).trans (hall.trans ?_)
    decide +kernel
  have hmem : .drain ∈ ops := by decide
  have hfilter : [Op.peek, .next, .peek, .peek].filter Op.consumes =
      [Op.next].filter Op.consumes := rfl
  obtain ⟨⟨all, -, -, htaken⟩, -, hlooks⟩ :=
    looking_is_free (.ofScript [.bytes [0x61, 0x20, 0x3d], .fault (.ofKind .timedOut)])
  have hsame : s.taken ops = s.taken [.drain] :=
    ((htaken ops).2 hmem).trans ((htaken [.drain]).2 List.mem_cons_self).symm
  exact ⟨hmem, hsame.trans hdrain, hfilter, hlooks _ _ hfilter .take⟩

end Scanner

end TokenStream
