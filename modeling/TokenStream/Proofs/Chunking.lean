/-
The tokens of a text do not depend on how it is delivered.

Alike carets (`Proofs/Alike.lean`) stay alike under their operations, and a scanner does nothing to
a caret but perform operations on it and decide by the characters that it is shown.  So a scan finds
the same token on alike carets, and scanners over them answer alike for as long as they are asked.
The conclusion speaks of scripts only: **two scripts with the same bytes and the same words at their
end cannot be told apart**, whatever sequence of operations is performed, neither at the caret nor
through the scanner nor by asking for all tokens.  Cuts inside of a character, interruptions and
whatever stands behind the end show in nothing but the number of reads.

* `Caret.Alike.skipBlanks`, `Caret.Alike.takeSymbol`, `Caret.Alike.takeWord`, `Caret.Alike.scan` —
  the parts of a scan on alike carets, and a scan;
* `Scanner.Alike` with `Scanner.Alike.apply`, `Scanner.Alike.trace` — alike scanners, one operation
  and a run of operations;
* `Script.same_answers` — **the two deliveries compared**.
-/

import TokenStream.Proofs.Alike
import TokenStream.Proofs.Reading

set_option relaxedAutoImplicit false
set_option autoImplicit false

namespace TokenStream

namespace Caret

variable {c d : Caret}

/-! ### The parts of a scan -/

theorem Alike.skipBlanks (h : c.Alike d) : c.skipBlanks.Alike d.skipBlanks := by
  fun_induction Caret.skipBlanks c generalizing d with
  | case1 c hc =>
      have hd : d.current = none := h.current_eq ▸ hc
      rwa [skipBlanks_of_not_blank (by simp [hd])]
  | case2 c hc ih =>
      have hd : d.current = some '\n' := h.current_eq ▸ hc
      rw [skipBlanks_of_blank hd rfl]
      exact ih h.breakLine.advance
  | case3 c char hc hline hspace ih =>
      have hd : d.current = some char := h.current_eq ▸ hc
      rw [skipBlanks_of_blank hd ((isBlank_iff_of_ne hline).2 hspace), skipBlank, if_neg hline]
      exact ih h.advance
  | case4 c char hc hline hspace =>
      have hd : d.current = some char := h.current_eq ▸ hc
      rwa [skipBlanks_of_not_blank (by simpa [hd] using not_isBlank_of_ne hline hspace)]

theorem Alike.takeSymbol (first : Char) (kind : Kind) (h : c.Alike d) :
    Agree Alike (c.takeSymbol first kind) (d.takeSymbol first kind) := by
  obtain ⟨second?, c', d', hc, hd, h'⟩ := h.lookAhead
  rw [Caret.takeSymbol, Caret.takeSymbol, hc, hd, h.position_eq]
  cases second? with
  | none => exact ⟨_, _, _, rfl, rfl, h'.advance⟩
  | some second =>
      cases hpair : Kind.ofPair? first second with
      | none =>
          simp only [Option.bind_some, hpair]
          exact ⟨_, _, _, rfl, rfl, h'.advance⟩
      | some pairKind =>
          simp only [Option.bind_some, hpair]
          exact ⟨_, _, _, rfl, rfl, h'.advance.advance⟩

theorem Alike.wordOnto (taken : String) (h : c.Alike d) :
    Agree Alike (wordOnto taken c) (wordOnto taken d) := by
  fun_induction Caret.wordOnto taken c generalizing d with
  | case1 taken c hc =>
      have hd : d.current = none := h.current_eq ▸ hc
      rw [wordOnto_of_end taken (by simp [hd])]
      exact ⟨taken, c, d, rfl, rfl, h⟩
  | case2 taken c char hc hblank =>
      have hd : d.current = some char := h.current_eq ▸ hc
      rw [wordOnto_of_end taken (by simpa [hd] using hblank)]
      exact ⟨taken, c, d, rfl, rfl, h⟩
  | case3 taken c char hc hblank ih =>
      have hd : d.current = some char := h.current_eq ▸ hc
      rw [wordOnto_of_char taken hd (by simpa using hblank)]
      exact ih h.advance

theorem Alike.takeWord (h : c.Alike d) : Agree Alike c.takeWord d.takeWord := by
  obtain ⟨value, c', d', hc, hd, h'⟩ := h.wordOnto ""
  rw [Caret.takeWord, Caret.takeWord, hc, hd, h.position_eq]
  exact ⟨_, c', d', rfl, rfl, h'⟩

/-- The report holds nothing of a fault but the words in which it is told. -/
theorem Alike.failure? (h : c.Alike d) : Agree Alike c.failure? d.failure? := by
  obtain ⟨hmessage, h'⟩ := h.takeFault
  refine ⟨c.failure?.1, c.failure?.2, d.failure?.2, rfl, Prod.ext ?_ rfl, h'⟩
  have hreport := congrArg (Option.map fun message => Token.failure message c.position) hmessage
  rw [Option.map_map, Option.map_map] at hreport
  change d.takeFault.1.map (fun cause => Token.failure cause.message d.position) =
    c.takeFault.1.map fun cause => Token.failure cause.message c.position
  rw [← h.position_eq]
  exact hreport.symm

/-! ### One scan -/

theorem Alike.tokenHere (h : c.Alike d) : Agree Alike c.tokenHere d.tokenHere := by
  rw [Caret.tokenHere, Caret.tokenHere, h.current_eq]
  cases hd : d.current with
  | none => exact h.failure?
  | some char =>
      cases hkind : Kind.ofSymbol? char with
      | some kind =>
          simp only [hkind]
          exact (h.takeSymbol char kind).map some
      | none =>
          simp only [hkind]
          exact h.takeWord.map some

/-- **One scan** on alike carets. -/
theorem Alike.scan (h : c.Alike d) : Agree Alike c.scan d.scan := h.skipBlanks.tokenHere

end Caret

namespace Scanner

/-- The same token is held, over alike carets. -/
structure Alike (s t : Scanner) : Prop where
  caret : s.caret.Alike t.caret
  held_eq : s.held = t.held

variable {s t : Scanner}

/-! ### Operations -/

theorem Alike.fetch (h : s.Alike t) : s.fetch.Alike t.fetch := by
  rw [Scanner.fetch, Scanner.fetch, h.held_eq]
  cases ht : t.held with
  | some token => exact ⟨h.caret, h.held_eq⟩
  | none =>
      obtain ⟨token?, c, d, hc, hd, hcarets⟩ := h.caret.scan
      rw [hc, hd]
      exact ⟨hcarets, rfl⟩

theorem Alike.peek (h : s.Alike t) : Agree Alike s.peek t.peek := by
  have h' := h.fetch
  rw [Scanner.peek, Scanner.peek, h'.held_eq]
  exact ⟨_, _, _, rfl, rfl, h'⟩

theorem Alike.take (h : s.Alike t) : Agree Alike s.take t.take := by
  have h' := h.fetch
  rw [Scanner.take, Scanner.take, h'.held_eq]
  exact ⟨_, _, _, rfl, rfl, h'.caret, rfl⟩

theorem Alike.next? (h : s.Alike t) : Agree Alike s.next? t.next? := by
  obtain ⟨token, s', t', hs, ht, h'⟩ := h.take
  rw [Scanner.next?, Scanner.next?, hs, ht]
  exact ⟨_, s', t', rfl, rfl, h'⟩

theorem Alike.drainOnto (taken : Array Token) (h : s.Alike t) :
    Agree Alike (drainOnto taken s) (drainOnto taken t) := by
  fun_induction Scanner.drainOnto taken s generalizing t with
  | case1 taken s s' hs =>
      obtain ⟨token?, s'', t', hs', ht, h'⟩ := h.next?
      obtain ⟨rfl, rfl⟩ := Prod.mk.inj (hs.symm.trans hs')
      rw [drainOnto_of_none taken ht]
      exact ⟨taken, s', t', rfl, rfl, h'⟩
  | case2 taken s token s' hs ih =>
      obtain ⟨token?, s'', t', hs', ht, h'⟩ := h.next?
      obtain ⟨rfl, rfl⟩ := Prod.mk.inj (hs.symm.trans hs')
      rw [drainOnto_of_some taken ht]
      exact ih h'

theorem Alike.drain (h : s.Alike t) : Agree Alike s.drain t.drain :=
  (h.drainOnto #[]).map Array.toList

/-! ### Runs of operations -/

/-- **One operation** on alike scanners. -/
theorem Alike.apply (h : s.Alike t) (op : Op) : Agree Alike (s.apply op) (t.apply op) := by
  cases op with
  | peek => exact h.peek.map Reply.token
  | take => exact h.take.map Reply.token
  | next => exact h.next?.map Reply.yielded
  | drain => exact h.drain.map Reply.drained

/-- **A run of operations** on alike scanners. -/
theorem Alike.trace (h : s.Alike t) (ops : List Op) :
    (s.trace ops).map Prod.fst = (t.trace ops).map Prod.fst := by
  induction ops generalizing s t with
  | nil => rfl
  | cons op ops ih =>
      obtain ⟨reply, s', t', hs, ht, h'⟩ := h.apply op
      rw [Scanner.trace, Scanner.trace, hs, ht]
      exact congrArg (reply :: ·) (ih h')

end Scanner

namespace Script

/-- **Two scripts with the same bytes and the same words at their end cannot be told apart**: not by
a fresh caret, not by operations on it, each of which answers the same and leaves it on the same
character at the same position, not by operations on a scanner, and not by all tokens. -/
theorem same_answers {events events' : Script} (hbytes : events.bytes = events'.bytes)
    (hreason : events.ending.reason? = events'.ending.reason?) :
    (Caret.ofSource (.ofScript events)).current = (Caret.ofSource (.ofScript events')).current ∧
      (∀ ops, List.Forall₂
        (fun a b => a.1.Alike b.1 ∧ a.2.current = b.2.current ∧ a.2.position = b.2.position)
        ((Caret.ofSource (.ofScript events)).trace ops)
        ((Caret.ofSource (.ofScript events')).trace ops)) ∧
      (∀ ops, ((Scanner.ofSource (.ofScript events)).trace ops).map Prod.fst =
        ((Scanner.ofSource (.ofScript events')).trace ops).map Prod.fst) ∧
      (Source.ofScript events).tokens = (Source.ofScript events').tokens := by
  have hcaret := Caret.alike_ofScript hbytes hreason
  have hscanner : (Scanner.ofSource (.ofScript events)).Alike (.ofSource (.ofScript events')) :=
    ⟨hcaret, rfl⟩
  refine ⟨hcaret.current_eq, ?_, hscanner.trace, ?_⟩
  · intro ops
    refine (hcaret.trace ops).imp ?_
    intro a b hstep
    exact ⟨hstep.1, hstep.2.current_eq, hstep.2.position_eq⟩
  · obtain ⟨ts, s, t, hs, ht, -⟩ := hscanner.drain
    rw [Source.tokens, Source.tokens, hs, ht]

/-- A character cut by an interruption and by another read, against one read for all bytes; the
faults are told in the same words, and bytes behind one of them are never read. -/
theorem same_answers_of_cut :
    let events : Script := [.bytes [0x61, 0x3d, 0xe2], .fault (.ofKind .interrupted),
      .bytes [0x82], .bytes [0xac, 0x0a], .fault (.described .other "timed out"), .bytes [0x62]]
    let events' : Script := [.bytes [0x61, 0x3d, 0xe2, 0x82, 0xac, 0x0a],
      .fault (.ofKind .timedOut)]
    events.bytes = events'.bytes ∧ events.ending.reason? = events'.ending.reason? ∧
      (∀ ops, ((Scanner.ofSource (.ofScript events)).trace ops).map Prod.fst =
        ((Scanner.ofSource (.ofScript events')).trace ops).map Prod.fst) ∧
      (Source.ofScript events).tokens = (Source.ofScript events').tokens := by
  intro events events'
  have hbytes : events.bytes = events'.bytes := rfl
  have hreason : events.ending.reason? = events'.ending.reason? := rfl
  obtain ⟨-, -, htrace, htokens⟩ := same_answers hbytes hreason
  exact ⟨hbytes, hreason, htrace, htokens⟩

end Script

end TokenStream
