/-
A scan is a run of the operations of its caret.

What a scan does to its caret is known so far from where it starts and where it ends.  Some
questions ask for **the states in between**: where the caret stands while blanks are passed over, or
what its counters show while a line break is being crossed.  So the steps of a scan are written down
here, as the list of the operations that it performs one after the other, and a run of these
operations leads where the scan leads.

Among the steps one stands out.  A line break is announced only while blanks are passed over, by a
caret that stands on it, and **the very next step moves over it**; no other step of a scan announces
one, neither the look behind a symbol, nor the moves over a value, nor the report of a fault.

* `Caret.blankSteps`, `Caret.symbolSteps`, `Caret.wordSteps`, `Caret.tokenSteps`, `Caret.scanSteps` —
  the steps of a scan, part by part;
* `Caret.after_scanSteps` — a run of them is the scan;
* `Caret.Orderly`, `Caret.Orderly.append`, `Caret.orderly_scanSteps` — line breaks are crossed at
  once;
* `Caret.position_of_scan` — the token of a scan stands behind the blanks;
* `Scanner.steps`, `Scanner.caret_after`, `Scanner.orderly_steps` — **the same for the operations of
  a scanner**.
-/

import TokenStream.Proofs.Decomposition
import TokenStream.Proofs.Queue

set_option relaxedAutoImplicit false
set_option autoImplicit false

namespace TokenStream

namespace Caret

/-! ### The steps of a scan -/

theorem after_append (c : Caret) (ops ops' : List Op) :
    c.after (ops ++ ops') = (c.after ops).after ops' := by
  induction ops generalizing c with
  | nil => rfl
  | cons op ops ih => exact ih (c.apply op).2

/-- The steps by which the blanks at the caret are passed over. -/
def blankSteps (c : Caret) : List Op :=
  match _ : c.current with
  | none => []
  | some char =>
      if char = '\n' then .breakLine :: .advance :: c.breakLine.advance.blankSteps
      else if char = ' ' ∨ char = '\t' then .advance :: c.advance.blankSteps
      else []
termination_by c.size
decreasing_by
  · exact size_advance_lt (c := c.breakLine) (by simp [breakLine, *])
  · exact size_advance_lt (by simp [*])

/-- The steps by which the symbol at the caret is taken, of which `first` is the first character. -/
def symbolSteps (c : Caret) (first : Char) : List Op :=
  match c.lookAhead.1.bind (Kind.ofPair? first) with
  | some _ => [.lookAhead, .advance, .advance]
  | none => [.lookAhead, .advance]

/-- The steps by which the word at the caret is taken. -/
def wordSteps (c : Caret) : List Op :=
  match _ : c.current with
  | none => []
  | some char => if isBlank char then [] else .advance :: c.advance.wordSteps
termination_by c.size
decreasing_by exact size_advance_lt (by simp [*])

/-- The steps by which the token at the caret is taken, when the caret stands on no blank. -/
def tokenSteps (c : Caret) : List Op :=
  match c.current with
  | none => [.takeFault]
  | some char =>
      match Kind.ofSymbol? char with
      | some _ => c.symbolSteps char
      | none => c.wordSteps

/-- The steps of a scan. -/
def scanSteps (c : Caret) : List Op := c.blankSteps ++ c.skipBlanks.tokenSteps

/-! ### A run of the steps -/

theorem after_blankSteps (c : Caret) : c.after c.blankSteps = c.skipBlanks := by
  fun_induction blankSteps c with
  | case1 c hnone =>
      rw [skipBlanks_of_not_blank (by simp [hnone])]
      rfl
  | case2 c hline ih =>
      rw [skipBlanks_of_blank hline rfl, skipBlank, if_pos rfl, ← ih]
      rfl
  | case3 c char hchar hline hspace ih =>
      have hblank : isBlank char = true := (isBlank_iff_of_ne hline).2 hspace
      rw [skipBlanks_of_blank hchar hblank, skipBlank, if_neg hline, ← ih]
      rfl
  | case4 c char hchar hline hspace =>
      rw [skipBlanks_of_not_blank (by simpa [hchar] using not_isBlank_of_ne hline hspace)]
      rfl

theorem after_symbolSteps (c : Caret) (first : Char) (kind : Kind) :
    c.after (c.symbolSteps first) = (c.takeSymbol first kind).2 := by
  rcases hahead : c.lookAhead with ⟨second?, c'⟩
  rw [symbolSteps, takeSymbol, hahead]
  cases second? with
  | none => simp [after, apply, hahead]
  | some second =>
      cases hpair : Kind.ofPair? first second <;> simp [after, apply, hahead, hpair]

theorem after_wordSteps (taken : String) (c : Caret) :
    c.after c.wordSteps = (wordOnto taken c).2 := by
  fun_induction wordSteps c generalizing taken with
  | case1 c hnone =>
      rw [wordOnto_of_end taken (by simp [hnone])]
      rfl
  | case2 c char hchar hblank =>
      rw [wordOnto_of_end taken (by simpa [hchar] using hblank)]
      rfl
  | case3 c char hchar hblank ih =>
      rw [wordOnto_of_char taken hchar (by simpa using hblank), ← ih]
      rfl

theorem after_tokenSteps (c : Caret) : c.after c.tokenSteps = c.tokenHere.2 := by
  rw [tokenSteps, tokenHere]
  cases hc : c.current with
  | none => rfl
  | some char =>
      cases hkind : Kind.ofSymbol? char with
      | some kind =>
          simp only [hkind]
          exact after_symbolSteps c char kind
      | none =>
          simp only [hkind]
          exact after_wordSteps "" c

/-- **A run of its steps is the scan.** -/
theorem after_scanSteps (c : Caret) : c.after c.scanSteps = c.scan.2 := by
  rw [scanSteps, after_append, after_blankSteps, after_tokenSteps, scan]

/-! ### Line breaks are crossed at once -/

/-- A run in which every line break is announced by a caret that stands on it and is moved over by
the next step, and in which blanks are passed over from there on. -/
inductive Orderly : Caret → List Op → Prop
  | nil (c : Caret) : Orderly c []
  | crossing {c : Caret} {rest : List Op} (hc : c.current = some '\n')
      (h : Orderly c.breakLine.advance (c.breakLine.advance.blankSteps ++ rest)) :
      Orderly c (.breakLine :: .advance :: (c.breakLine.advance.blankSteps ++ rest))
  | cons {c : Caret} {op : Op} {ops : List Op} (hop : op ≠ .breakLine)
      (h : Orderly (c.apply op).2 ops) : Orderly c (op :: ops)

variable {c : Caret} {ops ops' : List Op}

theorem Orderly.append (h : c.Orderly ops) (h' : (c.after ops).Orderly ops') :
    c.Orderly (ops ++ ops') := by
  induction h with
  | nil c => exact h'
  | @crossing c rest hc h ih =>
      have hrest := ih h'
      rw [List.append_assoc] at hrest
      rw [List.cons_append, List.cons_append, List.append_assoc]
      exact .crossing hc hrest
  | cons hop h ih => exact .cons hop (ih h')

/-- A run that announces no line break. -/
theorem orderly_of_not_mem (h : .breakLine ∉ ops) : c.Orderly ops := by
  induction ops generalizing c with
  | nil => exact .nil c
  | cons op ops ih =>
      rw [List.mem_cons, not_or] at h
      exact .cons (Ne.symm h.1) (ih h.2)

theorem orderly_blankSteps (c : Caret) : c.Orderly c.blankSteps := by
  fun_induction blankSteps c with
  | case1 c hnone => exact .nil c
  | case2 c hline ih =>
      rw [← List.append_nil (blankSteps _)] at ih ⊢
      exact .crossing hline ih
  | case3 c char hchar hline hspace ih => exact .cons (by decide) ih
  | case4 c char hchar hline hspace => exact .nil c

theorem breakLine_not_mem_wordSteps (c : Caret) : .breakLine ∉ c.wordSteps := by
  fun_induction wordSteps c with
  | case1 c hnone => exact List.not_mem_nil
  | case2 c char hchar hblank => exact List.not_mem_nil
  | case3 c char hchar hblank ih => simpa using ih

/-- To take a token no line break is announced. -/
theorem breakLine_not_mem_tokenSteps (c : Caret) : .breakLine ∉ c.tokenSteps := by
  unfold tokenSteps
  split
  · decide
  · split
    · unfold symbolSteps
      split <;> decide
    · exact breakLine_not_mem_wordSteps c

theorem orderly_scanSteps (c : Caret) : c.Orderly c.scanSteps :=
  (orderly_blankSteps c).append (orderly_of_not_mem (breakLine_not_mem_tokenSteps _))

/-! ### Where the token stands -/

/-- A token stands where the caret did that took it. -/
theorem position_of_tokenHere {t : Token} (h : c.tokenHere.1 = some t) :
    t.position = c.position := by
  rw [tokenHere] at h
  split at h
  · -- the report of a fault
    obtain ⟨cause, -, rfl⟩ := Option.map_eq_some_iff.1 h
    rfl
  · split at h
    · rename_i char _ _ kind _
      obtain rfl : (c.takeSymbol char kind).1 = t := Option.some.inj h
      unfold takeSymbol
      split
      split <;> rfl
    · obtain rfl : c.takeWord.1 = t := Option.some.inj h
      rfl

/-- A token that is found stands behind the blanks in front of it. -/
theorem position_of_scan {t : Token} (h : c.scan.1 = some t) :
    t.position = (c.after c.blankSteps).position := by
  rw [after_blankSteps]
  exact position_of_tokenHere h

end Caret

namespace Scanner

variable {s : Scanner}

/-! ### The steps of a scanner -/

/-- The steps of its caret by which a scanner makes sure that the next token is held. -/
def fetchSteps (s : Scanner) : List Caret.Op :=
  match s.held with
  | some _ => []
  | none => s.caret.scanSteps

/-- The steps by which all tokens are taken. -/
def drainSteps (s : Scanner) : List Caret.Op :=
  match _ : s.next? with
  | (none, _) => s.fetchSteps
  | (some _, s') => s.fetchSteps ++ s'.drainSteps
termination_by s.remaining
decreasing_by exact remaining_next?_lt ‹_›

/-- The steps of an operation. -/
def applySteps (s : Scanner) : Op → List Caret.Op
  | .peek | .take | .next => s.fetchSteps
  | .drain => s.drainSteps

/-- The steps of some operations, one after the other. -/
def steps (s : Scanner) : List Op → List Caret.Op
  | [] => []
  | op :: ops => s.applySteps op ++ (s.apply op).2.steps ops

theorem steps_singleton (s : Scanner) (op : Op) : s.steps [op] = s.applySteps op :=
  List.append_nil _

theorem steps_append (s : Scanner) (ops ops' : List Op) :
    s.steps (ops ++ ops') = s.steps ops ++ (s.after ops).steps ops' := by
  induction ops generalizing s with
  | nil => rfl
  | cons op ops ih =>
      rw [List.cons_append, steps, steps, ih, after_cons, List.append_assoc]

theorem caret_fetch (s : Scanner) : s.fetch.caret = s.caret.after s.fetchSteps := by
  rw [fetchSteps]
  cases hheld : s.held with
  | some t =>
      rw [fetch_of_held hheld]
      rfl
  | none =>
      rw [fetch_of_none hheld]
      exact (Caret.after_scanSteps s.caret).symm

theorem caret_take (s : Scanner) : s.take.2.caret = s.caret.after s.fetchSteps := caret_fetch s

theorem orderly_fetchSteps (s : Scanner) : s.caret.Orderly s.fetchSteps := by
  rw [fetchSteps]
  cases s.held with
  | some t => exact .nil s.caret
  | none => exact Caret.orderly_scanSteps s.caret

theorem drainSteps_of_none {s s' : Scanner} (h : s.next? = (none, s')) :
    s.drainSteps = s.fetchSteps := by
  rw [drainSteps.eq_def]
  split <;> simp_all

theorem drainSteps_of_some {s s' : Scanner} {t : Token} (h : s.next? = (some t, s')) :
    s.drainSteps = s.fetchSteps ++ s'.drainSteps := by
  rw [drainSteps.eq_def]
  split <;> simp_all

/-- Taking all tokens is a run of its steps, and these cross line breaks at once. -/
theorem caret_drainOnto (taken : Array Token) (s : Scanner) :
    (drainOnto taken s).2.caret = s.caret.after s.drainSteps ∧ s.caret.Orderly s.drainSteps := by
  fun_induction drainOnto taken s with
  | case1 taken s s' hnext =>
      obtain rfl : s.take.2 = s' := congrArg Prod.snd hnext
      rw [drainSteps_of_none hnext]
      exact ⟨caret_take s, orderly_fetchSteps s⟩
  | case2 taken s t s' hnext ih =>
      obtain rfl : s.take.2 = s' := congrArg Prod.snd hnext
      rw [caret_take] at ih
      rw [drainSteps_of_some hnext, Caret.after_append]
      exact ⟨ih.1, (orderly_fetchSteps s).append ih.2⟩

/-- **One operation** is a run of its steps. -/
theorem caret_apply (s : Scanner) (op : Op) :
    (s.apply op).2.caret = s.caret.after (s.applySteps op) ∧
      s.caret.Orderly (s.applySteps op) := by
  cases op with
  | peek | take | next => exact ⟨caret_fetch s, orderly_fetchSteps s⟩
  | drain => exact caret_drainOnto #[] s

/-- **A run of operations** is a run of its steps. -/
theorem caret_after (s : Scanner) (ops : List Op) :
    (s.after ops).caret = s.caret.after (s.steps ops) := by
  induction ops generalizing s with
  | nil => rfl
  | cons op ops ih => rw [after_cons, ih, (caret_apply s op).1, steps, Caret.after_append]

/-- The steps of a scanner cross every line break at once. -/
theorem orderly_steps (s : Scanner) (ops : List Op) : s.caret.Orderly (s.steps ops) := by
  induction ops generalizing s with
  | nil => exact .nil s.caret
  | cons op ops ih =>
      obtain ⟨hcaret, horderly⟩ := caret_apply s op
      have hrest := ih (s.apply op).2
      rw [hcaret] at hrest
      exact horderly.append hrest

end Scanner

end TokenStream
