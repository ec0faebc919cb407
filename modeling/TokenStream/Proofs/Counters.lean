/-
The counters of a place keep pace with the text.

The position of a caret is kept in two counters that go up and, the column, also back.  Neither of
them is bounded by what the other one shows, so that a bound has to speak of both: **together they
are at most two more than the characters that have been committed**.  A move adds one to the column
and to the committed characters.  A line break adds one to the line and sets the column back, which
was at least one, so that the announcement costs nothing and the move behind it pays for itself.

Between the announcement of a line break and the move over it the column is zero.  This is so in the
middle of passing over blanks and nowhere else, and a caret that is handed back to a user has its
counters at one or above.

Every committed character comes from a byte that was delivered.  Counters in machine words therefore
**never wrap around** unless more bytes are delivered than there are words.

* `Position.Within` — places that are counted from one, and bounded;
* `Caret.commits`, `Caret.committed` — the characters that some steps commit;
* `Caret.committed_le_deliveredBy`, `Caret.Sound.committed_add_length` — committed characters, the
  bytes they come from, and the text they are taken from;
* `Caret.Crossing`, `Caret.Orderly.within` — **the counters on the way**, and where the column is
  zero;
* `Counters`, `Counters.after`, `Counters.place_after` — counters in machine words;
* `Scanner.Paced`, `Scanner.Paced.apply`, `Scanner.Paced.after` — the place of a scanner, and of its
  tokens;
* `Scanner.counters_keep_pace` — **the counters of a scanner**, after any operations.
-/

import TokenStream.Proofs.Counting
import TokenStream.Proofs.Exhaustion
import TokenStream.Proofs.Steps
import Mathlib.Algebra.Group.Nat.Defs

set_option relaxedAutoImplicit false
set_option autoImplicit false

namespace TokenStream

/-! ### Places within a number of characters -/

/-- Both counters are at least one, and together they are at most two more than `k`. -/
structure Position.Within (k : Nat) (p : Position) : Prop where
  one_le_line : 1 ≤ p.line
  one_le_column : 1 ≤ p.column
  add_le : p.line + p.column ≤ 2 + k

namespace Position

variable {p : Position} {k : Nat}

theorem within_start : start.Within 0 := ⟨Nat.le_refl 1, Nat.le_refl 1, Nat.le_refl 2⟩

theorem Within.add_column (h : p.Within k) (n : Nat) :
    Position.Within (k + n) ⟨p.line, p.column + n⟩ := by
  refine ⟨h.one_le_line, Nat.le_add_right_of_le h.one_le_column, ?_⟩
  have hadd := h.add_le
  show p.line + (p.column + n) ≤ 2 + (k + n)
  omega

/-- The column that is given up for a line break pays for the line. -/
theorem Within.nextLine (h : p.Within k) :
    1 ≤ p.nextLine.line ∧ p.nextLine.line + p.nextLine.column ≤ 2 + k := by
  have hcolumn := h.one_le_column
  have hadd := h.add_le
  simp only [Position.nextLine]
  omega

theorem Within.nextLine_nextColumn (h : p.Within k) : p.nextLine.nextColumn.Within (k + 1) :=
  ⟨h.nextLine.1, Nat.le_refl 1, Nat.succ_le_succ h.nextLine.2⟩

theorem Within.mono {k' : Nat} (h : p.Within k) (hk : k ≤ k') : p.Within k' :=
  ⟨h.one_le_line, h.one_le_column, Nat.le_trans h.add_le (Nat.add_le_add_left hk 2)⟩

end Position

namespace Caret

variable {c : Caret} {k : Nat} {op : Op} {ops front back : List Op}

/-! ### Committed characters -/

/-- How many characters an operation commits: a move commits the one that it starts on. -/
def commits (c : Caret) : Op → Nat
  | .advance => c.current.toList.length
  | .lookAhead => 0
  | .breakLine => 0
  | .takeFault => 0

/-- How many characters some operations commit. -/
def committed (c : Caret) : List Op → Nat
  | [] => 0
  | op :: ops => c.commits op + (c.apply op).2.committed ops

theorem committed_append (c : Caret) (ops ops' : List Op) :
    c.committed (ops ++ ops') = c.committed ops + (c.after ops).committed ops' := by
  induction ops generalizing c with
  | nil => simp [committed, after]
  | cons op ops ih => rw [List.cons_append, committed, committed, ih, Nat.add_assoc, after]

/-- One operation takes a committed character off the rest. -/
theorem commits_add_size_le (c : Caret) (op : Op) :
    c.commits op + (c.apply op).2.size ≤ c.size := by
  cases op with
  | advance =>
      cases hc : c.current with
      | none => simpa [commits, apply, hc] using size_advance_le c
      | some char =>
          have hlt := size_advance_lt (c := c) (by simp [hc])
          simp only [commits, apply, hc, Option.toList_some, List.length_singleton]
          omega
  | lookAhead => simpa [commits, apply] using size_lookAhead_le c
  | breakLine => simp [commits, apply]
  | takeFault => simp [commits, apply]

/-- Committed characters come from bytes that are no longer left. -/
theorem committed_add_size_le (c : Caret) (ops : List Op) :
    c.committed ops + (c.after ops).size ≤ c.size := by
  induction ops generalizing c with
  | nil => simp [committed, after]
  | cons op ops ih =>
      have hone := commits_add_size_le c op
      have hrest := ih (c.apply op).2
      rw [committed, after]
      omega

/-- Every committed character comes from a byte of the source. -/
theorem committed_ofSource_add_size_le (source : Source) (ops : List Op) :
    (ofSource source).committed ops + ((ofSource source).after ops).size ≤ source.bytes.length :=
  Nat.le_trans (committed_add_size_le _ ops) (length_bytes_next_add_le (.ofSource source))

/-- Every committed character comes from a byte that has been delivered. -/
theorem committed_le_deliveredBy (events : Script) (ops : List Op) :
    (ofSource (.ofScript events)).committed ops ≤
      events.deliveredBy ((ofSource (.ofScript events)).after ops).reads := by
  have hcommitted := committed_ofSource_add_size_le (.ofScript events) ops
  have hdelivered :=
    ((preserved_played events).after (played_ofScript events) ops).deliveredBy_add
  rw [Source.bytes_ofScript] at hcommitted
  simp only [size, CharStream.bytes, Source.bytes, List.length_append] at hcommitted
  simp only [reads] at hdelivered ⊢
  omega

/-- One operation takes a committed character off the text. -/
theorem Sound.commits_add_length (h : c.Sound) (op : Op) :
    c.commits op + (c.apply op).2.text.length = c.text.length := by
  cases op with
  | advance =>
      have htext : (c.apply .advance).2.text = c.text.tail := h.text_advance
      rw [htext, commits]
      cases hc : c.current with
      | none => simp [h.text_of_current_none hc]
      | some char => simp [text_of_current hc, Nat.add_comm]
  | lookAhead => simp [commits, apply]
  | breakLine => simp [commits, apply]
  | takeFault => simp [commits, apply]

/-- Committed characters are those in front of what is left of the text. -/
theorem Sound.committed_add_length (h : c.Sound) (ops : List Op) :
    c.committed ops + (c.after ops).text.length = c.text.length := by
  induction ops generalizing c with
  | nil => simp [committed, after]
  | cons op ops ih =>
      have hone := h.commits_add_length op
      have hrest := ih (preserved_sound.after h [op])
      rw [committed, after]
      simp only [after] at hrest
      omega

/-! ### The counters on the way -/

/-- In the middle of passing over blanks, between the announcement of a line break and the move over
it: `front` has been done and ends with the announcement, for a caret that stood on the line break;
of `back`, which is still to be done, the move comes next, and then the blanks behind it. -/
def Crossing (c : Caret) (front back : List Op) : Prop :=
  ∃ earlier rest, front = earlier ++ [.breakLine] ∧ (c.after earlier).current = some '\n' ∧
    back = .advance :: ((c.after front).advance.blankSteps ++ rest)

theorem Crossing.cons (h : (c.apply op).2.Crossing front back) : c.Crossing (op :: front) back := by
  obtain ⟨earlier, rest, rfl, hcurrent, hback⟩ := h
  exact ⟨op :: earlier, rest, rfl, hcurrent, hback⟩

theorem Crossing.column_eq (h : c.Crossing front back) : (c.after front).position.column = 0 := by
  obtain ⟨earlier, rest, rfl, -, -⟩ := h
  rw [after_append]
  rfl

/-- What an operation commits, unless it announces a line break, it adds to the column. -/
theorem position_apply (c : Caret) (hop : op ≠ .breakLine) :
    (c.apply op).2.position = ⟨c.position.line, c.position.column + c.commits op⟩ := by
  cases op with
  | advance =>
      have happly : (c.apply .advance).2 = c.advance := rfl
      cases hc : c.current with
      | none => simp [happly, position_advance_of_end hc, commits, hc]
      | some char => simp [happly, position_advance hc, commits, hc, Position.nextColumn]
  | lookAhead => exact position_lookAhead c
  | breakLine => exact absurd rfl hop
  | takeFault => exact position_takeFault c

/-- **One operation** that announces no line break. -/
theorem within_apply (h : c.position.Within k) (hop : op ≠ .breakLine) :
    (c.apply op).2.position.Within (k + c.commits op) := by
  rw [position_apply c hop]
  exact h.add_column (c.commits op)

/-- A line break that is announced and moved over. -/
theorem within_crossing (h : c.position.Within k) (hc : c.current = some '\n') :
    c.breakLine.advance.position.Within (k + 1) := by
  rw [position_advance (c := c.breakLine) hc]
  exact h.nextLine_nextColumn

/-- **The counters on the way.**  At each point of a run that crosses line breaks at once, the place
is within the committed characters, or a line break is being crossed, and the counters are within
them all the same. -/
theorem Orderly.within (h : c.Orderly ops) (hk : c.position.Within k) (hops : ops = front ++ back) :
    (c.after front).position.Within (k + c.committed front) ∨
      c.Crossing front back ∧ 1 ≤ (c.after front).position.line ∧
        (c.after front).position.line + (c.after front).position.column ≤
          2 + (k + c.committed front) := by
  induction h generalizing k front with
  | nil c =>
      obtain ⟨rfl, -⟩ := List.append_eq_nil_iff.1 hops.symm
      exact .inl hk
  | @crossing c rest hc h ih =>
      cases front with
      | nil => exact .inl hk
      | cons op front =>
          rw [List.cons_append, List.cons.injEq] at hops
          obtain ⟨rfl, hops⟩ := hops
          cases front with
          | nil =>
              -- the line break has been announced, and is not moved over yet
              exact .inr ⟨⟨[], rest, rfl, hc, hops.symm⟩, hk.nextLine⟩
          | cons op front =>
              rw [List.cons_append, List.cons.injEq] at hops
              obtain ⟨rfl, hops⟩ := hops
              have hcount : k + c.committed (.breakLine :: .advance :: front) =
                  k + 1 + c.breakLine.advance.committed front := by
                simp only [committed, commits, apply, breakLine, hc, Option.toList_some,
                  List.length_singleton]
                omega
              rw [hcount]
              rcases ih (within_crossing hk hc) hops with hwithin | ⟨hcrossing, hbound⟩
              · exact .inl hwithin
              · exact .inr ⟨.cons (.cons hcrossing), hbound⟩
  | @cons c op ops hop h ih =>
      cases front with
      | nil => exact .inl hk
      | cons op front =>
          rw [List.cons_append, List.cons.injEq] at hops
          obtain ⟨rfl, hops⟩ := hops
          rw [committed, ← Nat.add_assoc]
          rcases ih (within_apply hk hop) hops with hwithin | ⟨hcrossing, hbound⟩
          · exact .inl hwithin
          · exact .inr ⟨.cons hcrossing, hbound⟩

/-- Where such a run ends, no line break is being crossed. -/
theorem Orderly.within_after (h : c.Orderly ops) (hk : c.position.Within k) :
    (c.after ops).position.Within (k + c.committed ops) := by
  rcases h.within hk (List.append_nil ops).symm with hwithin | ⟨⟨_, _, _, _, hback⟩, _⟩
  · exact hwithin
  · exact nomatch hback

theorem Orderly.add_le (h : c.Orderly ops) (hk : c.position.Within k) (hops : ops = front ++ back) :
    1 ≤ (c.after front).position.line ∧
      (c.after front).position.line + (c.after front).position.column ≤
        2 + (k + c.committed front) := by
  rcases h.within hk hops with hwithin | ⟨-, hbound⟩
  · exact ⟨hwithin.one_le_line, hwithin.add_le⟩
  · exact hbound

theorem Orderly.column_eq_zero_iff (h : c.Orderly ops) (hk : c.position.Within k)
    (hops : ops = front ++ back) :
    (c.after front).position.column = 0 ↔ c.Crossing front back := by
  refine ⟨?_, Crossing.column_eq⟩
  intro hzero
  rcases h.within hk hops with hwithin | ⟨hcrossing, -⟩
  · have hone := hwithin.one_le_column
    omega
  · exact hcrossing

/-- **One scan** leads to a place, and to a token, within the committed characters. -/
theorem within_scan (hk : c.position.Within k) :
    c.scan.2.position.Within (k + c.committed c.scanSteps) ∧
      ∀ t, c.scan.1 = some t → t.position.Within (k + c.committed c.scanSteps) := by
  refine ⟨?_, ?_⟩
  · rw [← after_scanSteps]
    exact (orderly_scanSteps c).within_after hk
  · intro t ht
    have hblanks := (orderly_blankSteps c).within_after hk
    rw [position_of_scan ht]
    refine hblanks.mono ?_
    rw [scanSteps, committed_append, ← Nat.add_assoc]
    exact Nat.le_add_right _ _

end Caret

/-! ### Counters in machine words -/

/-- A line and a column in machine words, where counting on from the last word leads to zero. -/
structure Counters where
  line : UInt64 := 1
  column : UInt64 := 1
  deriving DecidableEq, Repr

namespace Counters

variable {c : Caret} {w : Counters} {op : Caret.Op} {ops : List Caret.Op}

/-- The place that the words show. -/
def place (w : Counters) : Position := ⟨w.line.toNat, w.column.toNat⟩

/-- What an operation of the caret does to the words. -/
def move (c : Caret) (w : Counters) : Caret.Op → Counters
  | .advance =>
      match c.current with
      | some _ => { w with column := w.column + 1 }
      | none => w
  | .lookAhead => w
  | .breakLine => ⟨w.line + 1, 0⟩
  | .takeFault => w

/-- What some operations of the caret do to the words. -/
def after (c : Caret) (w : Counters) : List Caret.Op → Counters
  | [] => w
  | op :: ops => after (c.apply op).2 (w.move c op) ops

theorem toNat_add_one {n : UInt64} (h : n.toNat + 1 < 2 ^ 64) : (n + 1).toNat = n.toNat + 1 := by
  rw [UInt64.toNat_add, UInt64.toNat_one, Nat.mod_eq_of_lt h]

/-- **One operation** is counted right if the place that it leads to fits into words. -/
theorem place_move (h : w.place = c.position)
    (hfits : (c.apply op).2.position.line + (c.apply op).2.position.column < 2 ^ 64) :
    (w.move c op).place = (c.apply op).2.position := by
  cases op with
  | advance =>
      rw [Caret.position_apply c (by decide), ← h] at hfits ⊢
      cases hc : c.current with
      | none => simp [move, hc, Caret.commits]
      | some char =>
          simp only [place, move, hc, Caret.commits, Option.toList_some, List.length_singleton,
            Position.mk.injEq, true_and] at hfits ⊢
          exact toNat_add_one (by omega)
  | lookAhead =>
      rw [Caret.position_apply c (by decide)]
      exact h
  | breakLine =>
      have hmove : (c.apply .breakLine).2.position = c.position.nextLine := rfl
      rw [hmove, ← h] at hfits ⊢
      simp only [move, place, Position.nextLine, Position.mk.injEq, UInt64.toNat_zero, and_true]
        at hfits ⊢
      exact toNat_add_one (by omega)
  | takeFault =>
      rw [Caret.position_apply c (by decide)]
      exact h

/-- **A run of operations** is counted right if the places on the way fit into words. -/
theorem place_after (h : w.place = c.position)
    (hfits : ∀ front back, ops = front ++ back →
      (c.after front).position.line + (c.after front).position.column < 2 ^ 64) :
    (after c w ops).place = (c.after ops).position := by
  induction ops generalizing c w with
  | nil => exact h
  | cons op ops ih =>
      refine ih (place_move h (hfits [op] ops rfl)) ?_
      intro front back hops
      exact hfits (op :: front) back (by rw [hops, List.cons_append])

/-- From the start on, all places of a run fit into words that crosses line breaks at once and
commits two characters less than there are words. -/
theorem place_after_of_orderly {front back : List Caret.Op} (h : c.Orderly ops)
    (hstart : c.position = .start) (hops : ops = front ++ back)
    (hfits : c.committed ops + 2 < 2 ^ 64) :
    (after c { } front).place = (c.after front).position := by
  refine place_after hstart.symm ?_
  rintro front' back' rfl
  rw [List.append_assoc] at hops
  have hbound := (h.add_le (hstart ▸ Position.within_start) hops).2
  rw [hops, Caret.committed_append] at hfits
  omega

end Counters

namespace Scanner

variable {s : Scanner} {k : Nat}

/-! ### The place of a scanner, and of its tokens -/

/-- The caret, and the token that is held, are within `k` characters. -/
structure Paced (k : Nat) (s : Scanner) : Prop where
  caret : s.caret.position.Within k
  held : ∀ t, s.held = some t → t.position.Within k

theorem paced_ofSource (source : Source) : (ofSource source).Paced 0 := by
  refine ⟨?_, nofun⟩
  have hstart : (ofSource source).caret.position = .start := Caret.position_ofSource source
  rw [hstart]
  exact Position.within_start

theorem Paced.fetch (h : s.Paced k) : s.fetch.Paced (k + s.caret.committed s.fetchSteps) := by
  rw [fetchSteps]
  cases hheld : s.held with
  | some t =>
      rw [fetch_of_held hheld]
      exact h
  | none =>
      rw [fetch_of_none hheld]
      exact ⟨(Caret.within_scan h.caret).1, (Caret.within_scan h.caret).2⟩

theorem Paced.take (h : s.Paced k) : s.take.2.Paced (k + s.caret.committed s.fetchSteps) :=
  ⟨h.fetch.caret, nofun⟩

/-- A token that is looked at or taken is held, unless it is the end token. -/
theorem Paced.within_take (h : s.Paced k) (hend : s.take.1.isEnd = false) :
    s.take.1.position.Within (k + s.caret.committed s.fetchSteps) := by
  have htake : s.take.1 = s.fetch.held.getD .endOfStream := rfl
  rw [htake] at hend ⊢
  cases hheld : s.fetch.held with
  | none =>
      rw [hheld] at hend
      exact nomatch hend
  | some t => exact h.fetch.held t hheld

theorem Paced.within_next? {t : Token} (h : s.Paced k) (hnext : s.next?.1 = some t) :
    t.position.Within (k + s.caret.committed s.fetchSteps) := by
  rw [next?_eq] at hnext
  split at hnext
  · exact nomatch hnext
  · rename_i hend
    obtain rfl := Option.some.inj hnext
    exact h.within_take (by simpa using hend)

theorem Paced.drainOnto (taken : Array Token) (h : s.Paced k)
    (htaken : ∀ t ∈ taken, t.position.Within k) :
    (drainOnto taken s).2.Paced (k + s.caret.committed s.drainSteps) ∧
      ∀ t ∈ (drainOnto taken s).1, t.position.Within (k + s.caret.committed s.drainSteps) := by
  fun_induction Scanner.drainOnto taken s generalizing k with
  | case1 taken s s' hnext =>
      obtain rfl : s.take.2 = s' := congrArg Prod.snd hnext
      rw [drainSteps_of_none hnext]
      refine ⟨h.take, ?_⟩
      intro t ht
      exact (htaken t ht).mono (Nat.le_add_right _ _)
  | case2 taken s t s' hnext ih =>
      obtain rfl : s.take.2 = s' := congrArg Prod.snd hnext
      rw [drainSteps_of_some hnext, Caret.committed_append, ← Nat.add_assoc, ← caret_take]
      refine ih h.take ?_
      intro u hu
      rcases Array.mem_push.1 hu with hu | rfl
      · exact (htaken u hu).mono (Nat.le_add_right _ _)
      · exact h.within_next? (congrArg Prod.fst hnext)

/-- **One operation.** -/
theorem Paced.apply (h : s.Paced k) (op : Op) :
    (s.apply op).2.Paced (k + s.caret.committed (s.applySteps op)) ∧
      ∀ t ∈ (s.apply op).1.popped, t.isEnd = false →
        t.position.Within (k + s.caret.committed (s.applySteps op)) := by
  have hone : ∀ t ∈ [s.take.1], t.isEnd = false →
      t.position.Within (k + s.caret.committed s.fetchSteps) := by
    intro t ht hend
    obtain rfl := List.mem_singleton.1 ht
    exact h.within_take hend
  cases op with
  | peek => exact ⟨h.fetch, hone⟩
  | take => exact ⟨h.take, hone⟩
  | next =>
      refine ⟨h.take, ?_⟩
      intro t ht hend
      obtain rfl : t = s.next?.1.getD .endOfStream := List.mem_singleton.1 ht
      cases hnext : s.next?.1 with
      | none =>
          rw [hnext] at hend
          exact nomatch hend
      | some t => exact h.within_next? hnext
  | drain =>
      obtain ⟨hpaced, htokens⟩ := h.drainOnto #[] (by simp)
      refine ⟨hpaced, ?_⟩
      intro t ht hend
      rcases List.mem_append.1 ht with ht | ht
      · exact htokens t (Array.mem_toList_iff.1 ht)
      · obtain rfl := List.mem_singleton.1 ht
        exact nomatch hend

/-- **A run of operations.** -/
theorem Paced.after (h : s.Paced k) (ops : List Op) :
    (s.after ops).Paced (k + s.caret.committed (s.steps ops)) := by
  induction ops generalizing s k with
  | nil => exact h
  | cons op ops ih =>
      have hrest := ih (h.apply op).1
      rw [after_cons, steps, Caret.committed_append, ← Nat.add_assoc, ← (caret_apply s op).1]
      exact hrest

/-- **The counters of a scanner keep pace with its text.**  After any operations the caret has made
certain steps, and has committed `k` characters, which come from bytes that have been delivered.  The
place of the caret and that of the token that is held are within `k`; a token that is looked at or
taken next, a report included, is within the characters that are committed then.

At each point of the steps the counters are within the characters committed so far.  The line is one
or above, and **the column is zero only while a line break is being crossed**.  Over a source that
has fewer bytes than two below the number of words, the counters never wrap around. -/
theorem counters_keep_pace (events : Script) (ops : List Op) :
    let s := ofSource (.ofScript events)
    let walk := s.steps ops
    let k := s.caret.committed walk
    (s.after ops).caret = s.caret.after walk ∧
    k + (s.after ops).caret.text.length = (Utf8.decode events.bytes).length ∧
    k ≤ events.deliveredBy (s.after ops).reads ∧
    (s.after ops).Paced k ∧
    (∀ op, ∀ t ∈ ((s.after ops).apply op).1.popped, t.isEnd = false →
      t.position.Within (s.caret.committed (s.steps (ops ++ [op])))) ∧
    ∀ front back, walk = front ++ back →
      let p := (s.caret.after front).position
      1 ≤ p.line ∧ p.line + p.column ≤ 2 + s.caret.committed front ∧
        (p.column = 0 ↔ s.caret.Crossing front back) ∧
        (events.bytes.length < 2 ^ 64 - 2 → (Counters.after s.caret { } front).place = p) := by
  intro s walk k
  have hwalk : (s.after ops).caret = s.caret.after walk := caret_after s ops
  have hstart : s.caret.position = .start := Caret.position_ofSource _
  have horderly : s.caret.Orderly walk := orderly_steps s ops
  have hpaced : (s.after ops).Paced k := by
    have hafter := (paced_ofSource (.ofScript events)).after ops
    rwa [Nat.zero_add] at hafter
  refine ⟨hwalk, ?_, ?_, hpaced, ?_, ?_⟩
  · have htext := (Caret.sound_ofSource (.ofScript events)).committed_add_length walk
    rw [Caret.text_ofSource] at htext
    rwa [hwalk]
  · have hdelivered := Caret.committed_le_deliveredBy events walk
    rwa [reads, hwalk]
  · intro op t ht hend
    have htoken := (hpaced.apply op).2 t ht hend
    rwa [hwalk, ← Caret.committed_append, ← steps_singleton, ← steps_append] at htoken
  · intro front back hsplit p
    obtain ⟨hline, hadd⟩ := horderly.add_le (hstart ▸ Position.within_start) hsplit
    rw [Nat.zero_add] at hadd
    refine ⟨hline, hadd, horderly.column_eq_zero_iff (hstart ▸ Position.within_start) hsplit, ?_⟩
    intro hfew
    have hbytes : s.caret.committed walk + (s.caret.after walk).size ≤ events.bytes.length :=
      Caret.committed_ofSource_add_size_le (.ofScript events) walk
    exact Counters.place_after_of_orderly horderly hstart hsplit (by omega)

/-- A line break and a tabulator, a pair that arrives in two parts, a malformed byte, and a fault: all
bounds are attained, and the column is zero once. -/
theorem counters_keep_pace_of_failing :
    let events : Script := [.bytes [0x0a, 0x09, 0x3d], .fault (.ofKind .interrupted),
      .bytes [0x3d, 0xff], .fault (.ofKind .timedOut), .bytes [0x61]]
    let s := ofSource (.ofScript events)
    let front : List Caret.Op := [.breakLine]
    let back : List Caret.Op := [.advance, .advance, .lookAhead, .advance, .advance, .advance]
    let report := Token.failure "timed out" ⟨2, 5⟩
    (s.steps [.take, .take] = front ++ back ∧ s.caret.committed (front ++ back) = 5 ∧
      events.deliveredBy (s.after [.take, .take]).reads = 5 ∧ (s.after [.take, .take]).Paced 5) ∧
    (report ∈ ((s.after [.take, .take]).apply .next).1.popped ∧ report.isEnd = false ∧
      report.position.Within 5) ∧
    events.bytes.length < 2 ^ 64 - 2 ∧ (s.caret.after front).position = ⟨2, 0⟩ ∧
      s.caret.Crossing front back ∧ (Counters.after s.caret { } front).place = ⟨2, 0⟩ := by
  intro events s front back report
  obtain ⟨-, -, -, hpaced, htokens, hpoint⟩ := counters_keep_pace events [.take, .take]
  have hsteps : s.steps [.take, .take] = front ++ back := by decide +kernel
  have hcommitted : s.caret.committed (front ++ back) = 5 := by decide +kernel
  have hreport : report ∈ ((s.after [.take, .take]).apply .next).1.popped := by decide +kernel
  have hlater : s.caret.committed (s.steps ([.take, .take] ++ [.next])) = 5 := by decide +kernel
  have hfew : events.bytes.length < 2 ^ 64 - 2 := by decide +kernel
  have hplace : (s.caret.after front).position = ⟨2, 0⟩ := by decide +kernel
  obtain ⟨-, -, hcolumn, hwords⟩ := hpoint front back hsteps
  rw [hsteps, hcommitted] at hpaced
  refine ⟨⟨hsteps, hcommitted, by decide +kernel, hpaced⟩, ⟨hreport, rfl, ?_⟩, hfew, hplace, ?_, ?_⟩
  · exact hlater ▸ htokens .next report hreport rfl
  · exact hcolumn.1 (congrArg Position.column hplace)
  · exact (hwords hfew).trans hplace

end Scanner

end TokenStream
