/-
A scanner stops right behind its token.

Whoever types a text and waits for the answers does not want a scanner to ask for more than it
needs.  To know that a token is over, one character behind it has to be seen, and **this one is all
that is ever seen**: when a token has been found, the caret stands on the character behind its
value, at the place of that character, with nothing looked at and nothing read beyond it.  A symbol
that is looked behind, a pair of symbols and a word end alike in this.

Consequently a token depends on the bytes that were demanded up to that character, and on no others.
Sources that agree on these bytes give the same answers up to the token, whether they go on, end or
fail.

* `Token.EndsAt`, `Token.EndsAt.unique` — where a token ends;
* `Caret.Rests`, `Caret.Rests.scan` — **one scan** leads from the end of a token to the end of the
  next one;
* `Scanner.Rests`, `Scanner.Rests.after` — a run of operations;
* `Caret.StopsBefore` — a caret that has read up to a character, and not beyond it;
* `Cut.exists_cut` — a token depends on one character behind it;
* `Scanner.Genuine.answers_eq_of_queue` — answers depend on the tokens that they name;
* `Script.stops_behind_token` — **where a scanner stops, and what its answers depend on**.
-/

import TokenStream.Proofs.Demand
import TokenStream.Proofs.Exhaustion
import TokenStream.Proofs.Joining

set_option relaxedAutoImplicit false
set_option autoImplicit false

namespace TokenStream

/-! ### Where a token ends -/

namespace Position

theorem leadsTo_after (p : Position) (cs : List Char) : p.LeadsTo (p.after cs) := by
  induction cs generalizing p with
  | nil => exact .refl p
  | cons c cs ih => exact (leadsTo_step p c).trans (ih (p.step c))

/-- Walking leads back to no place. -/
theorem eq_nil_of_after_eq {p : Position} {cs : List Char} (h : p.after cs = p) : cs = [] := by
  cases cs with
  | nil => rfl
  | cons c cs =>
      have hback : (p.step c).LeadsTo p := by
        rw [after_cons] at h
        have hrest := leadsTo_after (p.step c) cs
        rwa [h] at hrest
      unfold step at hback
      split at hback <;> simp only [LeadsTo, nextLine, nextColumn] at hback <;> omega

/-- Places in a text have different positions. -/
theorem eq_of_behind_eq {before before' text : List Char} (h : before <+: text)
    (h' : before' <+: text) (hposition : behind before = behind before') : before = before' := by
  rcases List.prefix_or_prefix_of_prefix h h' with ⟨more, rfl⟩ | ⟨more, rfl⟩
  · rw [← after_behind] at hposition
    rw [eq_nil_of_after_eq hposition.symm, List.append_nil]
  · rw [← after_behind] at hposition
    rw [eq_nil_of_after_eq hposition, List.append_nil]

end Position

/-- The value of the token ends right before the character with the index `e`, and its position is
the place where the value begins. -/
def Token.EndsAt (t : Token) (text : List Char) (e : Nat) : Prop :=
  ∃ before, before ++ t.value.toList <+: text ∧ t.position = .behind before ∧
    e = (before ++ t.value.toList).length

/-- A token ends at one place only. -/
theorem Token.EndsAt.unique {t : Token} {text : List Char} {e e' : Nat} (h : t.EndsAt text e)
    (h' : t.EndsAt text e') : e = e' := by
  obtain ⟨before, hvalue, hposition, rfl⟩ := h
  obtain ⟨before', hvalue', hposition', rfl⟩ := h'
  have hsame : before = before' :=
    Position.eq_of_behind_eq ((List.prefix_append _ _).trans hvalue)
      ((List.prefix_append _ _).trans hvalue') (hposition.symm.trans hposition')
  rw [hsame]

namespace Caret

variable {c : Caret} {text : List Char} {e : Nat}

/-! ### Nothing is looked at behind a token -/

theorem ahead_takeSymbol (c : Caret) (first : Char) (kind : Kind) :
    (c.takeSymbol first kind).2.ahead = none := by
  unfold takeSymbol
  split
  split <;> exact ahead_advance _

theorem ahead_wordOnto (taken : String) (h : c.ahead = none) :
    (wordOnto taken c).2.ahead = none := by
  fun_induction wordOnto taken c with
  | case1 taken c hnone => exact h
  | case2 taken c char hchar hblank => exact h
  | case3 taken c char hchar hblank ih => exact ih (ahead_advance c)

theorem ahead_skipBlanks (h : c.ahead = none) : c.skipBlanks.ahead = none := by
  fun_induction skipBlanks c with
  | case1 c hnone => exact h
  | case2 c hline ih => exact ih (ahead_advance _)
  | case3 c char hchar hline hspace ih => exact ih (ahead_advance _)
  | case4 c char hchar hline hspace => exact h

/-- Whatever a scan looks at, it moves over it or ends on it. -/
theorem ahead_scan (h : c.ahead = none) : c.scan.2.ahead = none := by
  have hskipped := ahead_skipBlanks h
  rw [scan, tokenHere]
  split
  · have hreport : c.skipBlanks.failure?.2 = c.skipBlanks.takeFault.2 := rfl
    rw [hreport, takeFault_eq]
    exact hskipped
  · split
    · exact ahead_takeSymbol _ _ _
    · exact ahead_wordOnto "" hskipped

/-! ### One scan -/

/-- The caret stands on the character with the index `e` of the text, at the place of that
character, and nothing has been looked at behind it. -/
structure Rests (text : List Char) (e : Nat) (c : Caret) : Prop where
  le_length : e ≤ text.length
  stands : c.At (.behind (text.take e)) (text.drop e)
  ahead_eq : c.ahead = none

theorem rests_ofSource (source : Source) : (ofSource source).Rests (Utf8.decode source.bytes) 0 :=
  ⟨Nat.zero_le _, at_ofSource source, rfl⟩

/-- A scan ends behind the token that it finds. -/
theorem At.exists_stop {before rest : List Char} (h : c.At (.behind before) rest) :
    ∃ front back, before ++ rest = front ++ back ∧ c.scan.2.At (.behind front) back ∧
      ∀ t, c.scan.1 = some t → t.EndsAt (before ++ rest) front.length := by
  induction rest generalizing c before with
  | nil =>
      obtain ⟨hreport, hat, -⟩ := h.failure?_spec
      refine ⟨before, [], rfl, ?_, ?_⟩
      · rwa [h.scan_nil]
      · intro t ht
        -- the report has no value, and stands at the end of the text
        rw [h.scan_nil, hreport, report?] at ht
        split at ht
        · cases ht
        · obtain ⟨cause, -, rfl⟩ := Option.map_eq_some_iff.1 ht
          refine ⟨before, ?_, rfl, ?_⟩
          · exact List.prefix_refl _
          · rw [Token.failure, String.toList_empty, List.append_nil]
  | cons char rest ih =>
      cases hblank : isBlank char with
      | true =>
          have hskip : (c.skipBlank char).At (.behind (before ++ [char])) rest := by
            rw [Position.behind_append_singleton]
            exact h.skipBlank
          rw [h.scan_blank hblank, List.append_cons]
          exact ih hskip
      | false =>
          obtain ⟨htoken, hat⟩ := h.scan_front hblank
          have hsplit : before ++ char :: rest =
              before ++ (Cut.front char rest).1.value.toList ++ (Cut.front char rest).2 := by
            rw [List.append_assoc, Cut.front_append]
          rw [Position.after_behind] at hat
          refine ⟨_, _, hsplit, hat, ?_⟩
          intro t ht
          obtain rfl := Option.some.inj (htoken.symm.trans ht)
          refine ⟨before, ?_, rfl, rfl⟩
          rw [hsplit]
          exact List.prefix_append _ _

/-- **One scan** leads right behind the token that it finds. -/
theorem Rests.scan (h : c.Rests text e) :
    ∃ e', c.scan.2.Rests text e' ∧ ∀ t, c.scan.1 = some t → t.EndsAt text e' := by
  obtain ⟨front, back, hsplit, hat, hends⟩ := h.stands.exists_stop
  rw [List.take_append_drop] at hsplit hends
  refine ⟨front.length, ⟨?_, ?_, ahead_scan h.ahead_eq⟩, hends⟩
  · rw [hsplit, List.length_append]
    exact Nat.le_add_right _ _
  · rw [hsplit, List.take_left, List.drop_left]
    exact hat

end Caret

namespace Scanner

variable {s : Scanner} {text : List Char} {e : Nat}

/-! ### A run of operations -/

/-- The caret of the scanner rests behind the last token that was found; this is the token that is
held, if one is held. -/
structure Rests (text : List Char) (e : Nat) (s : Scanner) : Prop where
  caret : s.caret.Rests text e
  held : ∀ t, s.held = some t → t.EndsAt text e

theorem rests_ofSource (source : Source) : (ofSource source).Rests (Utf8.decode source.bytes) 0 :=
  ⟨Caret.rests_ofSource source, nofun⟩

theorem Rests.fetch (h : s.Rests text e) : ∃ e', s.fetch.Rests text e' := by
  cases hheld : s.held with
  | some t =>
      rw [fetch_of_held hheld]
      exact ⟨e, h⟩
  | none =>
      obtain ⟨e', hcaret, hends⟩ := h.caret.scan
      rw [fetch_of_none hheld]
      exact ⟨e', hcaret, hends⟩

theorem Rests.take (h : s.Rests text e) : ∃ e', s.take.2.Rests text e' := by
  obtain ⟨e', hfetch⟩ := h.fetch
  exact ⟨e', hfetch.caret, nofun⟩

/-- **One operation.** -/
theorem Rests.apply (h : s.Rests text e) (op : Op) : ∃ e', (s.apply op).2.Rests text e' := by
  cases op with
  | peek => exact h.fetch
  | take => exact h.take
  | next => exact h.take
  | drain =>
      refine drainOnto_of_take (Q := fun s => ∃ e', s.Rests text e') ?_ #[] ⟨e, h⟩
      rintro s ⟨e', h'⟩
      exact h'.take

/-- **A run of operations.** -/
theorem Rests.after (h : s.Rests text e) (ops : List Op) : ∃ e', (s.after ops).Rests text e' := by
  induction ops generalizing s e with
  | nil => exact ⟨e, h⟩
  | cons op ops ih =>
      obtain ⟨e', happly⟩ := h.apply op
      exact ih happly

/-- A token that is looked at or taken is the one that the caret rests behind. -/
theorem Rests.endsAt_first (h : s.Rests text e) {op : Op} (hop : op ≠ .drain)
    (hend : (s.apply op).1.first.isEnd = false) :
    ∃ e', (s.apply op).2.caret.Rests text e' ∧ (s.apply op).1.first.EndsAt text e' := by
  obtain ⟨e', hfetch⟩ := h.fetch
  have hfirst : (s.apply op).1.first = s.fetch.held.getD .endOfStream ∧
      (s.apply op).2.caret = s.fetch.caret := by
    cases op with
    | peek => exact ⟨rfl, rfl⟩
    | take => exact ⟨rfl, rfl⟩
    | drain => exact absurd rfl hop
    | next =>
        refine ⟨?_, rfl⟩
        have hreply : (s.apply .next).1.first =
            (if s.take.1.isEnd then none else some s.take.1).getD .endOfStream := rfl
        rw [hreply] at hend ⊢
        split at hend
        · exact nomatch hend
        · rw [if_neg ‹_›]
          rfl
  rw [hfirst.1] at hend ⊢
  rw [hfirst.2]
  cases hheld : s.fetch.held with
  | none =>
      rw [hheld] at hend
      exact nomatch hend
  | some t => exact ⟨e', hfetch.caret, hfetch.held t hheld⟩

end Scanner

namespace Caret

/-! ### What has been read -/

/-- The caret has read the characters up to the one with the index `e`, on which it stands, and
nothing behind it; behind the last character it has met the end.  Its source has given the bytes
that these characters demand. -/
structure StopsBefore (events : Script) (e : Nat) (c : Caret) : Prop where
  current_eq : c.current = (Utf8.decode events.bytes)[e]?
  ahead_eq : c.ahead = none
  position_eq : c.position = .behind ((Utf8.decode events.bytes).take e)
  pieces_eq : Utf8.pieces c.input.bytes = (Utf8.pieces events.bytes).drop (e + 1)
  drawn : c.input.Drawn events.bytes (e + 1)
  ended : (Utf8.decode events.bytes).length ≤ e → c.input.Ended

variable {c : Caret} {bytes : List UInt8} {i e : Nat}

/-- The text before a caret begins with the piece that it stands on. -/
theorem Reads.text_eq (h : c.Reads (Utf8.pieces bytes) i) (ha : c.ahead = none) :
    c.text = (Utf8.decode bytes).drop i := by
  have hpieces := h.pieces_eq
  rw [ha] at hpieces
  have hrest : Utf8.decode c.input.bytes = (Utf8.decode bytes).drop (i + 1) := by
    rw [← Utf8.map_char_pieces, hpieces, List.map_drop, Utf8.map_char_pieces]
    rfl
  have hcurrent : c.current = (Utf8.decode bytes)[i]? := by
    rw [h.current_eq, ← List.getElem?_map, Utf8.map_char_pieces]
  rw [text, ha, hcurrent, hrest, Option.join_none, Option.toList_none, List.append_nil]
  exact List.drop_eq_getElem?_toList_append.symm

/-- A caret that rests on a character has read up to this character. -/
theorem Rests.stopsBefore {events : Script} (h : c.Rests (Utf8.decode events.bytes) e)
    (hdraws : c.Draws events.bytes i) : c.StopsBefore events e := by
  have hreads := hdraws.reads
  have hdrawn := hdraws.drawn
  have hpieces := hreads.pieces_eq
  have htext := congrArg List.length (hreads.text_eq h.ahead_eq)
  rw [h.ahead_eq] at hdrawn hpieces
  rw [h.stands.text_eq, List.length_drop, List.length_drop] at htext
  have hle := h.le_length
  have hindex : (Utf8.pieces c.input.bytes = (Utf8.pieces events.bytes).drop (e + 1)) ∧
      c.input.Drawn events.bytes (e + 1) := by
    rcases Nat.lt_or_ge e (Utf8.decode events.bytes).length with hlt | hge
    · obtain rfl : i = e := by omega
      exact ⟨hpieces, hdrawn⟩
    · -- behind the last character the index does not matter any more
      rw [← Utf8.length_pieces] at hge htext
      have hi : (Utf8.pieces events.bytes).length < i + 1 := by omega
      have he : (Utf8.pieces events.bytes).length < e + 1 := by omega
      have hdemand : Utf8.demand events.bytes (i + 1) = Utf8.demand events.bytes (e + 1) := by
        rw [Utf8.demand_of_length_lt hi, Utf8.demand_of_length_lt he]
      refine ⟨?_, ?_, ?_⟩
      · rw [hpieces, List.drop_of_length_le (Nat.le_of_lt he)]
        exact List.drop_of_length_le (Nat.le_of_lt hi)
      · rw [← hdemand]
        exact hdrawn.bytes_eq
      · rw [← hdemand]
        exact hdrawn.fault?_eq
  refine ⟨?_, h.ahead_eq, h.stands.position_eq, hindex.1, hindex.2, ?_⟩
  · rw [h.stands.current_eq, List.head?_drop]
  · intro hge
    have hcurrent : c.current = none := by
      rw [h.stands.current_eq, List.drop_of_length_le hge, List.head?_nil]
    exact (h.stands.sound.of_current hcurrent).2

end Caret

/-! ### What a token depends on -/

namespace Cut

/-- **A token depends on one character behind it**: behind its value and that character the text can
be replaced, and the token is found there all the same, behind the same tokens. -/
theorem exists_cut {p : Position} {cs : List Char} {before behind : List Token} {t : Token}
    (h : tokens p cs = before ++ t :: behind) :
    ∃ gap back, cs = gap ++ t.value.toList ++ back ∧ t.position = p.after gap ∧
      ∀ ds, ds.head? = back.head? →
        ∃ behind', tokens p (gap ++ t.value.toList ++ ds) = before ++ t :: behind' := by
  fun_induction tokens p cs generalizing before with
  | case1 p => exact absurd h.symm (by simp)
  | case2 p c rest hblank ih =>
      obtain ⟨gap, back, rfl, hposition, hds⟩ := ih h
      refine ⟨c :: gap, back, rfl, hposition, ?_⟩
      intro ds hhead
      obtain ⟨behind', hbehind'⟩ := hds ds hhead
      refine ⟨behind', ?_⟩
      rw [← hbehind']
      exact tokens_blank p _ hblank
  | case3 p c rest hblank ih =>
      have hblank : isBlank c = false := by simpa using hblank
      have hvalue : Token.isValueOf _ (front c rest).1.kind = true := isValueOf_front hblank
      have hends := endsBefore_front c rest
      have hsplit := front_append c rest
      cases before with
      | nil =>
          -- the token is the lexeme in front
          obtain ⟨rfl, -⟩ := List.cons.inj h
          refine ⟨[], (front c rest).2, hsplit.symm, rfl, ?_⟩
          intro ds hhead
          exact ⟨_, tokens_placed_append p hvalue (hends.of_head? hhead.symm)⟩
      | cons first before =>
          obtain ⟨rfl, hrest⟩ := List.cons.inj h
          obtain ⟨gap, back, hback, hposition, hds⟩ := ih hrest
          refine ⟨(front c rest).1.value.toList ++ gap, back, ?_, ?_, ?_⟩
          · rw [← hsplit, hback]
            simp only [List.append_assoc]
          · rw [hposition, Position.after_append]
          · intro ds hhead
            obtain ⟨behind', hbehind'⟩ := hds ds hhead
            have hends' : (front c rest).1.kind.EndsBefore (gap ++ t.value.toList ++ ds) := by
              refine hends.of_head? ?_
              simp only [hback, List.head?_append, hhead]
            refine ⟨behind', ?_⟩
            rw [List.append_assoc, List.append_assoc, ← List.append_assoc gap,
              tokens_placed_append p hvalue hends', hbehind']
            rfl

/-- Texts that agree up to the character behind a token have this token, and those in front of it,
in common. -/
theorem tokens_of_take_eq {text text' : List Char} {before behind : List Token} {t : Token}
    {e : Nat} (h : tokens .start text = before ++ t :: behind) (hends : t.EndsAt text e)
    (hagree : text'.take (e + 1) = text.take (e + 1)) :
    ∃ behind', tokens .start text' = before ++ t :: behind' := by
  obtain ⟨gap, back, rfl, hposition, hds⟩ := exists_cut h
  rw [Position.start_after] at hposition
  obtain rfl := hends.unique ⟨gap, List.prefix_append _ _, hposition, rfl⟩
  have hfront : gap ++ t.value.toList <+: text'.take ((gap ++ t.value.toList).length + 1) := by
    rw [hagree, List.take_length_add_append]
    exact List.prefix_append _ _
  obtain ⟨ds, rfl⟩ := hfront.trans (List.take_prefix _ _)
  rw [List.take_length_add_append, List.take_length_add_append] at hagree
  have hhead : ds.head? = back.head? := by
    have htake := congrArg List.head? (List.append_cancel_left hagree)
    rwa [List.head?_take, List.head?_take, if_neg Nat.one_ne_zero, if_neg Nat.one_ne_zero] at htake
  exact hds ds hhead

end Cut

namespace Scanner

variable {events events' : Script} {before behind : List Token} {t : Token} {e : Nat}

/-- A token to come that carries no error is a token of the text. -/
theorem tokens_of_queue
    (h : (ofSource (.ofScript events)).queue = before ++ t :: behind) (ht : t.error = none) :
    ∃ behind', Cut.tokens .start (Utf8.decode events.bytes) = before ++ t :: behind' := by
  have hnot : ∀ p : Position,
      t ∉ (events.ending.fault?.map fun cause => .failure cause.message p).toList := by
    intro p hmem
    obtain ⟨cause, -, rfl⟩ := Option.map_eq_some_iff.1 (Option.mem_toList.1 hmem)
    exact nomatch ht
  rw [queue_ofScript, List.append_eq_append_iff] at h
  rcases h with ⟨more, -, hreport⟩ | ⟨more, htokens, hmore⟩
  · exact absurd (hreport ▸ List.mem_append_right _ List.mem_cons_self) (hnot _)
  · cases more with
    | nil => exact absurd (hmore ▸ List.mem_cons_self) (hnot _)
    | cons u more =>
        obtain ⟨rfl, -⟩ := List.cons.inj hmore
        exact ⟨more, htokens⟩

/-- A token to come that carries an error ends where the text ends, and there is a fault that it
reports. -/
theorem endsAt_of_error (h : t ∈ (ofSource (.ofScript events)).queue) (ht : t.error.isSome) :
    t.EndsAt (Utf8.decode events.bytes) (Utf8.decode events.bytes).length ∧
      ∃ cause, events.ending.fault? = some cause := by
  rw [queue_ofScript] at h
  rcases List.mem_append.1 h with h | h
  · rw [Cut.error_of_mem_tokens h] at ht
    exact nomatch ht
  · obtain ⟨cause, hcause, rfl⟩ := Option.map_eq_some_iff.1 (Option.mem_toList.1 h)
    refine ⟨⟨Utf8.decode events.bytes, ?_, Position.start_after _, ?_⟩, cause, hcause⟩
    · simp [Token.failure]
    · simp [Token.failure]

/-- A token that is looked at or taken was the first one to come. -/
theorem Genuine.queue_eq_cons {s : Scanner} (h : s.Genuine) {op : Op}
    (hend : (s.apply op).1.first.isEnd = false) :
    ∃ behind, s.queue = (s.apply op).1.first :: behind := by
  have hfirst : (s.apply op).1.first = s.queue.head?.getD .endOfStream := by
    rw [(h.apply op).1, Op.first_onQueue]
  rw [hfirst] at hend ⊢
  cases hqueue : s.queue with
  | nil =>
      rw [hqueue] at hend
      exact nomatch hend
  | cons t behind => exact ⟨behind, rfl⟩

/-- Scanners with the same tokens to come, up to one that is not taken, answer alike. -/
theorem Genuine.answers_eq_of_queue {s s' : Scanner} (h : s.Genuine) (h' : s'.Genuine)
    {before behind behind' : List Token} {t : Token} (hqueue : s.queue = before ++ t :: behind)
    (hqueue' : s'.queue = before ++ t :: behind') {ops : List Op}
    (hafter : (s.after ops).queue = t :: behind) {op : Op} (hop : op ≠ .drain) :
    s.answers (ops ++ [op]) = s'.answers (ops ++ [op]) := by
  induction ops generalizing s s' before with
  | nil =>
      obtain rfl : before = [] := by
        have hlength := congrArg List.length (hqueue.symm.trans hafter)
        simpa using hlength
      have happly := (h.apply op).1
      have happly' := (h'.apply op).1
      rw [hqueue] at happly
      rw [hqueue'] at happly'
      rw [List.nil_append, answers_cons, answers_cons, happly, happly']
      cases op with
      | drain => exact absurd rfl hop
      | peek | take | next => rfl
  | cons first ops ih =>
      obtain ⟨hreply, hrest, hgenuine⟩ := h.apply first
      obtain ⟨hreply', hrest', hgenuine'⟩ := h'.apply first
      have htaken := hgenuine.taken_append_queue ops
      rw [after_cons] at hafter
      rw [hafter] at htaken
      rw [hqueue] at hreply hrest
      rw [hqueue'] at hreply' hrest'
      have hreplies : (s.apply first).1 = (s'.apply first).1 := by
        rw [hreply, hreply']
        cases first with
        | drain =>
            rw [hrest] at htaken
            exact absurd htaken (by simp [Op.onQueue])
        | peek | take | next => cases before <;> rfl
      rw [List.cons_append, answers_cons, answers_cons, hreplies]
      congr 1
      cases first with
      | drain =>
          rw [hrest] at htaken
          exact absurd htaken (by simp [Op.onQueue])
      | peek => exact ih hgenuine hgenuine' hrest hrest' hafter
      | take | next =>
          cases before with
          | nil =>
              -- the token would have been taken
              have hlength := congrArg List.length (htaken.trans hrest)
              simp [Op.onQueue] at hlength
              omega
          | cons b before => exact ih hgenuine hgenuine' hrest hrest' hafter

/-- A source with the bytes that were demanded for a token has this token to come, and those in
front of it. -/
theorem exists_queue_of_take_eq
    (h : (ofSource (.ofScript events)).queue = before ++ t :: behind)
    (hends : t.EndsAt (Utf8.decode events.bytes) e)
    (hbytes : events'.bytes.take (Utf8.demand events.bytes (e + 1)) =
      events.bytes.take (Utf8.demand events.bytes (e + 1)))
    (hreason : t.error.isSome → events'.ending.reason? = events.ending.reason?) :
    ∃ behind', (ofSource (.ofScript events')).queue = before ++ t :: behind' := by
  cases ht : t.error with
  | none =>
      obtain ⟨behind', htokens⟩ := tokens_of_queue h ht
      have hagree := Utf8.take_decode_of_take_demand hbytes.symm
      obtain ⟨behind'', htokens'⟩ := Cut.tokens_of_take_eq htokens hends hagree.symm
      rw [queue_ofScript, htokens', List.append_assoc]
      exact ⟨_, rfl⟩
  | some error =>
      -- the end of the bytes was asked for, and so all of them agree
      have herror : t.error.isSome := by rw [ht]; rfl
      have hlast := (endsAt_of_error (h ▸ List.mem_append_right _ List.mem_cons_self) herror).1
      obtain rfl := hends.unique hlast
      have hover := Utf8.length_lt_demand events.bytes
      have hsame : events'.bytes = events.bytes := by
        rw [List.take_of_length_le (Nat.le_of_lt hover)] at hbytes
        have hlength := congrArg List.length hbytes
        rw [List.length_take] at hlength
        rwa [List.take_of_length_le (by omega)] at hbytes
      have hqueue : (ofSource (.ofScript events')).queue = (ofSource (.ofScript events)).queue := by
        rw [queue, queue, Source.drain_eq_of_reason, Source.drain_eq_of_reason,
          Source.ending_ofScript, Source.ending_ofScript, hreason herror, Source.bytes_ofScript,
          Source.bytes_ofScript, hsame]
      exact ⟨behind, hqueue.trans h⟩

end Scanner

namespace Script

/-- **A scanner stops right behind its token, and has not asked for more.**  Let `t` be a token that
is looked at or taken after any operations.  There is one index `e` before which `t` ends.  Then the
caret has read the characters up to the one with this index, on which it stands, and its source has
given the bytes that they demand.  Every source with the same bytes up to there answers the same,
whatever it holds behind them; only for a report it has to fail with the same words. -/
theorem stops_behind_token (events : Script) (ops : List Scanner.Op) {op : Scanner.Op}
    (hop : op ≠ .drain)
    (hend : (((Scanner.ofSource (.ofScript events)).after ops).apply op).1.first.isEnd = false) :
    let s := Scanner.ofSource (.ofScript events)
    let t := ((s.after ops).apply op).1.first
    ∃ e, (∀ e', t.EndsAt (Utf8.decode events.bytes) e' ↔ e' = e) ∧
      (s.after (ops ++ [op])).caret.StopsBefore events e ∧
      ∀ events' : Script,
        events'.bytes.take (Utf8.demand events.bytes (e + 1)) =
          events.bytes.take (Utf8.demand events.bytes (e + 1)) →
        (t.error.isSome → events'.ending.reason? = events.ending.reason?) →
        (Scanner.ofSource (.ofScript events')).answers (ops ++ [op]) = s.answers (ops ++ [op]) := by
  intro s t
  have hs : s.Genuine := Scanner.genuine_ofSource _
  obtain ⟨e₀, hrests⟩ := (Scanner.rests_ofSource (.ofScript events)).after ops
  obtain ⟨e, hcaret, hends⟩ := hrests.endsAt_first hop hend
  obtain ⟨i, hdraws⟩ := Scanner.preserved_after (Caret.preserved_draws events.bytes)
    (s := s) ⟨0, Caret.draws_ofScript events⟩ (ops ++ [op])
  have hstop : (s.after (ops ++ [op])).caret.Rests (Utf8.decode events.bytes) e := by
    rw [Scanner.after_append]
    exact hcaret
  refine ⟨e, ?_, hstop.stopsBefore hdraws, ?_⟩
  · intro e'
    constructor
    · intro hends'
      exact hends'.unique hends
    · rintro rfl
      exact hends
  · intro events' hbytes hreason
    -- the token is the first one to come after the operations
    obtain ⟨behind, hafter⟩ : ∃ behind, (s.after ops).queue = t :: behind :=
      (hs.after ops).queue_eq_cons hend
    have hqueue : s.queue = s.taken ops ++ t :: behind := by
      rw [← hafter, hs.taken_append_queue]
    have hs' : (Scanner.ofSource (.ofScript events')).Genuine := Scanner.genuine_ofSource _
    obtain ⟨behind', hqueue'⟩ := Scanner.exists_queue_of_take_eq hqueue hends hbytes hreason
    exact (hs.answers_eq_of_queue hs' hqueue hqueue' hafter hop).symm

/-- An equals sign in front of a byte that announces two more, and another source that fails behind
these. -/
theorem stops_behind_token_of_truncated :
    let events : Script := [.bytes [0x61, 0x0a, 0x3d, 0xe2], .fault (.ofKind .interrupted),
      .bytes [0x82, 0x61, 0x20, 0x62]]
    let events' : Script := [.bytes [0x61, 0x0a, 0x3d, 0xe2, 0x82, 0x61],
      .fault (.ofKind .timedOut)]
    let s := Scanner.ofSource (.ofScript events)
    let c := (s.after [.next, .peek]).caret
    Scanner.Op.peek ≠ .drain ∧
      ((s.after [.next]).apply .peek).1.first = ⟨.assignment, ⟨2, 1⟩, "=", none⟩ ∧
      c.current = some Utf8.replacement ∧ c.ahead = none ∧ c.position = ⟨2, 2⟩ ∧
      c.input.source.bytes = [0x20, 0x62] ∧
      (Scanner.ofSource (.ofScript events')).answers [.next, .peek] = s.answers [.next, .peek] := by
  intro events events' s c
  have hop : Scanner.Op.peek ≠ .drain := by decide
  have hfirst : ((s.after [.next]).apply .peek).1.first = ⟨.assignment, ⟨2, 1⟩, "=", none⟩ := by
    decide +kernel
  have hdecode : Utf8.decode events.bytes =
      ['a', '\n', '=', Utf8.replacement, Utf8.replacement, 'a', ' ', 'b'] := by decide +kernel
  have hdemand : Utf8.demand events.bytes 4 = 6 := by decide +kernel
  obtain ⟨e, hends, hstop, hagree⟩ := stops_behind_token events [.next] hop (by rw [hfirst]; rfl)
  rw [hfirst, hdecode] at hends
  obtain rfl : 3 = e := (hends 3).1 ⟨['a', '\n'], by decide, rfl, rfl⟩
  have hcurrent := hstop.current_eq
  have hposition := hstop.position_eq
  have hbytes := hstop.drawn.bytes_eq
  rw [hdecode] at hcurrent hposition
  rw [hdemand] at hbytes hagree
  refine ⟨hop, hfirst, hcurrent, hstop.ahead_eq, hposition, hbytes, hagree events' rfl ?_⟩
  intro herror
  rw [hfirst] at herror
  exact nomatch herror

end Script

end TokenStream
