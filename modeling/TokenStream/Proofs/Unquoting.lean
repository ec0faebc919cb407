/-
Written forms can be read back.

A text between quotes is read back character by character, and for this the escapes must not be
taken apart in a wrong place.  They cannot be: **each character is escaped to a piece that the
reader takes as a whole**, whatever is written behind it.  So a body reads back to its text, and a
quote inside of a body always has the backslash that belongs to it in front of it, which makes the
quote behind the body the first one that ends it.

* `Quoted.closing?` — where a body ends for a reader that only knows that a backslash belongs to the
  character behind it;
* `Quoted.ofDigits?_toDigits` — a character is found again by its number;
* `Quoted.closing?_body_append` — **a body holds no quote of its own**, so that it can be told from
  what follows it (`Quoted.quote_append_inj`);
* `Quoted.readBody?_escape_append`, `Quoted.unquote?_quote` — **a text is read back**.
-/

import TokenStream.Proofs.Quoting

set_option relaxedAutoImplicit false
set_option autoImplicit false

namespace TokenStream

namespace Quoted

/-- Where the first quote stands that no backslash belongs to. -/
def closing? : List Char → Option Nat
  | [] => none
  | '\\' :: _ :: rest => (closing? rest).map (· + 2)
  | c :: rest => if c = '"' then some 0 else (closing? rest).map (· + 1)

/-! ### Numbers of characters -/

/-- A digit has the value that it was written for. -/
theorem digitValue?_digitChar : ∀ d, d < 16 → digitValue? (Nat.digitChar d) = some d := by decide

/-- The digits of a number have values, and these make up the number. -/
theorem exists_values_toDigits (n : Nat) :
    ∃ values, (Nat.toDigits 16 n).mapM digitValue? = some values ∧
      values.foldl (fun n d => 16 * n + d) 0 = n := by
  induction n using Nat.strongRecOn with
  | ind n ih =>
      rw [Nat.toDigits_eq_if (by decide)]
      split
      · rename_i hlt
        exact ⟨[n], by simp [digitValue?_digitChar n hlt], by simp⟩
      · obtain ⟨values, hvalues, hfold⟩ := ih (n / 16) (by omega)
        have hlast := digitValue?_digitChar (n % 16) (Nat.mod_lt n (by decide))
        refine ⟨values ++ [n % 16], by simp [hvalues, hlast], ?_⟩
        rw [List.foldl_append, hfold]
        exact Nat.div_add_mod n 16

/-- A character is found again by its number. -/
theorem ofDigits?_toDigits (c : Char) : ofDigits? (Nat.toDigits 16 c.toNat) = some c := by
  obtain ⟨values, hvalues, hfold⟩ := exists_values_toDigits c.toNat
  have hvalid : c.toNat.isValidChar := c.valid
  simp [ofDigits?, hvalues, hfold, hvalid, Char.ofNat_toNat]

/-- The digits of a number end before the brace. -/
theorem ne_of_mem_toDigits {c : Char} {n : Nat} (h : c ∈ Nat.toDigits 16 n) :
    c ≠ '"' ∧ c ≠ '\\' ∧ c ≠ '\x7d' := by
  have hdigits : ∀ d, d < 16 → Nat.digitChar d ≠ '"' ∧ Nat.digitChar d ≠ '\\' ∧
      Nat.digitChar d ≠ '\x7d' := by decide
  obtain ⟨d, hd, rfl⟩ := exists_digitChar_of_mem_toDigits h
  exact hdigits d hd

/-! ### Where a body ends -/

/-- Characters that are neither quotes nor backslashes are passed over one by one. -/
theorem closing?_append {cs : List Char} (h : ∀ c ∈ cs, c ≠ '"' ∧ c ≠ '\\') (rest : List Char) :
    closing? (cs ++ rest) = (closing? rest).map (· + cs.length) := by
  induction cs with
  | nil => simp
  | cons c cs ih =>
      obtain ⟨⟨hquote, hback⟩, hcs⟩ := List.forall_mem_cons.1 h
      rw [List.cons_append, closing?, if_neg hquote, ih hcs, Option.map_map]
      · simp [Function.comp_def, Nat.add_assoc]
      · exact fun _ _ hc => absurd hc hback

/-- An escaped character is passed over as a whole. -/
theorem closing?_escape_append (c : Char) (rest : List Char) :
    closing? (escape c ++ rest) = (closing? rest).map (· + (escape c).length) := by
  fun_cases escape c with
  | case1 | case2 | case3 | case4 | case5 | case6 => rfl
  | case7 =>
      -- the backslash takes the letter with it, and nothing else in the number needs one
      have hplain : ∀ d ∈ '\x7b' :: (Nat.toDigits 16 c.toNat ++ ['\x7d']), d ≠ '"' ∧ d ≠ '\\' := by
        simp only [List.mem_cons, List.mem_append, List.mem_nil_iff, or_false]
        rintro d (rfl | hd | rfl)
        · decide
        · exact ⟨(ne_of_mem_toDigits hd).1, (ne_of_mem_toDigits hd).2.1⟩
        · decide
      have hnumber : byNumber c ++ rest =
          '\\' :: 'u' :: (('\x7b' :: (Nat.toDigits 16 c.toNat ++ ['\x7d'])) ++ rest) := by
        simp [byNumber]
      rw [hnumber, closing?, closing?_append hplain, Option.map_map]
      simp [Function.comp_def, byNumber, Nat.add_assoc]
  | case8 =>
      refine closing?_append ?_ rest
      intro d hd
      obtain rfl := List.mem_singleton.1 hd
      exact ⟨‹¬d = '"'›, ‹¬d = '\\'›⟩

/-- **A body holds no quote of its own**: the first one that ends it is the one behind it. -/
theorem closing?_body_append (cs rest : List Char) :
    closing? (body cs ++ '"' :: rest) = some (body cs).length := by
  induction cs with
  | nil => rfl
  | cons c cs ih =>
      rw [body_cons, List.append_assoc, closing?_escape_append, ih, List.length_append]
      exact congrArg some (Nat.add_comm _ _)

/-! ### Reading a body -/

/-- A letter behind a backslash is read as the character that it stands for. -/
theorem readBody?_letter_append {letter c : Char} (h : ofLetter? letter = some c)
    (rest : List Char) : readBody? ('\\' :: letter :: rest) = (readBody? rest).map (c :: ·) := by
  rw [readBody?, h]
  · cases readBody? rest <;> rfl
  · rintro rest' rfl -
    have hnone : ofLetter? 'u' = none := rfl
    exact absurd (hnone.symm.trans h) (by simp)

/-- A number in braces is read as the character that has it. -/
theorem readBody?_byNumber_append (c : Char) (rest : List Char) :
    readBody? (byNumber c ++ rest) = (readBody? rest).map (c :: ·) := by
  have hdigits : ∀ d ∈ Nat.toDigits 16 c.toNat, (d != '\x7d') = true := by
    intro d hd
    simpa using (ne_of_mem_toDigits hd).2.2
  have hnumber : byNumber c ++ rest =
      '\\' :: 'u' :: '\x7b' :: (Nat.toDigits 16 c.toNat ++ '\x7d' :: rest) := by
    simp [byNumber]
  have htake : (Nat.toDigits 16 c.toNat ++ '\x7d' :: rest).takeWhile (· != '\x7d') =
      Nat.toDigits 16 c.toNat := by
    rw [List.takeWhile_append_of_pos hdigits, List.takeWhile_cons_of_neg (by decide),
      List.append_nil]
  have hdrop : ((Nat.toDigits 16 c.toNat ++ '\x7d' :: rest).dropWhile (· != '\x7d')).drop 1 =
      rest := by
    rw [List.dropWhile_append_of_pos hdigits, List.dropWhile_cons_of_neg (by decide)]
    rfl
  rw [hnumber, readBody?, htake, hdrop, ofDigits?_toDigits]
  cases readBody? rest <;> rfl

/-- **An escaped character is read as a whole.** -/
theorem readBody?_escape_append (c : Char) (rest : List Char) :
    readBody? (escape c ++ rest) = (readBody? rest).map (c :: ·) := by
  fun_cases escape c with
  | case1 | case2 | case3 | case4 | case5 | case6 =>
      subst c
      exact readBody?_letter_append rfl rest
  | case7 => exact readBody?_byNumber_append c rest
  | case8 =>
      have hplain : ¬(c = '\\' ∨ c = '"' ∨ c = '\n') := by simp [*]
      rw [List.singleton_append, readBody?, if_neg hplain]
      · exact fun _ hc => absurd hc ‹¬c = '\\'›
      · exact fun _ _ hc => absurd hc ‹¬c = '\\'›

theorem readBody?_body (cs : List Char) : readBody? (body cs) = some cs := by
  induction cs with
  | nil => rw [body_nil, readBody?]
  | cons c cs ih => rw [body_cons, readBody?_escape_append, ih]; rfl

/-! ### Reading a text between quotes -/

theorem toList_quote (s : String) : (quote s).toList = '"' :: (body s.toList ++ ['"']) := by
  rw [quote, String.toList_ofList]
  rfl

/-- **A text between quotes is read back.** -/
theorem unquote?_quote (s : String) : unquote? (quote s) = some s := by
  rw [unquote?, toList_quote]
  simp [readBody?_body]

/-- Texts between quotes can be told from what is written behind them. -/
theorem quote_append_inj {s t : String} {cs ds : List Char}
    (h : (quote s).toList ++ cs = (quote t).toList ++ ds) : s = t ∧ cs = ds := by
  have hshape : ∀ (s : String) (cs : List Char),
      (quote s).toList ++ cs = '"' :: (body s.toList ++ '"' :: cs) := by
    intro s cs
    simp [toList_quote]
  rw [hshape, hshape] at h
  have hbody := (List.cons.inj h).2
  -- the two bodies end at the same place
  have hlength : (body s.toList).length = (body t.toList).length :=
    Option.some.inj (by rw [← closing?_body_append _ cs, hbody, closing?_body_append])
  obtain ⟨hsame, hrest⟩ := List.append_inj hbody hlength
  refine ⟨?_, (List.cons.inj hrest).2⟩
  have hread := readBody?_body s.toList
  rw [hsame, readBody?_body] at hread
  exact (String.toList_inj.1 (Option.some.inj hread)).symm

end Quoted

end TokenStream
