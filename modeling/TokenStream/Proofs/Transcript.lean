/-
What is printed about tokens tells them apart.

A printed token is taken apart from the left.  Its position holds no blank, nor does the name of its
kind, so the first two blanks of a line end them; and the quoted value ends where its body is over,
whatever characters the value is made of.  **Nothing about a token without an error is lost** when
it is written, neither in the written form of the token itself nor on the line that a run prints for
it.  Since no line holds a line break, the lines of a whole run can be told from each other as well,
and a run that goes well has printed no less than the tokens of its source.

* `Position.text_inj`, `Kind.name_inj` — the parts of a written token;
* `Token.text_inj`, `Invocation.tokenLine_inj` — **written tokens**;
* `Outcome.textOf_inj` — lines that are printed one below the other;
* `Invocation.transcript_faithful` — **what a run prints tells its tokens**.
-/

import TokenStream.Proofs.Rereading
import TokenStream.Proofs.Unquoting

set_option relaxedAutoImplicit false
set_option autoImplicit false

namespace TokenStream

/-- A text is told from what follows it by a character that it does not hold. -/
theorem append_cons_inj {c : Char} {as bs cs ds : List Char} (ha : c ∉ as) (hb : c ∉ bs)
    (h : as ++ c :: cs = bs ++ c :: ds) : as = bs ∧ cs = ds := by
  have hfront : ∀ {as cs : List Char}, c ∉ as → (as ++ c :: cs).takeWhile (· != c) = as := by
    intro as cs hc
    have hall : ∀ a ∈ as, (a != c) = true := fun a ha =>
      bne_iff_ne.2 fun heq => hc (heq ▸ ha)
    rw [List.takeWhile_append_of_pos hall, List.takeWhile_cons_of_neg (by simp), List.append_nil]
  have hsame : as = bs := by rw [← hfront ha, h, hfront hb]
  rw [hsame] at h
  exact ⟨hsame, (List.cons.inj (List.append_cancel_left h)).2⟩

/-! ### Written tokens -/

/-- A number is told by its digits. -/
theorem toString_nat_inj {m n : Nat} (h : (toString m).toList = (toString n).toList) : m = n := by
  simp only [Nat.toString_eq_ofList_toDigits, String.toList_ofList] at h
  have hread := congrArg (Nat.ofDigitChars 10 · 0) h
  simpa [Nat.ofDigitChars_toDigits] using hread

theorem Position.text_inj {p q : Position} (h : p.text = q.text) : p = q := by
  have htext : ∀ p : Position,
      p.text.toList = (toString p.line).toList ++ ':' :: (toString p.column).toList := by
    intro p
    have hparts : p.text = toString p.line ++ ":" ++ toString p.column := rfl
    simp [hparts]
  have hcolon : ∀ n : Nat, ':' ∉ (toString n).toList :=
    fun n hmem => absurd (isDigit_of_mem_toString hmem) (by decide)
  have hlists := congrArg String.toList h
  rw [htext, htext] at hlists
  obtain ⟨hline, hcolumn⟩ := append_cons_inj (hcolon _) (hcolon _) hlists
  cases p
  cases q
  rw [Position.mk.injEq]
  exact ⟨toString_nat_inj hline, toString_nat_inj hcolumn⟩

theorem Position.blank_not_mem_text (p : Position) : ' ' ∉ p.text.toList :=
  fun h => absurd (isDigit_or_of_mem_text h) (by decide)

theorem Kind.name_inj {kind kind' : Kind} (h : kind.name = kind'.name) : kind = kind' := by
  revert h
  cases kind <;> cases kind' <;> decide

theorem Kind.blank_not_mem_name (kind : Kind) : ' ' ∉ kind.name.toList := by
  cases kind <;> decide

namespace Token

variable {t u : Token}

/-- A token without an error is its kind, its position and its value. -/
theorem eq_of_error_none (ht : t.error = none) (hu : u.error = none) (hkind : t.kind = u.kind)
    (hposition : t.position = u.position) (hvalue : t.value = u.value) : t = u := by
  cases t
  cases u
  simp_all

theorem toList_text (t : Token) :
    t.text.toList = t.kind.name.toList ++
      ' ' :: ((Quoted.quote t.value).toList ++ '@' :: t.position.text.toList) := by
  have hparts : t.text =
      t.kind.name ++ " " ++ Quoted.quote t.value ++ "@" ++ t.position.text := rfl
  simp [hparts]

/-- **Tokens without an error are told apart by their written forms.** -/
theorem text_inj (ht : t.error = none) (hu : u.error = none) (h : t.text = u.text) : t = u := by
  have hlists := congrArg String.toList h
  rw [toList_text, toList_text] at hlists
  obtain ⟨hkind, hbehind⟩ :=
    append_cons_inj t.kind.blank_not_mem_name u.kind.blank_not_mem_name hlists
  obtain ⟨hvalue, hplace⟩ := Quoted.quote_append_inj hbehind
  exact eq_of_error_none ht hu (Kind.name_inj (String.toList_inj.1 hkind))
    (Position.text_inj (String.toList_inj.1 (List.cons.inj hplace).2)) hvalue

/-- A written token stands on one line. -/
theorem newline_not_mem_text (t : Token) : '\n' ∉ t.text.toList := by
  rw [toList_text]
  simp only [List.mem_append, List.mem_cons, not_or]
  exact ⟨t.kind.newline_not_mem_name, by decide, Quoted.newline_not_mem_quote t.value, by decide,
    t.position.newline_not_mem_text⟩

end Token

namespace Invocation

variable {i i' : Invocation} {t u : Token}

/-- **Tokens without an error are told apart by the lines that are printed for them.** -/
theorem tokenLine_inj (hi : i.valuesOnly = false) (hi' : i'.valuesOnly = false)
    (ht : t.error = none) (hu : u.error = none) (h : i.tokenLine t = i'.tokenLine u) : t = u := by
  have hlists := congrArg String.toList h
  rw [toList_tokenLine hi, toList_tokenLine hi'] at hlists
  obtain ⟨hplace, hbehind⟩ :=
    append_cons_inj t.position.blank_not_mem_text u.position.blank_not_mem_text hlists
  obtain ⟨hkind, hquoted⟩ :=
    append_cons_inj t.kind.blank_not_mem_name u.kind.blank_not_mem_name hbehind
  have hvalue := Quoted.quote_append_inj (congrArg (· ++ []) hquoted)
  exact Token.eq_of_error_none ht hu (Kind.name_inj (String.toList_inj.1 hkind))
    (Position.text_inj (String.toList_inj.1 hplace)) hvalue.1

end Invocation

/-! ### Lines -/

/-- Lines without line breaks are told apart when they are written one below the other. -/
theorem Outcome.textOf_inj {lines lines' : List String} (h : ∀ line ∈ lines, '\n' ∉ line.toList)
    (h' : ∀ line ∈ lines', '\n' ∉ line.toList) (htext : textOf lines = textOf lines') :
    lines = lines' := by
  induction lines generalizing lines' with
  | nil =>
      cases lines' with
      | nil => rfl
      | cons line' lines' => exact absurd htext.symm (by simp)
  | cons line lines ih =>
      cases lines' with
      | nil => exact absurd htext (by simp)
      | cons line' lines' =>
          obtain ⟨hline, hlines⟩ := List.forall_mem_cons.1 h
          obtain ⟨hline', hlines'⟩ := List.forall_mem_cons.1 h'
          rw [textOf_cons, textOf_cons] at htext
          obtain ⟨hfirst, hrest⟩ := append_cons_inj hline hline' htext
          rw [String.toList_inj.1 hfirst, ih hlines hlines' hrest]

namespace Invocation

variable {i i' : Invocation}

/-- Tokens without errors are told apart by the lines that are printed for them, all together. -/
theorem map_tokenLine_inj (hi : i.valuesOnly = false) (hi' : i'.valuesOnly = false)
    {ts us : List Token} (hts : ∀ t ∈ ts, t.error = none) (hus : ∀ u ∈ us, u.error = none)
    (h : ts.map i.tokenLine = us.map i'.tokenLine) : ts = us := by
  induction ts generalizing us with
  | nil => exact (List.map_eq_nil_iff.1 h.symm).symm
  | cons t ts ih =>
      cases us with
      | nil => exact absurd h (by simp)
      | cons u us =>
          obtain ⟨ht, hts⟩ := List.forall_mem_cons.1 hts
          obtain ⟨hu, hus⟩ := List.forall_mem_cons.1 hus
          obtain ⟨hline, hlines⟩ := List.cons.inj h
          rw [tokenLine_inj hi hi' ht hu hline, ih hts hus hlines]

/-- Runs over scripts that print the same have the same tokens. -/
theorem tokens_eq_of_stdout_eq (hi : i.valuesOnly = false) (hi' : i'.valuesOnly = false)
    {events events' : Script} {ts us : List Token} (hts : (Source.ofScript events).tokens = .ok ts)
    (hus : (Source.ofScript events').tokens = .ok us)
    (h : (i.printTokens (.ofScript events)).stdout = (i'.printTokens (.ofScript events')).stdout) :
    ts = us := by
  have hprinted := congrArg String.toList h
  rw [Outcome.toList_stdout, Outcome.toList_stdout, (i.printTokens_of_ok hts).2.1,
    (i'.printTokens_of_ok hus).2.1] at hprinted
  obtain ⟨-, rfl⟩ := Source.eq_tokens_of_ok hts
  obtain ⟨-, rfl⟩ := Source.eq_tokens_of_ok hus
  have hlines : ∀ {i : Invocation}, i.valuesOnly = false → ∀ ts : List Token,
      ∀ line ∈ ts.map i.tokenLine, '\n' ∉ line.toList := by
    intro i hi ts
    rw [List.forall_mem_map]
    exact fun t _ => newline_not_mem_tokenLine_of_quoted hi t
  exact map_tokenLine_inj hi hi' (fun t ht => Cut.error_of_mem_tokens ht)
    (fun t ht => Cut.error_of_mem_tokens ht)
    (Outcome.textOf_inj (hlines hi _) (hlines hi' _) hprinted)

/-- **What a run prints tells its tokens.**  A text between quotes stands on one line, holds no
quote that it does not escape, and is read back.  A written token stands on one line, and tokens
without errors are told apart by their written forms.  A run that goes well and does not print
values only prints one line for each token of its source, and two such runs print the same exactly
if their sources have the same tokens. -/
theorem transcript_faithful :
    (∀ v : String, ∃ inner : List Char, (Quoted.quote v).toList = '"' :: (inner ++ ['"']) ∧
      '\n' ∉ (Quoted.quote v).toList ∧
      (∀ rest, Quoted.closing? (inner ++ '"' :: rest) = some inner.length) ∧
      Quoted.unquote? (Quoted.quote v) = some v) ∧
    (∀ t u : Token, '\n' ∉ t.text.toList ∧
      (t.error = none → u.error = none → t.text = u.text → t = u)) ∧
    ∀ (i i' : Invocation) (events events' : Script),
      let line := fun t : Token =>
        s!"{t.position.line}:{t.position.column} {t.kind.name} {Quoted.quote t.value}"
      let o := (Request.run i).outcome fun _ => .ok (.ofScript events)
      let o' := (Request.run i').outcome fun _ => .ok (.ofScript events')
      i.valuesOnly = false → i'.valuesOnly = false → o.exitCode = 0 → o'.exitCode = 0 →
        ∃ ts, (Source.ofScript events).tokens = .ok ts ∧
          o.stdout = String.join (ts.map fun t => line t ++ "\n") ∧
          (∀ t ∈ ts, '\n' ∉ (line t).toList) ∧
          (o.stdout = o'.stdout ↔ (Source.ofScript events').tokens = .ok ts) := by
  refine ⟨?_, ?_, ?_⟩
  · intro v
    exact ⟨Quoted.body v.toList, Quoted.toList_quote v, Quoted.newline_not_mem_quote v,
      Quoted.closing?_body_append v.toList, Quoted.unquote?_quote v⟩
  · intro t u
    exact ⟨t.newline_not_mem_text, Token.text_inj⟩
  · intro i i' events events' line o o' hi hi' hcode hcode'
    obtain ⟨ts, hts⟩ : ∃ ts, (Source.ofScript events).tokens = .ok ts :=
      ⟨_, Source.tokens_of_clean ((i.exitCode_eq_zero_iff events).1 hcode)⟩
    obtain ⟨us, hus⟩ : ∃ us, (Source.ofScript events').tokens = .ok us :=
      ⟨_, Source.tokens_of_clean ((i'.exitCode_eq_zero_iff events').1 hcode')⟩
    have hline : ∀ {j : Invocation}, j.valuesOnly = false → j.tokenLine = line := by
      intro j hj
      funext t
      rw [tokenLine, hj]
      rfl
    have hprinted : o.printed = ts.map line :=
      ((i.printTokens_of_ok hts).2.1).trans (by rw [hline hi])
    have hprinted' : o'.printed = us.map line :=
      ((i'.printTokens_of_ok hus).2.1).trans (by rw [hline hi'])
    refine ⟨ts, hts, Outcome.stdout_of_printed hprinted, ?_, ?_⟩
    · intro t _
      rw [← hline hi]
      exact newline_not_mem_tokenLine_of_quoted hi t
    · constructor
      · intro hsame
        rw [hus, tokens_eq_of_stdout_eq hi hi' hts hus hsame]
      · intro hsame
        rw [Outcome.stdout_of_printed hprinted, Outcome.stdout_of_printed hprinted',
          Except.ok.inj (hus.symm.trans hsame)]

/-- Two sources with different blanks and deliveries, and values that need every kind of escape. -/
theorem transcript_faithful_of_escaped :
    let events : Script := [.bytes [0x22, 0x5c, 0x0d, 0x20, 0xcc, 0x81, 0x61]]
    let events' : Script := [.bytes [0x22, 0x5c, 0x0d, 0x09, 0xcc], .fault (.ofKind .interrupted),
      .bytes [0x81, 0x61, 0x0a]]
    let o := (Request.run {}).outcome fun _ => .ok (.ofScript events)
    let o' := (Request.run { path? := some "a", level := .trace }).outcome fun _ =>
      .ok (.ofScript events')
    let ts : List Token := [⟨.identifier, ⟨1, 1⟩, "\"\\\r", none⟩,
      ⟨.identifier, ⟨1, 5⟩, "\u0301a", none⟩]
    let t := Lexeme.placed ⟨.identifier, "\"\n"⟩ ⟨2, 3⟩
    let u : Token := ⟨.identifier, ⟨2, 3⟩, "\"\n", none⟩
    o.exitCode = 0 ∧ o'.exitCode = 0 ∧ (Source.ofScript events).tokens = .ok ts ∧
      o.stdout = "1:1 Identifier \"\\\"\\\\\\r\"\n1:5 Identifier \"\\u\x7b301\x7da\"\n" ∧
      (o.stdout = o'.stdout ∧ (Source.ofScript events').tokens = .ok ts) ∧
      t.error = none ∧ u.error = none ∧ t.text = u.text ∧ t = u := by
  intro events events' o o' ts t u
  have hcode : o.exitCode = 0 := (exitCode_eq_zero_iff {} events).2 rfl
  have hcode' : o'.exitCode = 0 := (exitCode_eq_zero_iff _ events').2 rfl
  have hts : (Source.ofScript events).tokens = .ok ts := by
    rw [Source.tokens_of_clean rfl]
    decide +kernel
  have hts' : (Source.ofScript events').tokens = .ok ts := by
    rw [Source.tokens_of_clean rfl]
    decide +kernel
  obtain ⟨us, hus, hstdout, -, hsame⟩ :=
    transcript_faithful.2.2 {} _ events events' rfl rfl hcode hcode'
  obtain rfl := Except.ok.inj (hus.symm.trans hts)
  exact ⟨hcode, hcode', hts, hstdout.trans (by decide +kernel),
    ⟨hsame.2 hts', hsame.1 (hsame.2 hts')⟩, rfl, rfl, rfl,
    (transcript_faithful.2.1 t u).2 rfl rfl rfl⟩

end Invocation

end TokenStream
