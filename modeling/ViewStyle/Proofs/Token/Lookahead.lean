/-
How far the scanner looks beyond a lexeme. A name, a number or a mark ends where it does because of
the characters behind it, but none of them matters from the first white space, comment, string or
separator on. Two texts that look alike up to there are scanned alike.
-/

import Mathlib.Data.List.TakeWhile
import ViewStyle.Token.Scan

set_option autoImplicit false

namespace ViewStyle.Lexeme

def isQuote (c : Char) : Bool := c == '"' || c == '\''

/-- A character that no lexeme in front of it goes on with. An exclamation mark is one too, unless
it may be a part of the start of a comment. -/
def separates (c : Char) : Bool :=
  [',', ';', ':', '!', '&', ')', '[', ']', '\x7b', '\x7d'].contains c

/-- What a text shows to the scanner of a lexeme in front of it. -/
def ahead : List Char → List Char
  | [] => []
  | '/' :: '*' :: _ => []
  | '!' :: '-' :: '-' :: _ => ['!', '-', '-']
  | c :: cs =>
      if isSpace c || isQuote c || separates c then []
      else if c = '(' then ['(']
      else plain c :: ahead cs

def passes (c : Char) : Bool :=
  !isSpace c && !isQuote c && !separates c && c != '(' && c != '/'

theorem ahead_eq {c : Char} {cs : List Char} (comment : c = '/' → ¬['*'] <+: cs)
    (opening : c = '!' → ¬['-', '-'] <+: cs) :
    ahead (c :: cs) =
      if isSpace c || isQuote c || separates c then [] else if c = '(' then ['(']
      else plain c :: ahead cs := by
  rw [ahead]
  · rintro tail rfl rfl
    exact comment rfl (List.prefix_append ['*'] _)
  · rintro tail rfl rfl
    exact opening rfl (List.prefix_append ['-', '-'] _)

theorem ahead_cons {c : Char} {cs : List Char} (space : isSpace c = false)
    (quote : isQuote c = false) (separates : separates c = false) (round : c ≠ '(')
    (comment : c = '/' → ¬['*'] <+: cs) : ahead (c :: cs) = plain c :: ahead cs := by
  rw [ahead_eq comment fun same => absurd separates (by rw [same]; decide)]
  simp [space, quote, separates, round]

theorem ahead_space {c : Char} (h : isSpace c = true) (cs : List Char) : ahead (c :: cs) = [] := by
  rw [ahead_eq (fun same => absurd h (by rw [same]; decide))
    fun same => absurd h (by rw [same]; decide)]
  simp [h]

theorem ahead_quote {c : Char} (h : isQuote c = true) (cs : List Char) : ahead (c :: cs) = [] := by
  obtain rfl | rfl : c = '"' ∨ c = '\'' := by simpa [isQuote] using h
  · rfl
  · rfl

theorem ahead_round (cs : List Char) : ahead ('(' :: cs) = ['('] := rfl

theorem ahead_separates {c : Char} (h : separates c = true) (bang : c ≠ '!') (cs : List Char) :
    ahead (c :: cs) = [] := by
  rw [ahead_eq (fun same => absurd h (by rw [same]; decide)) fun same => absurd same bang]
  simp [h]

theorem ahead_bang {cs : List Char} (opening : ¬['-', '-'] <+: cs) : ahead ('!' :: cs) = [] := by
  rw [ahead_eq (fun same => absurd same (by decide)) fun _ => opening]
  rfl

theorem ahead_passes {c : Char} (h : passes c = true) (cs : List Char) :
    ahead (c :: cs) = plain c :: ahead cs := by
  simp only [passes, Bool.and_eq_true, Bool.not_eq_true', bne_iff_ne] at h
  obtain ⟨⟨⟨⟨space, quote⟩, separates⟩, round⟩, slash⟩ := h
  exact ahead_cons space quote separates round fun same => absurd same slash

theorem ahead_append {text : List Char} (h : ∀ c ∈ text, passes c = true) (rest : List Char) :
    ahead (text ++ rest) = text.map plain ++ ahead rest := by
  induction text with
  | nil => rfl
  | cons c text ih =>
      rw [List.forall_mem_cons] at h
      rw [List.cons_append, ahead_passes h.1, ih h.2, List.map_cons, List.cons_append]

theorem eq_cons_of_ahead {d : Char} {cs tail : List Char} (h : ahead cs = d :: tail)
    (odd : d ≠ replacement) : ∃ rest, cs = d :: rest ∧ (passes d = true → ahead rest = tail) := by
  unfold ahead at h
  split at h
  · cases h
  · cases h
  · cases h
    exact ⟨_, rfl, nofun⟩
  · rename_i c cs _ _
    split at h
    · cases h
    · split at h
      · rename_i round
        cases h
        exact ⟨cs, by rw [round], nofun⟩
      · obtain ⟨head, rfl⟩ := List.cons.inj h
        refine ⟨cs, ?_, fun _ => rfl⟩
        unfold plain at head
        split at head
        · exact absurd head.symm odd
        · rw [head]

theorem opening_iff_ahead (cs : List Char) :
    ahead cs = ['!', '-', '-'] ↔ ['!', '-', '-'] <+: cs := by
  constructor
  · intro h
    by_contra none
    obtain ⟨rest, rfl, -⟩ := eq_cons_of_ahead h (by decide)
    rw [ahead_bang fun opening => none (List.cons_prefix_cons.2 ⟨rfl, opening⟩)] at h
    cases h
  · rintro ⟨rest, rfl⟩
    rfl

def Stops (cs : List Char) : Prop := ∀ c ∈ cs.head?, passes c = false

private theorem stops_of_passes {c : Char} (h : passes c = false) (cs : List Char) :
    Stops (c :: cs) := by
  simpa [Stops] using h

private theorem ahead_cases (cs : List Char) :
    (∃ c rest, cs = c :: rest ∧ ahead cs = plain c :: ahead rest ∧ passes c = true) ∨
      Stops cs ∧ Stops (ahead cs) := by
  cases cs with
  | nil => exact .inr ⟨nofun, nofun⟩
  | cons c cs =>
      cases here : passes c with
      | true => exact .inl ⟨c, cs, rfl, ahead_passes here cs, here⟩
      | false =>
          refine .inr ⟨stops_of_passes here cs, ?_⟩
          unfold ahead
          split
          · nofun
          · nofun
          · exact stops_of_passes rfl _
          · rename_i eq
            cases eq
            split
            · nofun
            · rename_i ends
              split
              · exact stops_of_passes rfl _
              · rename_i round
                simp only [Bool.or_eq_true, not_or, Bool.not_eq_true] at ends
                have slash : c = '/' := by simpa [passes, ends, round] using here
                subst slash
                exact stops_of_passes rfl _

private theorem eq_on_ahead {α : Type} {f : List Char → α} {a : α}
    (stop : ∀ cs, Stops cs → f cs = a)
    (pass : ∀ c rest, passes c = true → f (plain c :: ahead rest) = f (c :: rest))
    (cs : List Char) : f (ahead cs) = f cs := by
  obtain ⟨c, rest, rfl, eq, passes⟩ | ⟨stops, stops'⟩ := ahead_cases cs
  · rw [eq, pass c rest passes]
  · rw [stop _ stops, stop _ stops']

private theorem ne_of_stops {c d : Char} {cs : List Char} (stops : Stops (c :: cs))
    (h : passes d = true) : c ≠ d := by
  rintro rfl
  exact absurd (stops c rfl) (by simp [h])

theorem plain_eq_iff {c d : Char} (nul : d ≠ '\x00') (odd : d ≠ replacement) :
    plain c = d ↔ c = d := by
  unfold plain
  split
  · rename_i here
    exact ⟨fun same => absurd same.symm odd, fun same => absurd (same.symm.trans here) nul⟩
  · exact Iff.rfl

/-- A class of characters that end no text, and in which a character is if the one is that it stands
for. -/
structure Class (p : Char → Bool) : Prop where
  passes : ∀ c, p c = true → passes c = true
  plain : ∀ c, p (plain c) = p c

private theorem Class.of_nul {p : Char → Bool} (passes : ∀ c, p c = true → Lexeme.passes c = true)
    (nul : p '\x00' = p replacement) : Class p := by
  refine ⟨passes, fun c => ?_⟩
  unfold Lexeme.plain
  split
  · rename_i here
    rw [here, nul]
  · rfl

private theorem passes_of_continuesName {c : Char} (h : continuesName c = true) :
    passes c = true := by
  have ends : ∀ d ∈ [' ', '\t', '\n', '\r', '\x0c', '"', '\'', ',', ';', ':', '!', '&', ')', '[',
      ']', '\x7b', '\x7d', '(', '/'], ¬continuesName d = true := List.any_eq_false.1 (by decide)
  have differs := fun d member => ne_of_apply_ne continuesName fun same =>
    ends d member (same.symm.trans h)
  simp only [List.forall_mem_cons] at differs
  simp [passes, isSpace, isQuote, separates, Text.endsLine, differs]

theorem class_continuesName : Class continuesName :=
  .of_nul (fun _ => passes_of_continuesName) (by decide)

private theorem class_startsName : Class startsName :=
  .of_nul (fun c h => class_continuesName.passes c (by simp [continuesName, h])) (by decide)

theorem class_isDigit : Class Char.isDigit :=
  .of_nul (fun c h => class_continuesName.passes c (by simp [continuesName, h])) (by decide)

private theorem Class.or {p q : Char → Bool} (hp : Class p) (hq : Class q) :
    Class fun c => p c || q c where
  passes c h := (Bool.or_eq_true _ _ ▸ h).elim (hp.passes c) (hq.passes c)
  plain c := by rw [hp.plain, hq.plain]

private theorem Class.single {d : Char} (h : Lexeme.passes d = true) (nul : d ≠ '\x00')
    (odd : d ≠ replacement) : Class (· == d) :=
  .of_nul (fun c same => by rwa [beq_iff_eq.1 same])
    (by rw [beq_eq_false_iff_ne.2 nul.symm, beq_eq_false_iff_ne.2 odd.symm])

variable {p : Char → Bool} {cs : List Char}

private theorem Class.eq_false_of_stops (h : Class p) (stops : Stops cs) :
    cs.head?.any p = false := by
  cases cs with
  | nil => rfl
  | cons c cs =>
      have here : Lexeme.passes c = false := stops c rfl
      show p c = false
      by_contra inside
      simp [h.passes c (by simpa using inside)] at here

private theorem Class.any_head?_ahead (h : Class p) (cs : List Char) :
    (ahead cs).head?.any p = cs.head?.any p :=
  eq_on_ahead (f := fun cs => cs.head?.any p) (fun _ => h.eq_false_of_stops)
    (fun c _ _ => h.plain c) cs

private theorem takeWhile_eq_nil (none : cs.head?.any p = false) : cs.takeWhile p = [] := by
  cases cs with
  | nil => rfl
  | cons c cs => exact List.takeWhile_cons_of_neg (by simpa using none)

private theorem Class.takeWhile_ahead (h : Class p) (cs : List Char) :
    (ahead cs).takeWhile p = (cs.takeWhile p).map Lexeme.plain := by
  induction n : cs.length generalizing cs with
  | zero =>
      rw [List.length_eq_zero_iff.1 n]
      rfl
  | succ n ih =>
      obtain ⟨c, rest, rfl, eq, -⟩ | ⟨stops, stops'⟩ := ahead_cases cs
      · rw [eq, List.takeWhile_cons, List.takeWhile_cons, h.plain, ih rest (Nat.succ.inj n)]
        split <;> rfl
      · rw [takeWhile_eq_nil (h.eq_false_of_stops stops),
          takeWhile_eq_nil (h.eq_false_of_stops stops')]
        rfl

/-- The text has so many characters, and what is behind them is seen. -/
structure Passed (n : Nat) (cs : List Char) : Prop where
  le : n ≤ cs.length
  passes : ∀ c ∈ cs.take n, passes c = true

theorem Passed.drop_ahead {n : Nat} (h : Passed n cs) : (ahead cs).drop n = ahead (cs.drop n) := by
  have length : ((cs.take n).map Lexeme.plain).length = n := by
    rw [List.length_map, List.length_take_of_le h.le]
  conv => lhs; rw [← List.take_append_drop n cs, ahead_append h.passes]
  exact List.drop_left' length

theorem Passed.zero (cs : List Char) : Passed 0 cs := ⟨Nat.zero_le _, nofun⟩

theorem Passed.add {n m : Nat} (first : Passed n cs) (second : Passed m (cs.drop n)) :
    Passed (n + m) cs where
  le := by
    have le := second.le
    rw [List.length_drop] at le
    have := first.le
    omega
  passes c member := by
    rw [List.take_add, List.mem_append] at member
    exact member.elim (first.passes c) (second.passes c)

theorem Passed.cons {c : Char} {n : Nat} (h : Lexeme.passes c = true) (rest : Passed n cs) :
    Passed (n + 1) (c :: cs) where
  le := Nat.succ_le_succ rest.le
  passes d member := by
    rw [List.take_succ_cons, List.mem_cons] at member
    exact member.elim (fun same => same ▸ h) (rest.passes d)

theorem Class.passed_takeWhile (h : Class p) (cs : List Char) :
    Passed (cs.takeWhile p).length cs where
  le := (List.takeWhile_prefix p).length_le
  passes c member := by
    rw [← List.prefix_iff_eq_take.1 (List.takeWhile_prefix p)] at member
    exact h.passes c (List.mem_takeWhile_imp member)

private theorem Class.length_takeWhile_ahead (h : Class p) (cs : List Char) :
    ((ahead cs).takeWhile p).length = (cs.takeWhile p).length := by
  rw [h.takeWhile_ahead, List.length_map]

theorem not_mem_ahead {cs : List Char} (h : '\\' ∉ cs) : '\\' ∉ ahead cs := by
  induction n : cs.length generalizing cs with
  | zero =>
      rw [List.length_eq_zero_iff.1 n]
      nofun
  | succ n ih =>
      unfold ahead
      split
      · nofun
      · nofun
      · decide
      · rw [List.mem_cons, not_or] at h
        split
        · nofun
        · split
          · decide
          · rw [List.mem_cons, not_or, eq_comm, plain_eq_iff (by decide) (by decide)]
            exact ⟨Ne.symm h.1, ih h.2 (Nat.succ.inj n)⟩

/-! ### Names -/

private theorem ahead_backslash (cs : List Char) : ahead ('\\' :: cs) = '\\' :: ahead cs :=
  ahead_passes (by decide) cs

theorem takeName_eq (h : '\\' ∉ ahead cs) :
    takeName cs =
      ((cs.takeWhile continuesName).map plain, (cs.takeWhile continuesName).length) := by
  fun_induction takeName cs with
  | case1 => rfl
  | case2 cs => exact absurd (ahead_backslash cs ▸ List.mem_cons_self) h
  | case3 cs => exact absurd (ahead_backslash cs ▸ List.mem_cons_self) h
  | case4 c cs _ continues name n read ih =>
      rw [ahead_passes (class_continuesName.passes c continues), List.mem_cons, not_or] at h
      have rest := ih h.2
      rw [read] at rest
      cases rest
      rw [List.takeWhile_cons_of_pos continues]
      rfl
  | case5 c cs _ ends => rw [List.takeWhile_cons_of_neg ends, List.map_nil, List.length_nil]

theorem takeName_congr {x y : List Char} (h : ahead x = ahead y) (unescaped : '\\' ∉ ahead x) :
    takeName x = takeName y := by
  rw [takeName_eq unescaped, takeName_eq (h ▸ unescaped), ← class_continuesName.takeWhile_ahead,
    ← class_continuesName.takeWhile_ahead, ← class_continuesName.length_takeWhile_ahead x,
    ← class_continuesName.length_takeWhile_ahead y, h]

def followsHyphen (c : Char) : Bool := startsName c || c == '-' || c == '\\'

private theorem class_followsHyphen : Class followsHyphen := by
  refine .of_nul (fun c h => ?_) (by decide)
  simp only [followsHyphen, Bool.or_eq_true, beq_iff_eq] at h
  rcases h with (h | rfl) | rfl
  · exact class_startsName.passes c h
  · decide
  · decide

theorem atName_hyphen (cs : List Char) : atName ('-' :: cs) = cs.head?.any followsHyphen := by
  cases cs <;> rfl

theorem atName_cons {c : Char} (hyphen : c ≠ '-') (backslash : c ≠ '\\') (cs : List Char) :
    atName (c :: cs) = startsName c := by
  unfold atName
  split <;> simp_all

theorem atName_of_stops (stops : Stops cs) : atName cs = false := by
  cases cs with
  | nil => rfl
  | cons c cs =>
      have here : passes c = false := stops c rfl
      rw [atName_cons (by rintro rfl; exact absurd here (by decide))
        (by rintro rfl; exact absurd here (by decide))]
      exact class_startsName.eq_false_of_stops (show Stops [c] from stops)

private theorem atName_ahead (unescaped : '\\' ∉ ahead cs) : atName (ahead cs) = atName cs := by
  obtain ⟨c, rest, rfl, eq, -⟩ | ⟨stops, stops'⟩ := ahead_cases cs
  · rw [eq] at unescaped ⊢
    have backslash : plain c ≠ '\\' := fun same => unescaped (same ▸ List.mem_cons_self)
    by_cases hyphen : c = '-'
    · subst hyphen
      exact (atName_hyphen _).trans
        ((class_followsHyphen.any_head?_ahead rest).trans (atName_hyphen rest).symm)
    · rw [atName_cons (mt (plain_eq_iff (by decide) (by decide)).1 hyphen) backslash,
        atName_cons hyphen (mt (plain_eq_iff (by decide) (by decide)).2 backslash),
        class_startsName.plain]
  · rw [atName_of_stops stops, atName_of_stops stops']

theorem atName_congr {x y : List Char} (h : ahead x = ahead y) (unescaped : '\\' ∉ ahead x) :
    atName x = atName y := by
  rw [← atName_ahead unescaped, h, atName_ahead (h ▸ unescaped)]

def continuesHash (c : Char) : Bool := c.isDigit || c == '-'

theorem atHash_eq (cs : List Char) : atHash cs = (atName cs || cs.head?.any continuesHash) := by
  cases cs with
  | nil => rfl
  | cons c cs => simp [atHash, continuesHash, Bool.or_assoc]

private theorem class_continuesHash : Class continuesHash :=
  class_isDigit.or (.single (by decide) (by decide) (by decide))

theorem atHash_congr {x y : List Char} (h : ahead x = ahead y) (unescaped : '\\' ∉ ahead x) :
    atHash x = atHash y := by
  rw [atHash_eq, atHash_eq, atName_congr h unescaped, ← class_continuesHash.any_head?_ahead, h,
    class_continuesHash.any_head?_ahead]

/-! ### Numbers -/

private theorem atDigit_point (cs : List Char) :
    atDigit ('.' :: cs) = cs.head?.any Char.isDigit := by
  cases cs <;> rfl

theorem atDigit_cons {c : Char} (point : c ≠ '.') (cs : List Char) :
    atDigit (c :: cs) = c.isDigit := by
  unfold atDigit
  split <;> simp_all

private theorem atDigit_ahead (cs : List Char) : atDigit (ahead cs) = atDigit cs := by
  refine eq_on_ahead (a := false) (fun cs stops => ?_) (fun c rest _ => ?_) cs
  · cases cs with
    | nil => rfl
    | cons c cs =>
        rw [atDigit_cons (ne_of_stops stops (by decide))]
        exact class_isDigit.eq_false_of_stops (show Stops [c] from stops)
  · by_cases point : c = '.'
    · subst point
      exact (atDigit_point _).trans
        ((class_isDigit.any_head?_ahead rest).trans (atDigit_point rest).symm)
    · rw [atDigit_cons (mt (plain_eq_iff (by decide) (by decide)).1 point), atDigit_cons point,
        class_isDigit.plain]

theorem signLength_cons (c : Char) (cs : List Char) :
    signLength (c :: cs) = if c = '+' ∨ c = '-' then 1 else 0 := by
  unfold signLength
  split <;> simp_all

private theorem signLength_ahead (cs : List Char) : signLength (ahead cs) = signLength cs := by
  refine eq_on_ahead (a := 0) (fun cs stops => ?_) (fun c rest _ => ?_) cs
  · cases cs with
    | nil => rfl
    | cons c cs =>
        rw [signLength_cons, if_neg (not_or.2 ⟨ne_of_stops stops (by decide),
          ne_of_stops stops (by decide)⟩)]
  · rw [signLength_cons, signLength_cons]
    simp only [plain_eq_iff (c := c) (d := '+') (by decide) (by decide),
      plain_eq_iff (c := c) (d := '-') (by decide) (by decide)]

private theorem passed_signLength (cs : List Char) : Passed (signLength cs) cs := by
  unfold signLength
  split
  · exact .cons (by decide) (.zero _)
  · exact .cons (by decide) (.zero _)
  · exact .zero _

theorem atNumber_ahead (cs : List Char) : atNumber (ahead cs) = atNumber cs := by
  rw [atNumber, signLength_ahead, (passed_signLength cs).drop_ahead, atDigit_ahead, atNumber]

private theorem fractionLength_point (cs : List Char) :
    fractionLength ('.' :: cs) =
      if (cs.takeWhile Char.isDigit).length = 0 then 0
      else (cs.takeWhile Char.isDigit).length + 1 := by
  simp [fractionLength, Nat.add_comm]

private theorem fractionLength_cons {c : Char} (point : c ≠ '.') (cs : List Char) :
    fractionLength (c :: cs) = 0 := by
  unfold fractionLength
  split <;> simp_all

private theorem fractionLength_ahead (cs : List Char) :
    fractionLength (ahead cs) = fractionLength cs := by
  refine eq_on_ahead (a := 0) (fun cs stops => ?_) (fun c rest _ => ?_) cs
  · cases cs with
    | nil => rfl
    | cons c cs => exact fractionLength_cons (ne_of_stops stops (by decide)) cs
  · by_cases point : c = '.'
    · subst point
      refine (fractionLength_point _).trans ?_
      rw [fractionLength_point, class_isDigit.length_takeWhile_ahead]
    · rw [fractionLength_cons (mt (plain_eq_iff (by decide) (by decide)).1 point),
        fractionLength_cons point]

private theorem passed_fractionLength (cs : List Char) : Passed (fractionLength cs) cs := by
  unfold fractionLength
  split
  · split
    · exact .zero _
    · rw [Nat.add_comm]
      exact .cons (by decide) (class_isDigit.passed_takeWhile _)
  · exact .zero _

def signedLength (cs : List Char) : Nat :=
  signLength cs + ((cs.drop (signLength cs)).takeWhile Char.isDigit).length

private theorem passed_signedLength (cs : List Char) : Passed (signedLength cs) cs :=
  (passed_signLength cs).add (class_isDigit.passed_takeWhile _)

private theorem signedLength_ahead (cs : List Char) :
    signedLength (ahead cs) = signedLength cs := by
  rw [signedLength, signLength_ahead, (passed_signLength cs).drop_ahead,
    class_isDigit.length_takeWhile_ahead, signedLength]

private theorem exponentLength_cons (c : Char) (cs : List Char) :
    exponentLength (c :: cs) =
      if (c = 'e' ∨ c = 'E') ∧ signLength cs < signedLength cs then signedLength cs + 1 else 0 := by
  unfold exponentLength signedLength
  dsimp only
  refine if_congr (and_congr_right fun _ => ?_) ?_ rfl <;> omega

private theorem exponentLength_ahead (cs : List Char) :
    exponentLength (ahead cs) = exponentLength cs := by
  refine eq_on_ahead (a := 0) (fun cs stops => ?_) (fun c rest _ => ?_) cs
  · cases cs with
    | nil => rfl
    | cons c cs =>
        rw [exponentLength_cons, if_neg]
        rintro ⟨rfl | rfl, -⟩
        · exact ne_of_stops stops (by decide) rfl
        · exact ne_of_stops stops (by decide) rfl
  · rw [exponentLength_cons, exponentLength_cons, signedLength_ahead, signLength_ahead]
    simp only [plain_eq_iff (c := c) (d := 'e') (by decide) (by decide),
      plain_eq_iff (c := c) (d := 'E') (by decide) (by decide)]

private theorem passed_exponentLength (cs : List Char) : Passed (exponentLength cs) cs := by
  cases cs with
  | nil => exact .zero _
  | cons c cs =>
      rw [exponentLength_cons]
      split
      · rename_i here
        obtain rfl | rfl := here.1
        · exact .cons (by decide) (passed_signedLength cs)
        · exact .cons (by decide) (passed_signedLength cs)
      · exact .zero _

private theorem numberLength_eq (cs : List Char) :
    numberLength cs =
      signedLength cs + fractionLength (cs.drop (signedLength cs)) +
        exponentLength (cs.drop (signedLength cs + fractionLength (cs.drop (signedLength cs)))) :=
  rfl

theorem passed_numberLength (cs : List Char) : Passed (numberLength cs) cs :=
  ((passed_signedLength cs).add (passed_fractionLength _)).add (passed_exponentLength _)

theorem numberLength_ahead (cs : List Char) : numberLength (ahead cs) = numberLength cs := by
  have whole := passed_signedLength cs
  have decimal := whole.add (passed_fractionLength _)
  rw [numberLength_eq, numberLength_eq, signedLength_ahead, whole.drop_ahead, fractionLength_ahead,
    decimal.drop_ahead, exponentLength_ahead]

theorem numberLength_pos {c : Char} (number : atNumber (c :: cs) = true) :
    0 < numberLength (c :: cs) := by
  have length := numberLength_eq (c :: cs)
  by_cases sign : c = '+' ∨ c = '-'
  · have first := signLength_cons c cs
    rw [if_pos sign] at first
    have whole : signLength (c :: cs) ≤ signedLength (c :: cs) := Nat.le_add_right _ _
    omega
  · have first := signLength_cons c cs
    rw [if_neg sign] at first
    have whole : signedLength (c :: cs) = ((c :: cs).takeWhile Char.isDigit).length := by
      rw [signedLength, first, List.drop_zero, Nat.zero_add]
    rw [atNumber, first, List.drop_zero] at number
    by_cases point : c = '.'
    · subst point
      rw [atDigit_point] at number
      have digits : cs.takeWhile Char.isDigit ≠ [] := by
        cases cs with
        | nil => cases number
        | cons d cs => simp [List.takeWhile_cons_of_pos (p := Char.isDigit) (a := d) number]
      have fraction := fractionLength_point cs
      rw [if_neg (mt List.length_eq_zero_iff.1 digits)] at fraction
      rw [List.takeWhile_cons_of_neg (by decide), List.length_nil] at whole
      rw [whole, List.drop_zero, fraction] at length
      omega
    · rw [atDigit_cons point] at number
      rw [List.takeWhile_cons_of_pos number, List.length_cons] at whole
      omega

end ViewStyle.Lexeme
