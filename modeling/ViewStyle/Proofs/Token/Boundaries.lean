/-
Lexemes do not end within a line end: where one ends with a carriage return, no line feed is next.
So the position behind a text can be counted one lexeme after the other.
-/

import ViewStyle.Proofs.Text.Lines
import ViewStyle.Proofs.Token.Adjacency
import ViewStyle.Proofs.Token.Pieces

set_option autoImplicit false

namespace ViewStyle

open Text (Position endsLine)

-- What holds of all members of a list is decided for each of them, not for all characters.
attribute [local instance (high)] List.decidableBAll

namespace Lexeme

/-- A text has so many characters, and they do not end between a carriage return and a line feed. -/
structure Whole (n : Nat) (cs : List Char) : Prop where
  le : n ≤ cs.length
  unbroken : (cs.take n).getLast? = some '\r' → (cs.drop n).head? ≠ some '\n'

private theorem whole_of_forall {n : Nat} {cs : List Char} (le : n ≤ cs.length)
    (h : ∀ c ∈ cs.take n, c ≠ '\r') : Whole n cs :=
  ⟨le, fun last => absurd rfl (h _ (List.mem_of_getLast? last))⟩

private theorem Whole.zero (cs : List Char) : Whole 0 cs := ⟨Nat.zero_le _, nofun⟩

private theorem Whole.add {n m : Nat} {cs : List Char} (first : Whole n cs)
    (second : Whole m (cs.drop n)) :
    Whole (n + m) cs where
  le := by
    have le := second.le
    rw [List.length_drop] at le
    have := first.le
    omega
  unbroken := by
    intro last
    rw [← List.drop_drop]
    rw [List.take_add] at last
    cases taken : (cs.drop n).take m with
    | nil =>
        rw [taken, List.append_nil] at last
        rcases List.take_eq_nil_iff.1 taken with rfl | none
        · exact first.unbroken last
        · rw [none, List.drop_nil]
          nofun
    | cons d tail =>
        rw [List.getLast?_append_of_ne_nil _ (by rw [taken]; nofun)] at last
        exact second.unbroken last

private theorem Whole.cons {n : Nat} {c : Char} {cs : List Char} (other : c ≠ '\r')
    (rest : Whole n cs) : Whole (n + 1) (c :: cs) := by
  rw [Nat.add_comm]
  exact Whole.add (n := 1) (whole_of_forall (Nat.succ_pos _) (by simpa using other)) rest

private theorem Whole.behind {n : Nat} {cs : List Char} (rest : Whole n cs) (some : 0 < n)
    (c : Char) :
    Whole (n + 1) (c :: cs) where
  le := Nat.succ_le_succ rest.le
  unbroken := by
    intro last
    rw [List.take_succ_cons] at last
    obtain ⟨d, tail, taken⟩ : ∃ d tail, cs.take n = d :: tail := by
      refine List.exists_cons_of_length_pos ?_
      rwa [List.length_take_of_le rest.le]
    rw [taken, List.getLast?_cons_cons, ← taken] at last
    exact rest.unbroken last

private theorem Passed.whole {n : Nat} {cs : List Char} (h : Passed n cs) : Whole n cs := by
  refine whole_of_forall h.le fun c member => ?_
  rintro rfl
  exact absurd (h.passes _ member) (by decide)

theorem whole_spaceLength (cs : List Char) : Whole (spaceLength cs) cs := by
  unfold spaceLength
  split
  · refine ⟨by simp, fun last => ?_⟩
    simp at last
  · rename_i c cs other
    split
    · refine ⟨Nat.succ_pos _, fun last head => ?_⟩
      cases last
      obtain ⟨tail, rfl⟩ := List.head?_eq_some_iff.1 head
      exact other tail rfl rfl
    · exact .zero _
  · exact .zero _

theorem whole_escape {cs : List Char} (inside : atLineEnd cs = false) :
    Whole (escape cs).2 cs := by
  cases cs with
  | nil => exact .zero _
  | cons c cs =>
      have taken : ((c :: cs).take 6).takeWhile isHexDigit <+: c :: cs :=
        (List.takeWhile_prefix _).trans (List.take_prefix 6 _)
      unfold escape
      dsimp only
      split
      · refine Whole.cons ?_ (.zero cs)
        rintro rfl
        cases inside
      · refine Whole.add (whole_of_forall taken.length_le fun d member => ?_) (whole_spaceLength _)
        rw [← List.prefix_iff_eq_take.1 taken] at member
        rintro rfl
        exact absurd (List.mem_takeWhile_imp member) (by decide)

theorem drop_blankLength (cs : List Char) : cs.drop (blankLength cs) = cs.dropWhile isSpace := by
  calc cs.drop (blankLength cs)
      = (cs.takeWhile isSpace ++ cs.dropWhile isSpace).drop (cs.takeWhile isSpace).length := by
        rw [List.takeWhile_append_dropWhile, blankLength]
    _ = cs.dropWhile isSpace := List.drop_left

theorem whole_blankLength (cs : List Char) : Whole (blankLength cs) cs := by
  refine ⟨(List.takeWhile_prefix isSpace).length_le, fun _ head => ?_⟩
  have stops := List.head?_dropWhile_not isSpace cs
  rw [← drop_blankLength, head] at stops
  cases stops

theorem whole_takeName (cs : List Char) : Whole (takeName cs).2 cs := by
  fun_induction takeName cs with
  | case1 => exact .zero _
  | case2 => exact .zero _
  | case3 cs inside c n escaped name m read ih =>
      rw [read] at ih
      have first := whole_escape (Bool.eq_false_iff.2 inside)
      rw [escaped] at first
      rw [Nat.add_assoc, Nat.add_comm]
      exact (first.add ih).cons (by decide)
  | case4 c cs other continues name n read ih =>
      rw [read] at ih
      refine ih.cons ?_
      rintro rfl
      cases continues
  | case5 => exact .zero _

private theorem whole_takeString {quote : Char} (other : quote ≠ '\r') {cs : List Char}
    (closed : (takeString quote cs).2.1 = true) : Whole (takeString quote cs).2.2 cs := by
  fun_induction takeString quote cs with
  | case1 => cases closed
  | case2 => cases closed
  | case3 cs nonempty line_end text closed' n read ih =>
      rw [read] at ih
      rw [Nat.add_assoc, Nat.add_comm]
      exact ((whole_spaceLength cs).add (ih closed)).cons (by decide)
  | case4 cs nonempty inside c n escaped text closed' m read ih =>
      rw [read] at ih
      have first := whole_escape (Bool.eq_false_iff.2 inside)
      rw [escaped] at first
      rw [Nat.add_assoc, Nat.add_comm]
      exact (first.add (ih closed)).cons (by decide)
  | case5 cs => exact (Whole.zero cs).cons other
  | case6 => cases closed
  | case7 c cs _ _ inside text closed' n read ih =>
      rw [read] at ih
      refine (ih closed).cons ?_
      rintro rfl
      exact inside rfl

theorem whole_takeComment {cs : List Char} (closed : (takeComment cs).1 = true) :
    Whole (takeComment cs).2 cs := by
  fun_induction takeComment cs with
  | case1 => cases closed
  | case2 cs => exact ((Whole.zero cs).cons (by decide)).cons (by decide)
  | case3 c cs other closed' n read ih =>
      rw [read] at ih
      refine (ih closed).behind ?_ c
      cases cs with
      | nil =>
          cases read
          cases closed
      | cons d cs =>
          unfold takeComment at read
          split at read
          · rename_i none
            cases none
          · cases read
            exact Nat.succ_pos _
          · cases read
            exact Nat.succ_pos _

theorem endAddress_cases (cs : List Char) :
    cs.dropWhile isSpace = [] ∧ endAddress cs = (true, blankLength cs) ∨
      (∃ rest, cs.dropWhile isSpace = ')' :: rest ∧ endAddress cs = (true, blankLength cs + 1)) ∨
      (endAddress cs).1 = false := by
  unfold endAddress
  dsimp only
  rw [drop_blankLength]
  split
  · rename_i none
    exact .inl ⟨none, rfl⟩
  · rename_i rest start
    exact .inr (.inl ⟨rest, start, rfl⟩)
  · exact .inr (.inr rfl)

private theorem whole_endAddress {cs : List Char} (valid : (endAddress cs).1 = true) :
    Whole (endAddress cs).2 cs := by
  obtain ⟨-, ends⟩ | ⟨rest, start, ends⟩ | broken := endAddress_cases cs
  · rw [ends]
    exact whole_blankLength cs
  · rw [ends]
    refine (whole_blankLength cs).add ?_
    rw [drop_blankLength, start]
    exact (Whole.zero rest).cons (by decide)
  · exact absurd (broken.symm.trans valid) Bool.false_ne_true

private theorem whole_takeAddress {cs : List Char} (valid : (takeAddress cs).2.1 = true) :
    Whole (takeAddress cs).2.2 cs := by
  fun_induction takeAddress cs with
  | case1 => exact .zero _
  | case2 cs => exact (Whole.zero cs).cons (by decide)
  | case3 => cases valid
  | case4 cs inside c n escaped text closed' m read ih =>
      rw [read] at ih
      have first := whole_escape (Bool.eq_false_iff.2 inside)
      rw [escaped] at first
      rw [Nat.add_assoc, Nat.add_comm]
      exact (first.add (ih valid)).cons (by decide)
  | case5 c cs => exact whole_endAddress valid
  | case6 => cases valid
  | case7 c cs _ _ inside _ target valid' n read ih =>
      rw [read] at ih
      refine (ih valid).cons ?_
      rintro rfl
      exact inside rfl

theorem afterAddressHead_of_not_quoted (name : List Char) {cs : List Char} (h : ¬Quoted cs) :
    afterAddressHead name cs =
      (if (takeAddress (cs.dropWhile isSpace)).2.1 then
          .address (String.ofList (takeAddress (cs.dropWhile isSpace)).1)
        else .refused,
        blankLength cs + (takeAddress (cs.dropWhile isSpace)).2.2) := by
  rw [← drop_blankLength]
  unfold afterAddressHead
  dsimp only
  split
  · rename_i start
    exact absurd ⟨_, _, start, rfl⟩ h
  · rename_i start
    exact absurd ⟨_, _, start, rfl⟩ h
  · split
    · rename_i taken
      rw [taken]
      rfl
    · rename_i taken
      rw [taken]
      rfl

private theorem whole_afterAddressHead {name cs : List Char}
    (valid : (afterAddressHead name cs).1 ≠ .refused) :
    Whole (afterAddressHead name cs).2 cs := by
  by_cases quoted : Quoted cs
  · rw [afterAddressHead_of_quoted name quoted]
    exact .zero _
  · rw [afterAddressHead_of_not_quoted name quoted] at valid ⊢
    refine (whole_blankLength cs).add ?_
    rw [drop_blankLength]
    refine whole_takeAddress (by_contra fun broken => valid ?_)
    exact if_neg broken

private theorem whole_takeWord {cs : List Char} (valid : (takeWord cs).1 ≠ .refused) :
    Whole (takeWord cs).2 cs := by
  have name := whole_takeName cs
  by_cases round : ['('] <+: cs.drop (takeName cs).2
  · obtain ⟨rest, start⟩ := round
    have head : Whole ((takeName cs).2 + 1) cs := by
      refine name.add ?_
      rw [← start]
      exact (Whole.zero rest).cons (by decide)
    rw [takeWord_of_round start.symm] at valid ⊢
    split at valid
    · rename_i url
      rw [if_pos url]
      refine head.add ?_
      rw [← List.drop_drop, ← start]
      exact whole_afterAddressHead valid
    · rename_i other
      rw [if_neg other]
      exact head
  · rw [takeWord_of_not_round round]
    exact name

private theorem whole_takeNumber (cs : List Char) : Whole (takeNumber cs).2 cs := by
  have number := (passed_numberLength cs).whole
  unfold takeNumber
  dsimp only
  split
  · rename_i rest start
    refine number.add ?_
    rw [start]
    exact (Whole.zero rest).cons (by decide)
  · split
    · exact number.add (whole_takeName _)
    · exact number

/-- The forms of a lexeme after its first character. -/
inductive Form (c : Char) (cs : List Char) : Lexeme → Nat → Prop
  | blank : isSpace c = true → Form c cs .blank (blankLength cs)
  | comment {rest : List Char} : c = '/' → cs = '*' :: rest →
      Form c cs (.comment (takeComment rest).1) ((takeComment rest).2 + 1)
  | string : isQuote c = true →
      Form c cs (.string (String.ofList (takeString c cs).1) (takeString c cs).2.1)
        (takeString c cs).2.2
  | hash : c = '#' → atHash cs = true →
      Form c cs (.hash (String.ofList (takeName cs).1)) (takeName cs).2
  | atWord : c = '@' → atName cs = true →
      Form c cs (.atWord (String.ofList (takeName cs).1)) (takeName cs).2
  | number : atNumber (c :: cs) = true →
      Form c cs (takeNumber (c :: cs)).1 ((takeNumber (c :: cs)).2 - 1)
  | word : atName (c :: cs) = true → atNumber (c :: cs) = false →
      (¬['-', '-', '>'] <+: c :: cs) → Form c cs (takeWord (c :: cs)).1 ((takeWord (c :: cs)).2 - 1)
  | mark : isSpace c = false → Form c cs (.mark c) 0
  | refused (n : Nat) : Form c cs .refused n

private theorem form_common (c : Char) (cs : List Char) :
    Form c cs (common c cs).1 (common c cs).2 := by
  unfold common
  split
  · rename_i space
    exact .blank space
  · rename_i inside
    split
    · rename_i number
      exact .number number
    · rename_i number
      split
      · exact .refused 2
      · rename_i arrow
        split
        · rename_i name
          exact .word name (Bool.eq_false_iff.2 number) (mt (arrow_iff c cs).2 arrow)
        · exact .mark (Bool.eq_false_iff.2 inside)

theorem form_next (c : Char) (cs : List Char) : Form c cs (next c cs).1 (next c cs).2 := by
  obtain binder | quote | rfl | rfl | plain := first_cases c
  · by_cases h : bound c <+: cs
    · obtain refused | ⟨rfl, -⟩ := next_of_bound binder h
      · rw [refused]
        exact .refused _
      · obtain ⟨rest, rfl⟩ := h
        exact .comment rfl rfl
    · have inside : ∀ c ∈ binders, isSpace c = false := by decide
      rw [next_of_not_bound binder h]
      exact .mark (inside c binder)
  · obtain rfl | rfl : c = '"' ∨ c = '\'' := by simpa [isQuote] using quote
    · exact .string rfl
    · exact .string rfl
  · cases hash : atHash cs with
    | true =>
        simp only [next, hash, if_true]
        exact .hash rfl hash
    | false =>
        simp only [next, hash, Bool.false_eq_true, if_false]
        exact .mark rfl
  · cases name : atName cs with
    | true =>
        simp only [next, name, if_true]
        exact .atWord rfl name
    | false =>
        simp only [next, name, Bool.false_eq_true, if_false]
        exact .mark rfl
  · rw [next_eq_common plain]
    exact form_common c cs

theorem takeNumber_pos {c : Char} {cs : List Char} (number : atNumber (c :: cs) = true) :
    0 < (takeNumber (c :: cs)).2 := by
  rw [snd_takeNumber]
  exact Nat.add_pos_left (numberLength_pos number) _

private theorem whole_next {c : Char} {cs : List Char} {text : List Char} {position : Position}
    (fine : ¬Piece.IsBad ⟨(next c cs).1, text, position⟩) :
    Whole ((next c cs).2 + 1) (c :: cs) := by
  have form := form_next c cs
  generalize (next c cs).1 = lexeme at fine form
  generalize (next c cs).2 = n at form ⊢
  cases form with
  | blank space =>
      have all : blankLength (c :: cs) = blankLength cs + 1 := by
        rw [blankLength, List.takeWhile_cons_of_pos space]
        rfl
      rw [← all]
      exact whole_blankLength (c :: cs)
  | @comment rest slash star =>
      subst slash star
      cases closed : (takeComment rest).1 with
      | true => exact ((whole_takeComment closed).cons (by decide)).cons (by decide)
      | false =>
          rw [closed] at fine
          exact absurd trivial fine
  | string quote =>
      have other : c ≠ '\r' := by
        rintro rfl
        cases quote
      cases closed : (takeString c cs).2.1 with
      | true => exact (whole_takeString other closed).cons other
      | false =>
          rw [closed] at fine
          exact absurd trivial fine
  | hash mark hash =>
      subst mark
      exact (whole_takeName cs).cons (by decide)
  | atWord mark name =>
      subst mark
      exact (whole_takeName cs).cons (by decide)
  | number number =>
      rw [Nat.sub_add_cancel (takeNumber_pos number)]
      exact whole_takeNumber (c :: cs)
  | word name number arrow =>
      rw [Nat.sub_add_cancel (takeWord_pos name)]
      refine whole_takeWord fun refused => ?_
      rw [refused] at fine
      exact fine trivial
  | mark inside =>
      refine (Whole.zero cs).cons ?_
      rintro rfl
      cases inside
  | refused => exact absurd trivial fine

end Lexeme

theorem not_isBad_of_read {origin : Option String} {s s' : Scan.State} {text : List Char}
    {lexeme : Lexeme} (read : s.read origin text lexeme = .ok s') (text' : List Char)
    (position : Position) : ¬Piece.IsBad ⟨lexeme, text', position⟩ := by
  cases lexeme with
  | comment closed =>
      cases closed with
      | true => exact id
      | false => cases read
  | string text closed =>
      cases closed with
      | true => exact id
      | false => cases read
  | refused => cases read
  | _ => exact id

theorem whole_of_read {origin : Option String} {s s' : Scan.State} {text : List Char} {c : Char}
    {cs : List Char} (read : s.read origin text (Lexeme.next c cs).1 = .ok s') :
    Lexeme.Whole ((Lexeme.next c cs).2 + 1) (c :: cs) :=
  Lexeme.whole_next (not_isBad_of_read read [] .start)

/-- The position behind a text is the one behind its first piece and what follows it. -/
theorem after_piece {c : Char} {cs : List Char}
    (whole : Lexeme.Whole ((Lexeme.next c cs).2 + 1) (c :: cs)) (p : Position) :
    p.after (c :: cs) =
      (p.after (c :: cs.take (Lexeme.next c cs).2)).after (cs.drop (Lexeme.next c cs).2) := by
  have split : c :: cs =
      (c :: cs.take (Lexeme.next c cs).2) ++ cs.drop (Lexeme.next c cs).2 := by
    simp
  conv => lhs; rw [split]
  exact Position.after_append whole.unbroken

end ViewStyle
