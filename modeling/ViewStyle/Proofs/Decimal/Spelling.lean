/-
The grammar of numerals, and that exactly its texts are read. A text spells one numeral at most, since
the reader is a function.
-/

import Mathlib.Data.List.TakeWhile
import Mathlib.Data.String.Basic
import ViewStyle.Decimal.Numeral

set_option autoImplicit false

namespace ViewStyle.Decimal

/-- An optional sign; the flag is true for a minus. -/
inductive WrittenSign : Bool → List Char → Prop
  | absent : WrittenSign false []
  | plus : WrittenSign false ['+']
  | minus : WrittenSign true ['-']

/-- Digits, at least one. -/
structure WrittenDigits (cs : List Char) : Prop where
  nonempty : cs ≠ []
  digits : ∀ c ∈ cs, c.isDigit = true

/-- The digits before and behind a point, one at least; without any behind it, the point is optional. -/
inductive WrittenMantissa : List Char → List Char → List Char → Prop
  | whole {whole : List Char} : WrittenDigits whole → WrittenMantissa whole [] whole
  | pointed {whole fraction : List Char} : WrittenDigits (whole ++ fraction) →
      WrittenMantissa whole fraction (whole ++ '.' :: fraction)

inductive WrittenExponent : Int → List Char → Prop
  | absent : WrittenExponent 0 []
  | present {mark : Char} {negative : Bool} {sign digits : List Char} : mark = 'e' ∨ mark = 'E' →
      WrittenSign negative sign → WrittenDigits digits →
        WrittenExponent (if negative then -(digitsValue digits : Int) else digitsValue digits)
          (mark :: (sign ++ digits))

namespace Numeral

/-- The spellings of a numeral: a word in letters of any case, or a decimal; both may have a sign. -/
inductive Written : Numeral → List Char → Prop
  | nan {negative : Bool} {sign word : List Char} : WrittenSign negative sign →
      word.map Char.toLower = "nan".toList → Written .nan (sign ++ word)
  | infinite {negative : Bool} {sign word : List Char} : WrittenSign negative sign →
      word.map Char.toLower = "inf".toList ∨ word.map Char.toLower = "infinity".toList →
        Written (.infinite negative) (sign ++ word)
  | decimal {negative : Bool} {e : Int} {sign whole fraction mantissa exponent : List Char} :
      WrittenSign negative sign → WrittenMantissa whole fraction mantissa →
        WrittenExponent e exponent →
          Written (.decimal negative (digitsValue (whole ++ fraction)) (e - fraction.length))
            (sign ++ (mantissa ++ exponent))

end Numeral

theorem takeWhile_dropWhile_append {p : Char → Bool} {front back : List Char}
    (all : ∀ c ∈ front, p c = true) (stops : ∀ c ∈ back.head?, p c = false) :
    (front ++ back).takeWhile p = front ∧ (front ++ back).dropWhile p = back := by
  rw [List.takeWhile_append_of_pos all, List.dropWhile_append_of_pos all]
  cases back with
  | nil => simp
  | cons c back => simp [stops c rfl]

private theorem splitSign_append {negative : Bool} {sign cs : List Char}
    (h : WrittenSign negative sign) (unsigned : ∀ c ∈ cs.head?, c ≠ '+' ∧ c ≠ '-') :
    splitSign (sign ++ cs) = (negative, cs) := by
  cases h with
  | absent =>
      cases cs with
      | nil => rfl
      | cons c cs =>
          obtain ⟨plus, minus⟩ := unsigned c rfl
          unfold splitSign
          split
          · rename_i same
            exact absurd (List.cons.inj same).1 plus
          · rename_i same
            exact absurd (List.cons.inj same).1 minus
          · rfl
  | plus => rfl
  | minus => rfl

private theorem exists_writtenSign (cs : List Char) :
    ∃ sign, cs = sign ++ (splitSign cs).2 ∧ WrittenSign (splitSign cs).1 sign := by
  unfold splitSign
  split
  · exact ⟨['+'], rfl, .plus⟩
  · exact ⟨['-'], rfl, .minus⟩
  · exact ⟨[], rfl, .absent⟩

private theorem isDigit_ne_sign {c : Char} (h : c.isDigit = true) : c ≠ '+' ∧ c ≠ '-' := by
  constructor <;> rintro rfl <;> exact absurd h (by decide)

private theorem WrittenDigits.unsigned {cs : List Char} (h : WrittenDigits cs) :
    ∀ c ∈ cs.head?, c ≠ '+' ∧ c ≠ '-' :=
  fun c first => isDigit_ne_sign (h.digits c (List.mem_of_mem_head? first))

private theorem WrittenExponent.head {e : Int} {cs : List Char} (h : WrittenExponent e cs) :
    ∀ c ∈ cs.head?, c.isDigit = false ∧ c ≠ '.' := by
  rintro c first
  cases h with
  | absent => cases first
  | present mark _ _ =>
      cases first
      rcases mark with rfl | rfl <;> decide

private theorem unsigned_of_lower {word : List Char} {letter : Char} {rest : List Char}
    (h : word.map Char.toLower = letter :: rest) (plus : letter ≠ '+') (minus : letter ≠ '-') :
    ∀ c ∈ word.head?, c ≠ '+' ∧ c ≠ '-' := by
  intro c first
  obtain ⟨others, rfl⟩ := List.head?_eq_some_iff.1 first
  have same : c.toLower = letter := (List.cons.inj h).1
  constructor
  · rintro rfl
    exact plus same.symm
  · rintro rfl
    exact minus same.symm

private theorem WrittenMantissa.exists_head {whole fraction mantissa : List Char}
    (h : WrittenMantissa whole fraction mantissa) :
    ∃ c rest, mantissa = c :: rest ∧ (c.isDigit = true ∨ c = '.') := by
  have point (rest : List Char) (digits : ∀ c ∈ whole, c.isDigit = true) :
      ∃ c rest', whole ++ '.' :: rest = c :: rest' ∧ (c.isDigit = true ∨ c = '.') := by
    cases whole with
    | nil => exact ⟨'.', rest, rfl, .inr rfl⟩
    | cons c whole => exact ⟨c, _, rfl, .inl (digits c List.mem_cons_self)⟩
  cases h with
  | whole digits =>
      obtain ⟨c, rest, rfl⟩ := List.exists_cons_of_ne_nil digits.nonempty
      exact ⟨c, rest, rfl, .inl (digits.digits c List.mem_cons_self)⟩
  | pointed digits => exact point _ fun c member => digits.digits c (List.mem_append_left _ member)

private theorem toLower_of_isDigit {c : Char} (h : c.isDigit = true) : c.toLower = c := by
  have bounds : c.val ≥ '0'.val ∧ c.val ≤ '9'.val := by simpa [Char.isDigit] using h
  refine dif_neg fun upper => ?_
  exact absurd (UInt32.le_trans upper.1 bounds.2) (by decide)

theorem isAlpha_iff {c : Char} :
    c.isAlpha = true ↔ (65 ≤ c.toNat ∧ c.toNat ≤ 90) ∨ (97 ≤ c.toNat ∧ c.toNat ≤ 122) := by
  have ranges : c.isAlpha =
      (decide (65 ≤ c.val ∧ c.val ≤ 90) || (97 ≤ c.val && c.val ≤ 122)) := rfl
  simp only [ranges, Bool.or_eq_true, Bool.and_eq_true, decide_eq_true_eq, UInt32.le_iff_toNat_le]
  rfl

theorem isDigit_iff {c : Char} : c.isDigit = true ↔ 48 ≤ c.toNat ∧ c.toNat ≤ 57 := by
  simp only [Char.isDigit, Bool.and_eq_true, decide_eq_true_eq, UInt32.le_iff_toNat_le, ge_iff_le]
  rfl

theorem not_isAlpha_of_isDigit {c : Char} (h : c.isDigit = true) : c.isAlpha = false := by
  have bounds := isDigit_iff.1 h
  refine Bool.eq_false_iff.2 fun alpha => ?_
  have ranges := isAlpha_iff.1 alpha
  omega

private theorem isAlpha_of_toLower {c : Char} (h : c.toLower.isAlpha = true) :
    c.isAlpha = true := by
  by_cases upper : c.isUpper = true
  · exact Bool.or_eq_true_iff.2 (.inl upper)
  · have kept : c.toLower = c := dif_neg fun both =>
      upper (decide_eq_true both)
    rwa [kept] at h

private theorem WrittenMantissa.characters {whole fraction mantissa : List Char}
    (h : WrittenMantissa whole fraction mantissa) :
    ∀ c ∈ mantissa, c.isDigit = true ∨ c = '.' := by
  cases h with
  | whole digits => exact fun c member => .inl (digits.digits c member)
  | pointed digits =>
      intro c member
      rcases List.mem_append.1 member with inside | inside
      · exact .inl (digits.digits c (List.mem_append_left _ inside))
      rcases List.mem_cons.1 inside with rfl | inside
      · exact .inr rfl
      · exact .inl (digits.digits c (List.mem_append_right _ inside))

private theorem ne_sign_of_head {c : Char} (h : c.isDigit = true ∨ c = '.') :
    c ≠ '+' ∧ c ≠ '-' := by
  rcases h with digit | rfl
  · exact isDigit_ne_sign digit
  · decide

private theorem lower_ne_word {c : Char} (h : c.isDigit = true ∨ c = '.') (rest : List Char)
    {letter : Char} (alpha : letter.isAlpha = true) (others : List Char) :
    (c :: rest).map Char.toLower ≠ letter :: others := by
  intro same
  have lower : c.toLower = letter := (List.cons.inj same).1
  rcases h with digit | rfl
  · rw [toLower_of_isDigit digit] at lower
    rw [← lower, not_isAlpha_of_isDigit digit] at alpha
    cases alpha
  · rw [← lower] at alpha
    exact absurd alpha (by decide)

namespace Numeral

private theorem exponent?_eq_some_iff {cs : List Char} {e : Int} :
    exponent? cs = some e ↔ WrittenExponent e cs := by
  constructor
  · intro h
    cases cs with
    | nil =>
        cases h
        exact .absent
    | cons c cs =>
        obtain ⟨sign, split, signed⟩ := exists_writtenSign cs
        unfold exponent? at h
        dsimp only at h
        split at h
        · rename_i present
          obtain ⟨mark, nonempty, digits⟩ := present
          cases h
          have written := WrittenExponent.present mark signed ⟨nonempty, List.all_eq_true.1 digits⟩
          rwa [← split] at written
        · cases h
  · intro h
    cases h with
    | absent => rfl
    | present mark signed digits =>
        dsimp only [exponent?]
        rw [splitSign_append signed digits.unsigned]
        exact if_pos ⟨mark, digits.nonempty, List.all_eq_true.2 digits.digits⟩

private theorem decimal?_of_point {cs rest : List Char} (negative : Bool)
    (behind : cs.dropWhile Char.isDigit = '.' :: rest) :
    decimal? negative cs =
      if cs.takeWhile Char.isDigit ++ rest.takeWhile Char.isDigit = [] then none
      else (exponent? (rest.dropWhile Char.isDigit)).map fun e =>
        .decimal negative
          (digitsValue (cs.takeWhile Char.isDigit ++ rest.takeWhile Char.isDigit))
          (e - (rest.takeWhile Char.isDigit).length) := by
  unfold decimal?
  rw [behind]
  rfl

private theorem decimal?_of_no_point {cs : List Char} (negative : Bool)
    (behind : ∀ c ∈ (cs.dropWhile Char.isDigit).head?, c ≠ '.') :
    decimal? negative cs =
      if cs.takeWhile Char.isDigit = [] then none
      else (exponent? (cs.dropWhile Char.isDigit)).map fun e =>
        .decimal negative (digitsValue (cs.takeWhile Char.isDigit)) e := by
  unfold decimal?
  dsimp only
  split
  · rename_i rest point
    rw [point] at behind
    exact absurd rfl (behind '.' rfl)
  · simp

private theorem decimal?_eq_some_iff {negative : Bool} {cs : List Char} {n : Numeral} :
    decimal? negative cs = some n ↔
      ∃ whole fraction mantissa exponent e, cs = mantissa ++ exponent ∧
        WrittenMantissa whole fraction mantissa ∧ WrittenExponent e exponent ∧
          n = .decimal negative (digitsValue (whole ++ fraction)) (e - fraction.length) := by
  constructor
  · intro h
    have split : cs = cs.takeWhile Char.isDigit ++ cs.dropWhile Char.isDigit :=
      List.takeWhile_append_dropWhile.symm
    have before : ∀ c ∈ cs.takeWhile Char.isDigit, c.isDigit = true :=
      fun c member => List.mem_takeWhile_imp member
    by_cases pointed : ∃ rest, cs.dropWhile Char.isDigit = '.' :: rest
    · obtain ⟨rest, behind⟩ := pointed
      rw [decimal?_of_point negative behind] at h
      split at h
      · cases h
      · rename_i nonempty
        obtain ⟨e, last, rfl⟩ := Option.map_eq_some_iff.1 h
        refine ⟨_, _, _, _, e, ?_, .pointed ⟨nonempty, fun c member => ?_⟩,
          exponent?_eq_some_iff.1 last, rfl⟩
        · rw [List.append_assoc, List.cons_append, List.takeWhile_append_dropWhile, ← behind]
          exact split
        · exact (List.mem_append.1 member).elim (before c) fun inside =>
            List.mem_takeWhile_imp inside
    · have behind : ∀ c ∈ (cs.dropWhile Char.isDigit).head?, c ≠ '.' := by
        rintro c first rfl
        obtain ⟨rest, same⟩ := List.head?_eq_some_iff.1 first
        exact pointed ⟨rest, same⟩
      rw [decimal?_of_no_point negative behind] at h
      split at h
      · cases h
      · rename_i nonempty
        obtain ⟨e, last, rfl⟩ := Option.map_eq_some_iff.1 h
        exact ⟨_, [], _, _, e, split, .whole ⟨nonempty, before⟩, exponent?_eq_some_iff.1 last,
          by simp⟩
  · rintro ⟨whole, fraction, mantissa, exponent, e, rfl, written, last, rfl⟩
    have stops : ∀ c ∈ exponent.head?, c.isDigit = false := fun c first => (last.head c first).1
    cases written with
    | whole digits =>
        obtain ⟨taken, left⟩ := takeWhile_dropWhile_append digits.digits stops
        rw [decimal?_of_no_point negative (by rw [left]; exact fun c first => (last.head c first).2),
          taken, left, if_neg digits.nonempty, exponent?_eq_some_iff.2 last]
        simp
    | pointed digits =>
        have point : ∀ c ∈ ('.' :: (fraction ++ exponent)).head?, c.isDigit = false := by
          rintro c ⟨⟩
          rfl
        obtain ⟨taken, left⟩ := takeWhile_dropWhile_append
          (fun c member => digits.digits c (List.mem_append_left _ member)) point
        obtain ⟨taken', left'⟩ := takeWhile_dropWhile_append
          (fun c member => digits.digits c (List.mem_append_right _ member)) stops
        rw [List.append_assoc, List.cons_append, decimal?_of_point negative left, taken, taken', left',
          if_neg digits.nonempty, exponent?_eq_some_iff.2 last]
        rfl

/-- A text is read as a numeral if and only if it is one of its spellings. -/
theorem read?_eq_some_iff {cs : List Char} {n : Numeral} : read? cs = some n ↔ n.Written cs := by
  constructor
  · intro h
    obtain ⟨sign, split, signed⟩ := exists_writtenSign cs
    unfold read? at h
    dsimp only at h
    rw [split]
    split at h
    · rename_i word
      cases h
      exact .nan signed (String.ofList_eq.1 word)
    · rename_i word
      cases h
      exact .infinite signed (.inl (String.ofList_eq.1 word))
    · rename_i word
      cases h
      exact .infinite signed (.inr (String.ofList_eq.1 word))
    · obtain ⟨whole, fraction, mantissa, exponent, e, body, written, last, rfl⟩ :=
        decimal?_eq_some_iff.1 h
      rw [body]
      exact .decimal signed written last
  · intro h
    cases h with
    | nan signed word =>
        unfold read?
        rw [splitSign_append signed (unsigned_of_lower word (by decide) (by decide))]
        dsimp only
        rw [word]
        rfl
    | infinite signed word =>
        unfold read?
        rcases word with word | word
        all_goals
          rw [splitSign_append signed (unsigned_of_lower word (by decide) (by decide))]
          dsimp only
          rw [word]
          rfl
    | decimal signed written last =>
        obtain ⟨c, rest, rfl, first⟩ := written.exists_head
        unfold read?
        rw [splitSign_append signed (by rintro c' ⟨⟩; exact ne_sign_of_head first)]
        dsimp only
        split
        · rename_i word
          exact absurd (String.ofList_eq.1 word) (lower_ne_word first _ rfl _)
        · rename_i word
          exact absurd (String.ofList_eq.1 word) (lower_ne_word first _ rfl _)
        · rename_i word
          exact absurd (String.ofList_eq.1 word) (lower_ne_word first _ rfl _)
        · exact decimal?_eq_some_iff.2 ⟨_, _, _, _, _, rfl, written, last, rfl⟩

theorem Written.unique {n n' : Numeral} {cs : List Char} (h : n.Written cs) (h' : n'.Written cs) :
    n = n' :=
  Option.some.inj ((read?_eq_some_iff.2 h).symm.trans (read?_eq_some_iff.2 h'))

theorem Written.characters {cs : List Char} {n : Numeral} (h : n.Written cs) :
    ∀ c ∈ cs, c.isAlpha = true ∨ c.isDigit = true ∨ c = '+' ∨ c = '-' ∨ c = '.' := by
  have of_sign {negative : Bool} {sign : List Char} (signed : WrittenSign negative sign) :
      ∀ c ∈ sign, c = '+' ∨ c = '-' := by
    cases signed <;> simp
  have of_word {word letters : List Char} (lower : word.map Char.toLower = letters)
      (alpha : letters.all Char.isAlpha = true) : ∀ c ∈ word, c.isAlpha = true :=
    fun c member => isAlpha_of_toLower
      (List.all_eq_true.1 alpha _ (lower ▸ List.mem_map_of_mem member))
  have of_signed_word {negative : Bool} {sign word : List Char} (signed : WrittenSign negative sign)
      (alpha : ∀ c ∈ word, c.isAlpha = true) : ∀ c ∈ sign ++ word, c.isAlpha = true ∨
        c.isDigit = true ∨ c = '+' ∨ c = '-' ∨ c = '.' := by
    intro c member
    rcases List.mem_append.1 member with inside | inside
    · rcases of_sign signed c inside with rfl | rfl <;> simp
    · exact .inl (alpha c inside)
  cases h with
  | nan signed word => exact of_signed_word signed (of_word word (by decide))
  | infinite signed word =>
      rcases word with word | word
      · exact of_signed_word signed (of_word word (by decide))
      · exact of_signed_word signed (of_word word (by decide))
  | decimal signed written last =>
      intro c member
      rcases List.mem_append.1 member with inside | inside
      · rcases of_sign signed c inside with rfl | rfl <;> simp
      rcases List.mem_append.1 inside with inside | inside
      · exact .inr ((written.characters c inside).imp_right fun point => .inr (.inr point))
      · cases last with
        | absent => cases inside
        | present mark signed digits =>
            rcases List.mem_cons.1 inside with rfl | inside
            · rcases mark with rfl | rfl <;> exact .inl rfl
            rcases List.mem_append.1 inside with inside | inside
            · rcases of_sign signed c inside with rfl | rfl <;> simp
            · exact .inr (.inl (digits.digits c inside))

end Numeral

end ViewStyle.Decimal
