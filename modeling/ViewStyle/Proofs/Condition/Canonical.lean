/-
Canonical texts of two expressions differ unless the expressions are the same, or a name of one of
them stands where the other one has a number or has the spaces, brackets or quotes of that name.
-/

import ViewStyle.Condition.Basic
import ViewStyle.Proofs.Condition.Reads
import ViewStyle.Proofs.Decimal.Positional
import ViewStyle.Proofs.Text.Shown
import ViewStyle.Proofs.Token.Names

set_option autoImplicit false

namespace ViewStyle

namespace Expr

def AllNames (P : String → Prop) : Expr → Prop
  | .number _ => True
  | .text _ => True
  | .bool _ => True
  | .name path => P path
  | .negate operand => operand.AllNames P
  | .not operand => operand.AllNames P
  | .and left right => left.AllNames P ∧ right.AllNames P
  | .or left right => left.AllNames P ∧ right.AllNames P
  | .compare _ left right => left.AllNames P ∧ right.AllNames P
  | .arith _ left right => left.AllNames P ∧ right.AllNames P

def apart : Expr → Expr → Bool
  | .number _, .name _ => false
  | .name _, .number _ => false
  | .negate a, .negate b => a.apart b
  | .not a, .not b => a.apart b
  | .and a b, .and c d => a.apart c && b.apart d
  | .or a b, .or c d => a.apart c && b.apart d
  | .compare _ a b, .compare _ c d => a.apart c && b.apart d
  | .arith _ a b, .arith _ c d => a.apart c && b.apart d
  | _, _ => true

/-- What joins two operands. -/
inductive Link
  | and
  | or
  | compare (op : Comparison)
  | arith (op : Arithmetic)

def Link.word : Link → String
  | .and => "and"
  | .or => "or"
  | .compare op => op.text
  | .arith op => op.text

def Link.build : Link → Expr → Expr → Expr
  | .and => .and
  | .or => .or
  | .compare op => .compare op
  | .arith op => .arith op

private theorem Link.word_injective : Function.Injective Link.word := by
  rintro (_ | _ | op | op) (_ | _ | op' | op') h
  · rfl
  · exact absurd h (by decide)
  · cases op' <;> exact absurd h (by decide)
  · cases op' <;> exact absurd h (by decide)
  · exact absurd h (by decide)
  · rfl
  · cases op' <;> exact absurd h (by decide)
  · cases op' <;> exact absurd h (by decide)
  · cases op <;> exact absurd h (by decide)
  · cases op <;> exact absurd h (by decide)
  · cases op <;> cases op' <;> first | rfl | exact absurd h (by decide)
  · cases op <;> cases op' <;> exact absurd h (by decide)
  · cases op <;> exact absurd h (by decide)
  · cases op <;> exact absurd h (by decide)
  · cases op <;> cases op' <;> exact absurd h (by decide)
  · cases op <;> cases op' <;> first | rfl | exact absurd h (by decide)

theorem Link.bare_word (k : Link) : ∀ c ∈ k.word.toList, isBare c = true := by
  cases k with
  | and => exact List.all_eq_true.1 (by decide)
  | or => exact List.all_eq_true.1 (by decide)
  | compare op => cases op <;> exact List.all_eq_true.1 (by decide)
  | arith op => cases op <;> exact List.all_eq_true.1 (by decide)

private theorem link_induction {P : Expr → Prop} (number : ∀ value, P (.number value))
    (text : ∀ value, P (.text value)) (bool : ∀ value, P (.bool value))
    (name : ∀ path, P (.name path)) (negate : ∀ e, P e → P (.negate e))
    (not : ∀ e, P e → P (.not e)) (link : ∀ (k : Link) l r, P l → P r → P (k.build l r)) (e : Expr) :
    P e := by
  induction e with
  | number value => exact number value
  | text value => exact text value
  | bool value => exact bool value
  | name path => exact name path
  | negate e ih => exact negate e ih
  | not e ih => exact not e ih
  | and l r hl hr => exact link .and l r hl hr
  | or l r hl hr => exact link .or l r hl hr
  | compare op l r hl hr => exact link (.compare op) l r hl hr
  | arith op l r hl hr => exact link (.arith op) l r hl hr

theorem allNames_link {P : String → Prop} (k : Link) (l r : Expr) :
    (k.build l r).AllNames P ↔ l.AllNames P ∧ r.AllNames P := by
  cases k <;> rfl

private theorem apart_link (k : Link) (a b c d : Expr) :
    (k.build a b).apart (k.build c d) = (a.apart c && b.apart d) := by
  cases k <;> rfl

def chars (e : Expr) : List Char := e.canonical.toList

theorem chars_negate (e : Expr) : (Expr.negate e).chars = '(' :: '-' :: (e.chars ++ [')']) := by
  simp [chars, canonical]

theorem chars_not (e : Expr) :
    (Expr.not e).chars = '(' :: (['n', 'o', 't'] ++ ' ' :: (e.chars ++ [')'])) := by
  simp [chars, canonical]

theorem chars_link (k : Link) (l r : Expr) : (k.build l r).chars =
    '(' :: (l.chars ++ ' ' :: (k.word.toList ++ ' ' :: (r.chars ++ [')']))) := by
  cases k <;> simp [chars, canonical, Link.build, Link.word]

def Ends (cs : List Char) : Prop := ∀ c rest, cs = c :: rest → c = ' ' ∨ c = ')'

theorem ends_nil : Ends [] :=
  nofun

theorem ends_space (rest : List Char) : Ends (' ' :: rest) := by
  intro c rest' h
  exact .inl (List.cons.inj h).1.symm

theorem ends_closing (rest : List Char) : Ends (')' :: rest) := by
  intro c rest' h
  exact .inr (List.cons.inj h).1.symm

private theorem Ends.not_bare {c : Char} {rest : List Char} (h : Ends (c :: rest)) :
    isBare c ≠ true := by
  rcases h c rest rfl with rfl | rfl
  · decide
  · decide

theorem bare_append_inj {cs ds u v : List Char} (hc : ∀ c ∈ cs, isBare c = true)
    (hd : ∀ d ∈ ds, isBare d = true) (hu : Ends u) (hv : Ends v) (h : cs ++ u = ds ++ v) :
    cs = ds ∧ u = v := by
  induction cs generalizing ds with
  | nil =>
      cases ds with
      | nil => exact ⟨rfl, h⟩
      | cons d ds =>
          rw [List.nil_append, List.cons_append] at h
          exact absurd (hd d List.mem_cons_self) (h ▸ hu).not_bare
  | cons c cs ih =>
      cases ds with
      | nil =>
          rw [List.nil_append, List.cons_append] at h
          exact absurd (hc c List.mem_cons_self) (h ▸ hv).not_bare
      | cons d ds =>
          obtain ⟨rfl, tail⟩ := List.cons.inj h
          obtain ⟨rfl, rfl⟩ := ih (fun c member => hc c (List.mem_cons_of_mem _ member))
            (fun d member => hd d (List.mem_cons_of_mem _ member)) tail
          exact ⟨rfl, rfl⟩

def Opens (cs : List Char) : Prop := ∃ c rest, cs = c :: rest ∧ (c = '"' ∨ c = '(')

private theorem bare_append_ne {cs ds u v : List Char} (hc : ∀ c ∈ cs, isBare c = true)
    (hu : Ends u) (hd : Opens ds) : cs ++ u ≠ ds ++ v := by
  obtain ⟨d, rest, rfl, opens⟩ := hd
  intro h
  cases cs with
  | nil =>
      rw [List.nil_append, List.cons_append] at h
      rcases hu d _ h with rfl | rfl
      · exact absurd opens (by decide)
      · exact absurd opens (by decide)
  | cons c cs =>
      have bare := hc c List.mem_cons_self
      rw [(List.cons.inj h).1] at bare
      rcases opens with rfl | rfl
      · exact absurd bare (by decide)
      · exact absurd bare (by decide)

/-- A name that cannot be taken for a word of the language. -/
structure GoodName (path : String) : Prop where
  bare : BareName path
  ne_true : path ≠ "true"
  ne_false : path ≠ "false"
  ne_not : path ≠ "not"

def isAtom : Expr → Bool
  | .number _ => true
  | .bool _ => true
  | .name _ => true
  | _ => false

private theorem head_positional (x : Float) : ∃ c rest, (Decimal.positional x).toList = c :: rest ∧
    (c.isDigit = true ∨ c = '-' ∨ c = 'N' ∨ c = 'i') ∧ ∀ d ∈ c :: rest, isBare d = true := by
  unfold Decimal.positional
  cases Decimal.Binary.ofFloat x with
  | nan => exact ⟨'N', ['a', 'N'], rfl, by decide, List.all_eq_true.1 (by decide)⟩
  | infinite negative =>
      cases negative with
      | false => exact ⟨'i', ['n', 'f'], rfl, by decide, List.all_eq_true.1 (by decide)⟩
      | true => exact ⟨'-', ['i', 'n', 'f'], rfl, by decide, List.all_eq_true.1 (by decide)⟩
  | finite negative m e =>
      obtain ⟨text, eq, ⟨c, rest, first, digit, others⟩, -⟩ :=
        Decimal.Binary.exists_positional_finite (f := Decimal.double) negative m e
      have bare_digit : ∀ d : Char, d.isDigit = true ∨ d = '.' → isBare d = true := by
        rintro d (digit | rfl)
        · have other : d ≠ ' ' ∧ d ≠ '(' ∧ d ≠ ')' ∧ d ≠ '"' := by
            refine ⟨?_, ?_, ?_, ?_⟩ <;> (rintro rfl; exact absurd digit (by decide))
          simp [isBare, other]
        · decide
      have bare : ∀ d ∈ c :: rest, isBare d = true := by
        intro d member
        rcases List.mem_cons.1 member with rfl | member
        · exact bare_digit d (.inl digit)
        · exact bare_digit d (others d member)
      rw [eq, Decimal.Binary.toList_signed, first]
      cases negative with
      | false => exact ⟨c, rest, rfl, .inl digit, bare⟩
      | true =>
          refine ⟨'-', c :: rest, rfl, .inr (.inl rfl), fun d member => ?_⟩
          rcases List.mem_cons.1 member with rfl | member
          · decide
          · exact bare d member

private theorem positional_ne {x : Float} {word : String} (other : word.toList.head?.all fun c =>
    !(c.isDigit || c == '-' || c == 'N' || c == 'i')) : Decimal.positional x ≠ word := by
  rintro rfl
  obtain ⟨c, rest, first, head, -⟩ := head_positional x
  rw [first, List.head?_cons, Option.all_some] at other
  rcases head with digit | rfl | rfl | rfl
  · simp [digit] at other
  · exact absurd other (by decide)
  · exact absurd other (by decide)
  · exact absurd other (by decide)

private theorem eq_of_chars_eq {e e' : Expr} (he : e.isAtom = true) (he' : e'.isAtom = true)
    (names : e.AllNames GoodName) (names' : e'.AllNames GoodName) (same : e.chars = e'.chars)
    (separate : e.apart e' = true) : e = e' := by
  have texts : e.canonical = e'.canonical := String.toList_inj.1 same
  cases e with
  | number x =>
      cases e' with
      | number y => rw [Decimal.positional_injective texts]
      | bool value =>
          cases value with
          | true => exact absurd texts (positional_ne (by decide))
          | false => exact absurd texts (positional_ne (by decide))
      | name path => cases separate
      | _ => cases he'
  | bool value =>
      cases e' with
      | number y =>
          cases value with
          | true => exact absurd texts.symm (positional_ne (by decide))
          | false => exact absurd texts.symm (positional_ne (by decide))
      | bool value' =>
          cases value <;> cases value'
          · rfl
          · exact absurd texts (by decide)
          · exact absurd texts (by decide)
          · rfl
      | name path =>
          cases value with
          | true => exact absurd texts.symm names'.ne_true
          | false => exact absurd texts.symm names'.ne_false
      | _ => cases he'
  | name path =>
      cases e' with
      | number y => cases separate
      | bool value =>
          cases value with
          | true => exact absurd texts names.ne_true
          | false => exact absurd texts names.ne_false
      | name path' => rw [show path = path' from texts]
      | _ => cases he'
  | _ => cases he

theorem bare_chars {e : Expr} (atom : e.isAtom = true) (names : e.AllNames GoodName) :
    ∀ c ∈ e.chars, isBare c = true := by
  cases e with
  | number x =>
      obtain ⟨c, rest, first, -, bare⟩ := head_positional x
      intro d member
      exact bare d (first ▸ member)
  | bool value => cases value <;> exact List.all_eq_true.1 (by decide)
  | name path => exact names.bare
  | _ => cases atom

inductive Shape : Expr → Prop
  | atom {e : Expr} : e.isAtom = true → Shape e
  | text (value : String) : Shape (.text value)
  | negate {e : Expr} : e.AllNames GoodName → Shape (.negate e)
  | not {e : Expr} : e.AllNames GoodName → Shape (.not e)
  | link (k : Link) {l r : Expr} : l.AllNames GoodName → r.AllNames GoodName → Shape (k.build l r)

private theorem shape (e : Expr) (names : e.AllNames GoodName) : Shape e := by
  cases e with
  | number x => exact .atom rfl
  | text value => exact .text value
  | bool value => exact .atom rfl
  | name path => exact .atom rfl
  | negate e => exact .negate names
  | not e => exact .not names
  | and l r => exact .link .and names.1 names.2
  | or l r => exact .link .or names.1 names.2
  | compare op l r => exact .link (.compare op) names.1 names.2
  | arith op l r => exact .link (.arith op) names.1 names.2

private theorem opens_text (value : String) : Opens (Expr.text value).chars :=
  ⟨'"', _, Text.toList_shown value, .inl rfl⟩

private theorem opens_negate (e : Expr) : Opens (Expr.negate e).chars :=
  ⟨'(', _, chars_negate e, .inr rfl⟩

private theorem opens_not (e : Expr) : Opens (Expr.not e).chars :=
  ⟨'(', _, chars_not e, .inr rfl⟩

private theorem opens_link (k : Link) (l r : Expr) : Opens (k.build l r).chars :=
  ⟨'(', _, chars_link k l r, .inr rfl⟩

private theorem isAtom_or_opens (e : Expr) (names : e.AllNames GoodName) :
    e.isAtom = true ∨ Opens e.chars := by
  cases shape e names with
  | atom atom => exact .inl atom
  | text value => exact .inr (opens_text value)
  | negate _ => exact .inr (opens_negate _)
  | not _ => exact .inr (opens_not _)
  | link k _ _ => exact .inr (opens_link k _ _)

private theorem minus_append_ne {a l : Expr} (ha : a.AllNames GoodName) (hl : l.AllNames GoodName)
    (u w : List Char) : '-' :: (a.chars ++ ')' :: u) ≠ l.chars ++ ' ' :: w := by
  intro h
  rcases isAtom_or_opens l hl with atom | ⟨c, rest, first, opens⟩
  · have bare_l := bare_chars atom hl
    rcases isAtom_or_opens a ha with atom' | opens
    · -- The minus sign and the operand would be one bare text with a bracket behind it.
      have bare : ∀ c ∈ '-' :: a.chars, isBare c = true := by
        intro c member
        rcases List.mem_cons.1 member with rfl | member
        · decide
        · exact bare_chars atom' ha c member
      have rest := (bare_append_inj bare bare_l (ends_closing u) (ends_space w) h).2
      exact absurd (List.cons.inj rest).1 (by decide)
    · cases chars_eq : l.chars with
      | nil =>
          rw [chars_eq] at h
          exact absurd (List.cons.inj h).1 (by decide)
      | cons c rest =>
          rw [chars_eq] at h bare_l
          exact bare_append_ne (fun d member => bare_l d (List.mem_cons_of_mem _ member))
            (ends_space w) opens (List.cons.inj h).2.symm
  · rw [first] at h
    rw [← (List.cons.inj h).1] at opens
    exact absurd opens (by decide)

private theorem not_append_ne {l : Expr} (hl : l.AllNames GoodName) (u w : List Char) :
    ['n', 'o', 't'] ++ ' ' :: u ≠ l.chars ++ ' ' :: w := by
  intro h
  have bare : ∀ c ∈ ['n', 'o', 't'], isBare c = true := List.all_eq_true.1 (by decide)
  rcases isAtom_or_opens l hl with atom | opens
  · have word := (bare_append_inj bare (bare_chars atom hl) (ends_space u) (ends_space w) h).1
    have text : l.canonical = "not" := String.toList_inj.1 word.symm
    cases l with
    | number x => exact positional_ne (by decide) text
    | bool value => cases value <;> exact absurd text (by decide)
    | name path => exact hl.ne_not text
    | _ => cases atom
  · exact bare_append_ne bare (ends_space u) opens h

def Readable (e : Expr) : Prop :=
  ∀ e' u v, e'.AllNames GoodName → Ends u → Ends v → e.chars ++ u = e'.chars ++ v →
    (e.apart e' = true → e = e') ∧ u = v

private theorem readable_of_isAtom {e : Expr} (atom : e.isAtom = true)
    (names : e.AllNames GoodName) : Readable e := by
  intro e' u v names' hu hv h
  have bare := bare_chars atom names
  rcases isAtom_or_opens e' names' with atom' | opens
  · obtain ⟨same, rest⟩ := bare_append_inj bare (bare_chars atom' names') hu hv h
    exact ⟨eq_of_chars_eq atom atom' names names' same, rest⟩
  · exact absurd h (bare_append_ne bare hu opens)

private theorem readable_text (value : String) : Readable (.text value) := by
  intro e' u v names' hu hv h
  cases shape e' names' with
  | atom atom =>
      exact absurd h.symm (bare_append_ne (bare_chars atom names') hv (opens_text value))
  | text value' =>
      obtain ⟨rfl, rest⟩ := Text.shown_append_inj h
      exact ⟨fun _ => rfl, rest⟩
  | negate _ =>
      rw [chars_negate, chars, canonical, Text.toList_shown] at h
      exact absurd (List.cons.inj h).1 (by decide)
  | not _ =>
      rw [chars_not, chars, canonical, Text.toList_shown] at h
      exact absurd (List.cons.inj h).1 (by decide)
  | link k _ _ =>
      rw [chars_link, chars, canonical, Text.toList_shown] at h
      exact absurd (List.cons.inj h).1 (by decide)

private theorem text_append_ne {value : String} {cs u v : List Char} :
    (Expr.text value).chars ++ u ≠ '(' :: cs ++ v := by
  intro h
  rw [chars, canonical, Text.toList_shown] at h
  exact absurd (List.cons.inj h).1 (by decide)

private theorem readable_negate {e : Expr} (names : e.AllNames GoodName) (ih : Readable e) :
    Readable (.negate e) := by
  intro e' u v names' hu hv h
  cases shape e' names' with
  | atom atom =>
      exact absurd h.symm (bare_append_ne (bare_chars atom names') hv (opens_negate e))
  | text value =>
      rw [chars_negate] at h
      exact absurd h.symm text_append_ne
  | @negate e' names' =>
      rw [chars_negate, chars_negate] at h
      simp only [List.cons_append, List.append_assoc, List.cons.injEq, true_and,
        List.nil_append] at h
      obtain ⟨same, rest⟩ := ih e' _ _ names' (ends_closing u) (ends_closing v) h
      refine ⟨fun separate => ?_, (List.cons.inj rest).2⟩
      rw [same separate]
  | not _ =>
      rw [chars_negate, chars_not] at h
      exact absurd (List.cons.inj (List.cons.inj h).2).1 (by decide)
  | @link k l r hl hr =>
      rw [chars_negate, chars_link] at h
      simp only [List.cons_append, List.append_assoc, List.cons.injEq, true_and,
        List.nil_append] at h
      exact absurd h (minus_append_ne names hl _ _)

private theorem readable_not {e : Expr} (ih : Readable e) : Readable (.not e) := by
  intro e' u v names' hu hv h
  cases shape e' names' with
  | atom atom =>
      exact absurd h.symm (bare_append_ne (bare_chars atom names') hv (opens_not e))
  | text value =>
      rw [chars_not] at h
      exact absurd h.symm text_append_ne
  | negate _ =>
      rw [chars_negate, chars_not] at h
      exact absurd (List.cons.inj (List.cons.inj h).2).1 (by decide)
  | @not e' names' =>
      rw [chars_not, chars_not] at h
      simp only [List.cons_append, List.append_assoc, List.cons.injEq, true_and,
        List.nil_append] at h
      obtain ⟨same, rest⟩ := ih e' _ _ names' (ends_closing u) (ends_closing v) h
      refine ⟨fun separate => ?_, (List.cons.inj rest).2⟩
      rw [same separate]
  | @link k l r hl hr =>
      rw [chars_not, chars_link] at h
      simp only [List.cons_append, List.append_assoc, List.cons.injEq, true_and] at h
      exact absurd h (not_append_ne hl _ _)

private theorem readable_link (k : Link) {l r : Expr} (hl : l.AllNames GoodName) (ih_l : Readable l)
    (ih_r : Readable r) : Readable (k.build l r) := by
  intro e' u v names' hu hv h
  cases shape e' names' with
  | atom atom =>
      exact absurd h.symm (bare_append_ne (bare_chars atom names') hv (opens_link k l r))
  | text value =>
      rw [chars_link] at h
      exact absurd h.symm text_append_ne
  | negate inside =>
      rw [chars_negate, chars_link] at h
      simp only [List.cons_append, List.append_assoc, List.cons.injEq, true_and,
        List.nil_append] at h
      exact absurd h.symm (minus_append_ne inside hl _ _)
  | not _ =>
      rw [chars_not, chars_link] at h
      simp only [List.cons_append, List.append_assoc, List.cons.injEq, true_and] at h
      exact absurd h.symm (not_append_ne hl _ _)
  | @link k' l' r' hl' hr' =>
      rw [chars_link, chars_link] at h
      simp only [List.cons_append, List.append_assoc, List.cons.injEq, true_and,
        List.nil_append] at h
      obtain ⟨same_l, behind_l⟩ := ih_l l' _ _ hl' (ends_space _) (ends_space _) h
      obtain ⟨words, behind_word⟩ := bare_append_inj k.bare_word k'.bare_word (ends_space _)
        (ends_space _) (List.cons.inj behind_l).2
      obtain rfl := Link.word_injective (String.toList_inj.1 words)
      obtain ⟨same_r, rest⟩ :=
        ih_r r' _ _ hr' (ends_closing u) (ends_closing v) (List.cons.inj behind_word).2
      refine ⟨fun separate => ?_, (List.cons.inj rest).2⟩
      rw [apart_link, Bool.and_eq_true] at separate
      rw [same_l separate.1, same_r separate.2]

theorem readable (e : Expr) (names : e.AllNames GoodName) : Readable e := by
  induction e using link_induction with
  | number x => exact readable_of_isAtom rfl names
  | text value => exact readable_text value
  | bool value => exact readable_of_isAtom rfl names
  | name path => exact readable_of_isAtom rfl names
  | negate e ih => exact readable_negate names (ih names)
  | not e ih => exact readable_not (ih names)
  | link k l r ih_l ih_r =>
      have both := (allNames_link k l r).1 names
      exact readable_link k both.1 (ih_l both.1) (ih_r both.2)

/-- A path that is none of the words which stand for something else. -/
structure Unreserved (path : String) : Prop where
  ne_true : path ≠ "true"
  ne_false : path ≠ "false"
  ne_not : path ≠ "not"

theorem allNames_goodName {e : Expr} (bare : e.AllNames BareName)
    (unreserved : e.AllNames Unreserved) : e.AllNames GoodName := by
  induction e using link_induction with
  | number x => trivial
  | text value => trivial
  | bool value => trivial
  | name path => exact ⟨bare, unreserved.ne_true, unreserved.ne_false, unreserved.ne_not⟩
  | negate e ih => exact ih bare unreserved
  | not e ih => exact ih bare unreserved
  | link k l r ih_l ih_r =>
      rw [allNames_link] at bare unreserved ⊢
      exact ⟨ih_l bare.1 unreserved.1, ih_r bare.2 unreserved.2⟩

/-- Texts can tell the expressions apart: no number faces a name, and a name with a space, a bracket
or a quote in it faces itself only. -/
inductive Clear : Expr → Expr → Prop
  | bare {e e' : Expr} : e.AllNames BareName → e'.AllNames BareName → e.apart e' = true → Clear e e'
  | name (path : String) : Clear (.name path) (.name path)
  | negate {a b : Expr} : Clear a b → Clear (.negate a) (.negate b)
  | not {a b : Expr} : Clear a b → Clear (.not a) (.not b)
  | link (k k' : Link) {a b c d : Expr} :
      Clear a c → Clear b d → Clear (k.build a b) (k'.build c d)

theorem clear_self (e : Expr) : e.Clear e := by
  induction e using link_induction with
  | number x => exact .bare trivial trivial rfl
  | text value => exact .bare trivial trivial rfl
  | bool value => exact .bare trivial trivial rfl
  | name path => exact .name path
  | negate e ih => exact .negate ih
  | not e ih => exact .not ih
  | link k l r ih_l ih_r => exact .link k k ih_l ih_r

/-- Two expressions that one text starts with are the same. -/
def Told (e e' : Expr) : Prop :=
  ∀ u v, Ends u → Ends v → e.chars ++ u = e'.chars ++ v → e = e' ∧ u = v

private theorem told_link (k k' : Link) {l r l' r' : Expr} (left : l.Told l') (right : r.Told r') :
    (k.build l r).Told (k'.build l' r') := by
  intro u v hu hv h
  rw [chars_link, chars_link] at h
  simp only [List.cons_append, List.append_assoc, List.cons.injEq, true_and, List.nil_append] at h
  obtain ⟨rfl, behind_l⟩ := left _ _ (ends_space _) (ends_space _) h
  obtain ⟨words, behind_word⟩ := bare_append_inj k.bare_word k'.bare_word (ends_space _)
    (ends_space _) (List.cons.inj behind_l).2
  obtain rfl := Link.word_injective (String.toList_inj.1 words)
  obtain ⟨rfl, rest⟩ :=
    right _ _ (ends_closing u) (ends_closing v) (List.cons.inj behind_word).2
  exact ⟨rfl, (List.cons.inj rest).2⟩

private theorem told_of_bare {e e' : Expr} (names : e.AllNames GoodName)
    (names' : e'.AllNames GoodName) (separate : e.apart e' = true) : e.Told e' := by
  intro u v hu hv h
  obtain ⟨same, rest⟩ := readable e names e' u v names' hu hv h
  exact ⟨same separate, rest⟩

private theorem told_of_clear {e e' : Expr} (clear : e.Clear e') (names : e.AllNames Unreserved)
    (names' : e'.AllNames Unreserved) : e.Told e' := by
  induction clear with
  | bare bare bare' separate =>
      exact told_of_bare (allNames_goodName bare names) (allNames_goodName bare' names') separate
  | name path => exact fun u v _ _ h => ⟨rfl, List.append_cancel_left h⟩
  | negate _ ih =>
      intro u v hu hv h
      rw [chars_negate, chars_negate] at h
      simp only [List.cons_append, List.append_assoc, List.cons.injEq, true_and,
        List.nil_append] at h
      obtain ⟨rfl, rest⟩ := ih names names' _ _ (ends_closing u) (ends_closing v) h
      exact ⟨rfl, (List.cons.inj rest).2⟩
  | not _ ih =>
      intro u v hu hv h
      rw [chars_not, chars_not] at h
      simp only [List.cons_append, List.append_assoc, List.cons.injEq, true_and,
        List.nil_append] at h
      obtain ⟨rfl, rest⟩ := ih names names' _ _ (ends_closing u) (ends_closing v) h
      exact ⟨rfl, (List.cons.inj rest).2⟩
  | link k k' _ _ ih_l ih_r =>
      have both := (allNames_link k _ _).1 names
      have both' := (allNames_link k' _ _).1 names'
      exact told_link k k' (ih_l both.1 both'.1) (ih_r both.2 both'.2)

/-- Clear expressions with the same canonical text are the same. -/
theorem eq_of_canonical_eq {e e' : Expr} (names : e.AllNames Unreserved)
    (names' : e'.AllNames Unreserved) (clear : e.Clear e')
    (same : e.canonical = e'.canonical) : e = e' := by
  have texts : e.chars ++ [] = e'.chars ++ [] := by rw [chars, chars, same]
  exact (told_of_clear clear names names' [] [] ends_nil ends_nil texts).1

end Expr

end ViewStyle
