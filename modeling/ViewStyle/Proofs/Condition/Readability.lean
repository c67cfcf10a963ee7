/-
Canonical texts can be read back. Without escapes no name starts like a number, and the text of a
finite number starts with a digit behind its sign; so nothing that a condition is written with can
be taken for something else, and expressions with the same text are the same.
-/

import ViewStyle.Proofs.Condition.Merging
import ViewStyle.Proofs.Decimal.Rounding
import ViewStyle.Proofs.Decimal.Spelling
import ViewStyle.Proofs.Token.Lookahead

set_option autoImplicit false

namespace ViewStyle

def WordStart (name : String) : Prop :=
  ∃ c rest, name.toList = c :: rest ∧ c.isDigit = false ∧
    (c = '-' → ∀ d ∈ rest.head?, d.isDigit = false)

private theorem WordStart.append {name : String} (h : WordStart name) {more : String}
    (other : ∀ d ∈ more.toList.head?, d.isDigit = false) : WordStart (name ++ more) := by
  obtain ⟨c, rest, first, no_digit, second⟩ := h
  refine ⟨c, rest ++ more.toList, ?_, no_digit, fun hyphen => ?_⟩
  · rw [String.toList_append, first, List.cons_append]
  · cases rest with
    | nil => exact other
    | cons d rest => exact second hyphen

namespace Lexeme

private theorem isDigit_of_startsName {c : Char} (h : startsName c = true) : c.isDigit = false := by
  refine Bool.eq_false_iff.2 fun digit => ?_
  have bounds := Decimal.isDigit_iff.1 digit
  simp only [startsName, Bool.or_eq_true, decide_eq_true_eq, beq_iff_eq] at h
  rcases h with ((letter | rfl) | rfl) | large
  · exact Bool.false_ne_true ((Decimal.not_isAlpha_of_isDigit digit).symm.trans letter)
  · exact absurd bounds (by decide)
  · exact absurd bounds (by decide)
  · omega

private theorem isDigit_plain {c : Char} (h : startsName c = true ∨ c = '-') :
    (plain c).isDigit = false := by
  unfold plain
  split
  · decide
  · rcases h with letter | rfl
    · exact isDigit_of_startsName letter
    · decide

private theorem takeName_cons {c : Char} {cs : List Char} (other : c ≠ '\\')
    (h : startsName c = true ∨ c = '-') :
    (takeName (c :: cs)).1 = plain c :: (takeName cs).1 := by
  have continues : continuesName c = true := by
    rcases h with letter | rfl
    · rw [continuesName, letter, Bool.true_or, Bool.true_or]
    · decide
  rw [takeName, if_pos continues]
  exact other

private theorem wordStart_takeName {c : Char} {cs : List Char} (h : '\\' ∉ c :: cs)
    (starts : atName (c :: cs) = true) : WordStart (String.ofList (takeName (c :: cs)).1) := by
  have plain_c : c ≠ '\\' := fun same => h (same ▸ List.mem_cons_self)
  unfold WordStart
  rw [String.toList_ofList]
  by_cases hyphen : c = '-'
  · subst hyphen
    refine ⟨_, _, takeName_cons plain_c (.inr rfl), isDigit_plain (.inr rfl), fun _ => ?_⟩
    cases cs with
    | nil => exact absurd starts (by decide)
    | cons d ds =>
        have plain_d : d ≠ '\\' := fun same => h (same ▸ List.mem_cons_of_mem _ List.mem_cons_self)
        have continues : startsName d = true ∨ d = '-' := by
          simpa [atName, plain_d] using starts
        rw [takeName_cons plain_d continues]
        rintro e ⟨⟩
        exact isDigit_plain continues
  · have letter : startsName c = true := (atName_cons hyphen plain_c cs).symm.trans starts
    refine ⟨_, _, takeName_cons plain_c (.inl letter), isDigit_plain (.inl letter), fun same => ?_⟩
    exact absurd ((plain_eq_iff (by decide) (by decide)).1 same) hyphen

end Lexeme

def Token.Kind.NumberHas (P : Float → Prop) : Token.Kind → Prop
  | .number value _ _ => P value
  | _ => True

instance {P : Float → Prop} [DecidablePred P] (kind : Token.Kind) : Decidable (kind.NumberHas P) :=
  match kind with
  | .number value _ _ => inferInstanceAs (Decidable (P value))
  | .ident _ | .function _ | .atWord _ | .hash _ | .string _ | .operator _ | .punct _ =>
      inferInstanceAs (Decidable True)

/-- A token that a source text without escapes has somewhere, and no infinite number. -/
structure Token.Proper (token : Token) : Prop where
  scanned : ∃ (source : String) (origin : Option String) (tokens : List Token),
    '\\' ∉ source.toList ∧ Token.scan source origin = .ok tokens ∧
      ∃ found ∈ tokens, found.kind = token.kind
  finite : token.kind.NumberHas (·.isFinite = true)

private theorem Token.Proper.nameHas {P : String → Prop} {token : Token} (h : token.Proper)
    (all : ∀ {source : String} {origin : Option String} {tokens : List Token},
      '\\' ∉ source.toList → Token.scan source origin = .ok tokens → Scan.NamesHave P tokens) :
    token.kind.NameHas P := by
  obtain ⟨source, origin, tokens, unescaped, scanned, found, member, same⟩ := h.scanned
  exact same ▸ all unescaped scanned found member

private theorem Token.wordStart_of_scan {source : String} {origin : Option String}
    {tokens : List Token} (unescaped : '\\' ∉ source.toList)
    (scanned : Token.scan source origin = .ok tokens) : Scan.NamesHave WordStart tokens := by
  have nothing : Scan.NamesHave WordStart Scan.State.start.tokens := nofun
  have next : ∀ {c : Char} {cs : List Char}, '\\' ∉ c :: cs →
      (Lexeme.next c cs).1.NameHas WordStart := fun h =>
    Lexeme.nameHas_next fun starts => Lexeme.wordStart_takeName h starts
  exact nothing.run next unescaped scanned

namespace Decimal

open Float.Model.UnpackedFloat (unpackExponent)

private theorem Binary.exists_finite_of_isFinite {x : Float} (h : x.isFinite = true) :
    ∃ negative m e, Binary.ofFloat x = .finite negative m e := by
  by_cases largest : x.toBits.toNat / 2 ^ 52 % 2 ^ 11 = 2 ^ 11 - 1
  · have exponent : @unpackExponent .binary64 x.toModel.toBits.toBitVec = -1#_ := by
      apply BitVec.eq_of_toNat_eq
      show (x.toBits.toNat >>> 52) % 2 ^ 11 = _
      rw [Nat.shiftRight_eq_div_pow, largest]
      rfl
    exact absurd exponent ((isFinite_unpack_iff _).1 h)
  · unfold Binary.ofFloat Binary.decode
    dsimp only
    split
    · rename_i exponent
      exact absurd exponent largest
    · split
      · exact ⟨_, _, _, rfl⟩
      · exact ⟨_, _, _, rfl⟩

private theorem positional_ne_of_wordStart {x : Float} (finite : x.isFinite = true) {name : String}
    (start : WordStart name) : positional x ≠ name := by
  rintro rfl
  obtain ⟨c, rest, first, no_digit, second⟩ := start
  obtain ⟨negative, m, e, value⟩ := Binary.exists_finite_of_isFinite finite
  obtain ⟨text, eq, ⟨d, digits, leading, digit, -⟩, -⟩ :=
    Binary.exists_positional_finite (f := double) negative m e
  rw [positional, value, eq, Binary.toList_signed, leading] at first
  cases negative with
  | false =>
      obtain ⟨rfl, -⟩ := List.cons.inj first
      rw [no_digit] at digit
      cases digit
  | true =>
      obtain ⟨rfl, rfl⟩ := List.cons.inj first
      rw [second rfl d rfl] at digit
      cases digit

end Decimal

namespace Expr

def AllNumbers (P : Float → Prop) : Expr → Prop
  | .number value => P value
  | .text _ => True
  | .bool _ => True
  | .name _ => True
  | .negate operand => operand.AllNumbers P
  | .not operand => operand.AllNumbers P
  | .and left right => left.AllNumbers P ∧ right.AllNumbers P
  | .or left right => left.AllNumbers P ∧ right.AllNumbers P
  | .compare _ left right => left.AllNumbers P ∧ right.AllNumbers P
  | .arith _ left right => left.AllNumbers P ∧ right.AllNumbers P

private theorem allNumbers_link {P : Float → Prop} (k : Link) (l r : Expr) :
    (k.build l r).AllNumbers P ↔ l.AllNumbers P ∧ r.AllNumbers P := by
  cases k <;> rfl

structure Plain (e : Expr) : Prop where
  names : e.AllNames GoodName
  starts : e.AllNames WordStart
  finite : e.AllNumbers (·.isFinite = true)

private theorem plain_link (k : Link) (l r : Expr) : (k.build l r).Plain ↔ l.Plain ∧ r.Plain := by
  constructor
  · rintro ⟨names, starts, finite⟩
    rw [allNames_link] at names starts
    rw [allNumbers_link] at finite
    exact ⟨⟨names.1, starts.1, finite.1⟩, ⟨names.2, starts.2, finite.2⟩⟩
  · rintro ⟨left, right⟩
    exact ⟨(allNames_link k l r).2 ⟨left.names, right.names⟩,
      (allNames_link k l r).2 ⟨left.starts, right.starts⟩,
      (allNumbers_link k l r).2 ⟨left.finite, right.finite⟩⟩

private theorem Plain.of_negate {e : Expr} (h : (Expr.negate e).Plain) : e.Plain :=
  ⟨h.names, h.starts, h.finite⟩

private theorem Plain.of_not {e : Expr} (h : (Expr.not e).Plain) : e.Plain :=
  ⟨h.names, h.starts, h.finite⟩

def Overlay (e e' : Expr) : Prop := ∃ u v, Ends u ∧ Ends v ∧ e.chars ++ u = e'.chars ++ v

private theorem Overlay.negate {e e' : Expr} (h : (Expr.negate e).Overlay (.negate e')) :
    e.Overlay e' := by
  obtain ⟨u, v, -, -, same⟩ := h
  rw [chars_negate, chars_negate] at same
  simp only [List.cons_append, List.append_assoc, List.cons.injEq, true_and, List.nil_append]
    at same
  exact ⟨_, _, ends_closing u, ends_closing v, same⟩

private theorem Overlay.not {e e' : Expr} (h : (Expr.not e).Overlay (.not e')) : e.Overlay e' := by
  obtain ⟨u, v, -, -, same⟩ := h
  rw [chars_not, chars_not] at same
  simp only [List.cons_append, List.append_assoc, List.cons.injEq, true_and, List.nil_append]
    at same
  exact ⟨_, _, ends_closing u, ends_closing v, same⟩

private theorem Overlay.link {k k' : Link} {l r l' r' : Expr} (plain : (k.build l r).Plain)
    (plain' : (k'.build l' r').Plain) (h : (k.build l r).Overlay (k'.build l' r')) :
    l.Overlay l' ∧ r.Overlay r' := by
  obtain ⟨u, v, -, -, same⟩ := h
  have left := ((plain_link k l r).1 plain).1
  have left' := ((plain_link k' l' r').1 plain').1
  rw [chars_link, chars_link] at same
  simp only [List.cons_append, List.append_assoc, List.cons.injEq, true_and, List.nil_append]
    at same
  have behind_l := (readable l left.names l' _ _ left'.names (ends_space _) (ends_space _) same).2
  obtain ⟨-, behind_word⟩ := bare_append_inj k.bare_word k'.bare_word (ends_space _)
    (ends_space _) (List.cons.inj behind_l).2
  exact ⟨⟨_, _, ends_space _, ends_space _, same⟩,
    ⟨_, _, ends_closing u, ends_closing v, (List.cons.inj behind_word).2⟩⟩

private theorem not_overlay_number_name {x : Float} {path : String} (number : (Expr.number x).Plain)
    (name : (Expr.name path).Plain) : ¬(Expr.number x).Overlay (.name path) := by
  rintro ⟨u, v, hu, hv, same⟩
  have texts := (bare_append_inj (bare_chars rfl number.names) (bare_chars rfl name.names) hu hv
    same).1
  exact Decimal.positional_ne_of_wordStart number.finite name.starts (String.toList_inj.1 texts)

private theorem Overlay.symm {e e' : Expr} (h : e.Overlay e') : e'.Overlay e := by
  obtain ⟨u, v, hu, hv, same⟩ := h
  exact ⟨v, u, hv, hu, same.symm⟩

private theorem Overlay.apart {e e' : Expr} (plain : e.Plain) (plain' : e'.Plain)
    (h : e.Overlay e') : e.apart e' = true := by
  have operands : ∀ (k k' : Link) {a b c d : Expr}, (k.build a b).Plain → (k'.build c d).Plain →
      (k.build a b).Overlay (k'.build c d) →
        (a.Plain → c.Plain → a.Overlay c → a.apart c = true) →
          (b.Plain → d.Plain → b.Overlay d → b.apart d = true) →
            (a.apart c && b.apart d) = true := by
    intro k k' a b c d plain plain' h left right
    obtain ⟨h_left, h_right⟩ := h.link plain plain'
    rw [plain_link] at plain plain'
    rw [left plain.1 plain'.1 h_left, right plain.2 plain'.2 h_right, Bool.and_self]
  fun_induction Expr.apart e e' with
  | case1 x path => exact absurd h (not_overlay_number_name plain plain')
  | case2 path x => exact absurd h.symm (not_overlay_number_name plain' plain)
  | case3 a b ih => exact ih plain.of_negate plain'.of_negate h.negate
  | case4 a b ih => exact ih plain.of_not plain'.of_not h.not
  | case5 a b c d ih_l ih_r => exact operands .and .and plain plain' h ih_l ih_r
  | case6 a b c d ih_l ih_r => exact operands .or .or plain plain' h ih_l ih_r
  | case7 op a b op' c d ih_l ih_r =>
      exact operands (.compare op) (.compare op') plain plain' h ih_l ih_r
  | case8 op a b op' c d ih_l ih_r =>
      exact operands (.arith op) (.arith op') plain plain' h ih_l ih_r
  | case9 => rfl

private theorem Plain.eq_of_canonical_eq {e e' : Expr} (plain : e.Plain) (plain' : e'.Plain)
    (same : e.canonical = e'.canonical) : e = e' := by
  have texts : e.chars ++ [] = e'.chars ++ [] := by rw [chars, chars, same]
  have separate := Overlay.apart plain plain' ⟨[], [], ends_nil, ends_nil, texts⟩
  exact (readable e plain.names e' [] [] plain'.names ends_nil ends_nil texts).1 separate

/-! What tokens have to be like for that. -/

private theorem Names.wordStart {path whole : String} {tokens : List Token}
    (h : Names path tokens whole) (start : WordStart path) : WordStart whole := by
  induction h with
  | done => exact start
  | segment segment span span' _ ih =>
      refine ih ?_
      rw [String.append_assoc]
      exact start.append (by simp)

private theorem Reads.wordStart {tokens : List Token} {e : Expr} (h : Reads tokens e)
    (names : Scan.NamesHave WordStart tokens) : e.AllNames WordStart := by
  refine h.allNames (T := fun token => token.kind.NameHas WordStart) names ?_
  intro word span spaced rest path all _ _ _ path_eq
  exact path_eq.wordStart (all _ List.mem_cons_self)

private theorem Reads.allNumbers {P : Float → Prop} {tokens : List Token} {e : Expr}
    (h : Reads tokens e) (all : ∀ token ∈ tokens, token.kind.NumberHas P) : e.AllNumbers P := by
  refine h.closed all ?_ ?_ ?_ ?_ ?_ ?_ ?_
  · exact fun value _ _ _ _ number => number
  · exact fun _ => trivial
  · exact fun _ => trivial
  · exact fun _ _ _ _ _ _ _ _ _ _ => trivial
  · exact fun _ operand => operand
  · exact fun _ operand => operand
  · exact fun k l r left right => (allNumbers_link k l r).2 ⟨left, right⟩

private theorem plain_of_ofTokens {tokens : List Token} (proper : ∀ token ∈ tokens, token.Proper)
    {e : Expr} (read : ofTokens tokens = .ok e) : e.Plain := by
  obtain ⟨_, -, _, -, derives⟩ := derives_of_ofTokens read
  have bare : Scan.NamesHave BareName tokens := fun token member =>
    (proper token member).nameHas Token.bare_of_scan
  have starts : Scan.NamesHave WordStart tokens := fun token member =>
    (proper token member).nameHas Token.wordStart_of_scan
  exact ⟨allNames_goodName (derives.reads.bare bare) derives.reads.unreserved,
    derives.reads.wordStart starts,
    derives.reads.allNumbers fun token member => (proper token member).finite⟩

/-- Expressions that are written without escapes and without infinite numbers have the same
canonical text only if they are the same. -/
theorem canonical_eq_iff {tokens tokens' : List Token} (proper : ∀ token ∈ tokens, token.Proper)
    (proper' : ∀ token ∈ tokens', token.Proper) {e e' : Expr} (read : ofTokens tokens = .ok e)
    (read' : ofTokens tokens' = .ok e') : e.canonical = e'.canonical ↔ e = e' :=
  ⟨(plain_of_ofTokens proper read).eq_of_canonical_eq (plain_of_ofTokens proper' read'),
    congrArg canonical⟩

private theorem proper_of_scan {source : String} {tokens : List Token}
    (unescaped : '\\' ∉ source.toList) (scanned : Token.scan source none = .ok tokens)
    (finite : ∀ token ∈ tokens, token.kind.NumberHas (·.isFinite = true)) :
    ∀ token ∈ tokens, token.Proper := fun token member =>
  ⟨⟨source, none, tokens, unescaped, scanned, token, member, rfl⟩, finite token member⟩

/-- Other spellings of operators, words and units have the same text, and so the same expression. -/
theorem canonical_eq_iff_spellings : ∃ tokens tokens' e e',
    Token.scan "- a.b < 2 or not c" none = .ok tokens ∧
      Token.scan "((- a.b) < 2px) OR NOT c" none = .ok tokens' ∧
        ofTokens tokens = .ok e ∧ ofTokens tokens' = .ok e' ∧
          (e.canonical = e'.canonical ↔ e = e') ∧ e = e' := by
  have facts : ((Token.scan "- a.b < 2 or not c" none).toOption.bind fun tokens =>
      (Token.scan "((- a.b) < 2px) OR NOT c" none).toOption.bind fun tokens' =>
        (ofTokens tokens).toOption.bind fun e => (ofTokens tokens').toOption.map fun e' =>
          (decide (∀ token ∈ tokens, token.kind.NumberHas (·.isFinite = true)),
            decide (∀ token ∈ tokens', token.kind.NumberHas (·.isFinite = true)),
              e.canonical == e'.canonical)) = some (true, true, true) := by
    decide +kernel
  obtain ⟨tokens, scanned, facts⟩ := Option.bind_eq_some_iff.1 facts
  obtain ⟨tokens', scanned', facts⟩ := Option.bind_eq_some_iff.1 facts
  obtain ⟨e, read, facts⟩ := Option.bind_eq_some_iff.1 facts
  obtain ⟨e', read', facts⟩ := Option.map_eq_some_iff.1 facts
  simp only [Prod.mk.injEq, decide_eq_true_eq, beq_iff_eq] at facts
  obtain ⟨finite, finite', texts⟩ := facts
  have scanned := eq_ok_of_toOption scanned
  have scanned' := eq_ok_of_toOption scanned'
  have same := canonical_eq_iff (proper_of_scan (by decide) scanned finite)
    (proper_of_scan (by decide) scanned' finite') (eq_ok_of_toOption read)
    (eq_ok_of_toOption read')
  exact ⟨tokens, tokens', e, e', scanned, scanned', eq_ok_of_toOption read,
    eq_ok_of_toOption read', same, same.1 texts⟩

-- Zero and its negative are different numbers, and they have different texts.
example : (Expr.number 0).canonical = "0" ∧ (Expr.number (-0)).canonical = "-0" := by
  decide +kernel

end Expr

end ViewStyle
