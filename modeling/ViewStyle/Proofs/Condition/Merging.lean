/-
When selectors may share a rule. Equal conditions have the same expression, and so the same value
everywhere, unless a name of one of them stands where the other one has a number, or has a space, a
bracket or a quote in it.
-/

import ViewStyle.Proofs.Condition.Canonical
import ViewStyle.Proofs.Condition.Precedence

set_option autoImplicit false

namespace ViewStyle

namespace Expr

private theorem Names.eq_or_dot_mem {path whole : String} {tokens : List Token}
    (h : Names path tokens whole) : whole = path ∨ '.' ∈ whole.toList := by
  induction h with
  | done => exact .inl rfl
  | segment segment span span' _ ih =>
      rcases ih with rfl | dot
      · refine .inr ?_
        simp
      · exact .inr dot

private theorem Names.bare {path whole : String} {tokens : List Token} (h : Names path tokens whole)
    (start : BareName path) (names : Scan.NamesHave BareName tokens) : BareName whole := by
  induction h with
  | done => exact start
  | @segment path whole rest segment span span' _ ih =>
      have last : BareName segment := names _ (List.mem_cons_of_mem _ List.mem_cons_self)
      refine ih ?_ fun token member =>
        names token (List.mem_cons_of_mem _ (List.mem_cons_of_mem _ member))
      intro c member
      rw [String.toList_append, String.toList_append, List.mem_append, List.mem_append] at member
      rcases member with (before | dot) | inside
      · exact start c before
      · rw [List.mem_singleton.1 dot]
        decide
      · exact last c inside

private theorem Joins.exists_link {between right : List Token} {combine : Expr → Expr → Expr}
    (h : Joins between right combine) : ∃ k : Link, combine = k.build := by
  cases h with
  | and => exact ⟨.and, rfl⟩
  | or => exact ⟨.or, rfl⟩
  | @compare _ comparison => exact ⟨.compare comparison, rfl⟩
  | @arith _ arithmetic => exact ⟨.arith arithmetic, rfl⟩
  | sign => exact ⟨.arith .add, rfl⟩

theorem Reads.closed {Q : Expr → Prop} {T : Token → Prop} {tokens : List Token} {e : Expr}
    (h : Reads tokens e) (all : ∀ token ∈ tokens, T token)
    (number : ∀ value unit source span spaced,
      T ⟨.number value unit source, span, spaced⟩ → Q (.number value))
    (text : ∀ value, Q (.text value)) (bool : ∀ value, Q (.bool value))
    (name : ∀ word span spaced rest path,
      (∀ token ∈ (⟨.ident word, span, spaced⟩ :: rest : List Token), T token) →
        isKeyword word = false → Token.spells "true" word = false →
          Token.spells "false" word = false → Names word rest path → Q (.name path))
    (negate : ∀ e, Q e → Q (.negate e)) (not : ∀ e, Q e → Q (.not e))
    (link : ∀ (k : Link) l r, Q l → Q r → Q (k.build l r)) : Q e := by
  induction h with
  | number value source span spaced =>
      exact number value _ source span spaced (all _ List.mem_cons_self)
  | text value => exact text value
  | bool value => exact bool value
  | name span spaced keyword not_true not_false names =>
      exact name _ span spaced _ _ all keyword not_true not_false names
  | brackets _ _ _ _ _ ih =>
      exact ih fun token member =>
        all token (List.mem_cons_of_mem _ (List.mem_append_left _ member))
  | negate _ _ _ ih =>
      exact negate _ (ih fun token member => all token (List.mem_cons_of_mem _ member))
  | not _ _ _ _ ih =>
      exact not _ (ih fun token member => all token (List.mem_cons_of_mem _ member))
  | join _ joins _ ih_l ih_r =>
      have left := ih_l fun token member =>
        all token (List.mem_append_left _ (List.mem_append_left _ member))
      have right := ih_r fun token member => all token (List.mem_append_right _ member)
      obtain ⟨k, rfl⟩ := joins.exists_link
      exact link k _ _ left right

theorem Reads.allNames {P : String → Prop} {T : Token → Prop} {tokens : List Token} {e : Expr}
    (h : Reads tokens e) (all : ∀ token ∈ tokens, T token)
    (name : ∀ word span spaced rest path,
      (∀ token ∈ (⟨.ident word, span, spaced⟩ :: rest : List Token), T token) →
        isKeyword word = false → Token.spells "true" word = false →
          Token.spells "false" word = false → Names word rest path → P path) : e.AllNames P := by
  refine h.closed all ?_ ?_ ?_ name ?_ ?_ ?_
  · exact fun _ _ _ _ _ _ => trivial
  · exact fun _ => trivial
  · exact fun _ => trivial
  · exact fun _ operand => operand
  · exact fun _ operand => operand
  · exact fun k l r left right => (allNames_link k l r).2 ⟨left, right⟩

theorem Reads.unreserved {tokens : List Token} {e : Expr} (h : Reads tokens e) :
    e.AllNames Unreserved := by
  refine h.allNames (T := fun _ => True) (fun _ _ => trivial) ?_
  intro word span spaced rest path _ keyword not_true not_false names
  rcases names.eq_or_dot_mem with rfl | dot
  · refine ⟨?_, ?_, ?_⟩
    · rintro rfl
      exact absurd not_true (by decide +kernel)
    · rintro rfl
      exact absurd not_false (by decide +kernel)
    · rintro rfl
      exact absurd keyword (by decide +kernel)
  · refine ⟨?_, ?_, ?_⟩ <;> (rintro rfl; exact absurd dot (by decide))

theorem Reads.bare {tokens : List Token} {e : Expr} (h : Reads tokens e)
    (names : Scan.NamesHave BareName tokens) : e.AllNames BareName := by
  refine h.allNames (T := fun token => token.kind.NameHas BareName) names ?_
  intro word span spaced rest path all _ _ _ path_eq
  exact path_eq.bare (all _ List.mem_cons_self) fun token member =>
    all token (List.mem_cons_of_mem _ member)

end Expr

namespace Condition

/-- The condition that a source text writes, if it writes one. -/
def ofText? (source : String) : Option Condition :=
  (Token.scan source none).toOption.bind fun tokens => (ofTokens tokens).toOption

private theorem ofText?_eq_some {source : String} {c : Condition} (h : ofText? source = some c) :
    ∃ tokens, Token.scan source none = .ok tokens ∧ Expr.Reads tokens c.expr := by
  obtain ⟨tokens, scanned, h⟩ := Option.bind_eq_some_iff.1 h
  exact ⟨tokens, eq_ok_of_toOption scanned, reads_of_ofTokens (eq_ok_of_toOption h)⟩

private theorem bare_of_ofText? {source : String} {c : Condition} (h : ofText? source = some c)
    (unescaped : '\\' ∉ source.toList) : c.expr.AllNames BareName := by
  obtain ⟨tokens, scanned, reads⟩ := ofText?_eq_some h
  exact reads.bare (Token.bare_of_scan unescaped scanned)

private theorem clear_of_unescaped {source source' : String} {c d : Condition}
    (read : ofText? source = some c) (read' : ofText? source' = some d)
    (unescaped : '\\' ∉ source.toList) (unescaped' : '\\' ∉ source'.toList)
    (separate : c.expr.apart d.expr = true) : c.expr.Clear d.expr :=
  .bare (bare_of_ofText? read unescaped) (bare_of_ofText? read' unescaped') separate

/-- Two conditions have the same expression if and only if they are equal and clear of one another;
so they have the same value in all contexts. -/
theorem expr_eq_iff {source source' : String} {c d : Condition} (read : ofText? source = some c)
    (read' : ofText? source' = some d) :
    ((c == d) = true ∧ c.expr.Clear d.expr ↔ c.expr = d.expr) ∧
      ((c == d) = true → c.expr.Clear d.expr →
        ∀ context, c.evaluate context = d.evaluate context) := by
  obtain ⟨tokens, -, reads⟩ := ofText?_eq_some read
  obtain ⟨tokens', -, reads'⟩ := ofText?_eq_some read'
  have expr_eq : (c == d) = true → c.expr.Clear d.expr → c.expr = d.expr := by
    intro same clear
    have texts : c.canonical = d.canonical := eq_of_beq same
    rw [c.canonical_eq, d.canonical_eq] at texts
    exact Expr.eq_of_canonical_eq reads.unreserved reads'.unreserved clear texts
  refine ⟨⟨fun both => expr_eq both.1 both.2, fun same => ⟨?_, ?_⟩⟩, ?_⟩
  · show (c.canonical == d.canonical) = true
    rw [c.canonical_eq, d.canonical_eq, same]
    exact beq_self_eq_true _
  · rw [same]
    exact Expr.clear_self d.expr
  · intro same clear context
    rw [evaluate, evaluate, expr_eq same clear]

/-- Words of any case, other operators and more brackets write the same condition. -/
theorem expr_eq_iff_spellings : ∃ c d : Condition,
    ofText? "not a.b = 1 and width <= 2" = some c ∧
      ofText? "((NOT (a.b == 1.0)) AND width <= 2px)" = some d ∧
        ((c == d) = true ∧ c.expr.Clear d.expr ↔ c.expr = d.expr) ∧
          ∀ context, c.evaluate context = d.evaluate context := by
  obtain ⟨c, read⟩ : ∃ c, ofText? "not a.b = 1 and width <= 2" = some c :=
    Option.isSome_iff_exists.1 (by decide +kernel)
  obtain ⟨d, read'⟩ : ∃ d, ofText? "((NOT (a.b == 1.0)) AND width <= 2px)" = some d :=
    Option.isSome_iff_exists.1 (by decide +kernel)
  have facts : ((ofText? "not a.b = 1 and width <= 2").bind fun c =>
      (ofText? "((NOT (a.b == 1.0)) AND width <= 2px)").map fun d =>
        (c == d, c.expr.apart d.expr)) = some (true, true) := by
    decide +kernel
  rw [read, read', Option.bind_some, Option.map_some, Option.some.injEq, Prod.mk.injEq] at facts
  have clear := clear_of_unescaped read read' (by decide) (by decide) facts.2
  have both := expr_eq_iff read read'
  exact ⟨c, d, read, read', both.1, both.2 facts.1 clear⟩

/-- An infinite number and the name with the text of that number make different conditions equal. -/
theorem equal_with_other_value : ∃ (c d : Condition) (context : Context),
    ofText? "width < inf" = some c ∧ ofText? "width < 1e999" = some d ∧ (c == d) = true ∧
      c.evaluate context ≠ d.evaluate context := by
  obtain ⟨c, read⟩ : ∃ c, ofText? "width < inf" = some c :=
    Option.isSome_iff_exists.1 (by decide +kernel)
  obtain ⟨d, read'⟩ : ∃ d, ofText? "width < 1e999" = some d :=
    Option.isSome_iff_exists.1 (by decide +kernel)
  have facts : ((ofText? "width < inf").bind fun c => (ofText? "width < 1e999").map fun d =>
      (c == d, (c.evaluate ⟨"A", none, {}⟩).toOption, (d.evaluate ⟨"A", none, {}⟩).toOption)) =
        some (true, none, some true) := by
    decide +kernel
  rw [read, read', Option.bind_some, Option.map_some, Option.some.injEq, Prod.mk.injEq,
    Prod.mk.injEq] at facts
  refine ⟨c, d, ⟨"A", none, {}⟩, read, read', facts.1, fun same => ?_⟩
  rw [same, facts.2.2] at facts
  exact absurd facts.2.1 (by decide)

end Condition

end ViewStyle
