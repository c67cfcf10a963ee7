/-
The grammar of conditions with its precedences, from the loosest operator to the tightest one. A
derivation counts its operators, and how deep brackets and operators in front of an operand nest.
The token behind an expression tells whether it goes on: it does if a link of its own layer or of a
tighter one starts there.
-/

import ViewStyle.Proofs.Condition.Reads

set_option autoImplicit false

namespace ViewStyle

open Text (Span)

namespace Expr

/-- The layers of the grammar, from loose to tight. -/
inductive Layer
  | disjunction
  | conjunction
  | inversion
  | relation
  | sum
  | product
  | signed
  | primary

namespace Layer

def tighter? : Layer → Option Layer
  | disjunction => some conjunction
  | conjunction => some inversion
  | inversion => some relation
  | relation => some sum
  | sum => some product
  | product => some signed
  | signed => some primary
  | primary => none

def rank : Layer → Nat
  | disjunction => 0
  | conjunction => 1
  | inversion => 2
  | relation => 3
  | sum => 4
  | product => 5
  | signed => 6
  | primary => 7

def associates : Layer → Bool
  | disjunction => true
  | conjunction => true
  | sum => true
  | product => true
  | _ => false

private theorem rank_of_tighter? {layer next : Layer} (h : layer.tighter? = some next) :
    next.rank = layer.rank + 1 := by
  cases layer <;> cases h <;> rfl

end Layer

/-- The tokens between two operands of a layer, and how these are joined. Only the sign of a number
on the right joins without a token of its own. -/
inductive Links : Layer → List Token → List Token → (Expr → Expr → Expr) → Prop
  | or {word : String} (right : List Token) (span : Span) (spaced : Bool) :
      Token.spells "or" word = true → Links .disjunction [⟨.ident word, span, spaced⟩] right .or
  | and {word : String} (right : List Token) (span : Span) (spaced : Bool) :
      Token.spells "and" word = true → Links .conjunction [⟨.ident word, span, spaced⟩] right .and
  | term {op : Operator} {arithmetic : Arithmetic} (right : List Token) (span : Span)
      (spaced : Bool) : Arithmetic.ofOperator? op = some arithmetic → arithmetic.isProduct = false →
        Links .sum [⟨.operator op, span, spaced⟩] right (.arith arithmetic)
  | sign {source : String} (value : Float) (unit : Option String) (span : Span) (spaced : Bool)
      (rest : List Token) : isSigned source = true →
        Links .sum [] (⟨.number value unit source, span, spaced⟩ :: rest) (.arith .add)
  | factor {op : Operator} {arithmetic : Arithmetic} (right : List Token) (span : Span)
      (spaced : Bool) : Arithmetic.ofOperator? op = some arithmetic → arithmetic.isProduct = true →
        Links .product [⟨.operator op, span, spaced⟩] right (.arith arithmetic)

/-- The tokens write the expression in a layer, with a number of operators and a depth of nesting. -/
inductive Derives : Layer → List Token → Expr → Nat → Nat → Prop
  | number (value : Float) {unit : Option String} (source : String) (span : Span) (spaced : Bool) :
      unit ∈ [none, some "px", some "pt"] →
        Derives .primary [⟨.number value unit source, span, spaced⟩] (.number value) 0 0
  | text (value : String) (span : Span) (spaced : Bool) :
      Derives .primary [⟨.string value, span, spaced⟩] (.text value) 0 0
  | bool (value : Bool) {word : String} (span : Span) (spaced : Bool) :
      Token.spells (if value then "true" else "false") word = true →
        Derives .primary [⟨.ident word, span, spaced⟩] (.bool value) 0 0
  | name {word path : String} {rest : List Token} (span : Span) (spaced : Bool) :
      isKeyword word = false → Token.spells "true" word = false →
        Token.spells "false" word = false → Names word rest path →
          Derives .primary (⟨.ident word, span, spaced⟩ :: rest) (.name path) 0 0
  | brackets {tokens : List Token} {e : Expr} {operators nesting : Nat} (span span' : Span)
      (spaced spaced' : Bool) : Derives .disjunction tokens e operators nesting →
        Derives .primary (⟨.punct (.opening .round), span, spaced⟩ ::
          (tokens ++ [⟨.punct (.closing .round), span', spaced'⟩])) e operators (nesting + 1)
  | negate {tokens : List Token} {e : Expr} {operators nesting : Nat} (span : Span)
      (spaced : Bool) : Derives .signed tokens e operators nesting →
        Derives .signed (⟨.operator .minus, span, spaced⟩ :: tokens) (.negate e) (operators + 1)
          (nesting + 1)
  | not {word : String} {tokens : List Token} {e : Expr} {operators nesting : Nat} (span : Span)
      (spaced : Bool) : Token.spells "not" word = true →
        Derives .inversion tokens e operators nesting →
          Derives .inversion (⟨.ident word, span, spaced⟩ :: tokens) (.not e) (operators + 1)
            (nesting + 1)
  | compare {op : Operator} {comparison : Comparison} {left right : List Token} {l r : Expr}
      {m n h k : Nat} (span : Span) (spaced : Bool) : Derives .sum left l m h →
        Comparison.ofOperator? op = some comparison → Derives .sum right r n k →
          Derives .relation (left ++ ⟨.operator op, span, spaced⟩ :: right)
            (.compare comparison l r) (m + n + 1) (max h k)
  | link {layer next : Layer} {left between right : List Token} {l r : Expr}
      {combine : Expr → Expr → Expr} {m n h k : Nat} : layer.tighter? = some next →
        Derives layer left l m h → Links layer between right combine → Derives next right r n k →
          Derives layer (left ++ between ++ right) (combine l r) (m + n + 1) (max h k)
  | tighter {layer next : Layer} {tokens : List Token} {e : Expr} {operators nesting : Nat} :
      layer.tighter? = some next → Derives next tokens e operators nesting →
        Derives layer tokens e operators nesting

private theorem Links.joins {layer : Layer} {between right : List Token}
    {combine : Expr → Expr → Expr} (h : Links layer between right combine) :
    Joins between right combine := by
  cases h with
  | or _ _ _ spells => exact .or _ _ _ spells
  | and _ _ _ spells => exact .and _ _ _ spells
  | term _ _ _ known _ => exact .arith _ _ _ known
  | sign _ _ _ _ _ signed => exact .sign _ _ _ _ _ signed
  | factor _ _ _ known _ => exact .arith _ _ _ known

theorem Derives.reads {layer : Layer} {tokens : List Token} {e : Expr} {operators nesting : Nat}
    (h : Derives layer tokens e operators nesting) : Reads tokens e := by
  induction h with
  | number value source span spaced unit => exact .number value source span spaced unit
  | text value span spaced => exact .text value span spaced
  | bool value span spaced spells => exact .bool value span spaced spells
  | name span spaced word not_true not_false names =>
      exact .name span spaced word not_true not_false names
  | brackets span span' spaced spaced' _ ih => exact .brackets span span' spaced spaced' ih
  | negate span spaced _ ih => exact .negate span spaced ih
  | not span spaced spells _ ih => exact .not span spaced spells ih
  | compare span spaced _ known _ ih_left ih_right =>
      have reads := ih_left.join (.compare _ span spaced known) ih_right
      simpa using reads
  | link _ _ links _ ih_left ih_right => exact ih_left.join links.joins ih_right
  | tighter _ _ ih => exact ih

theorem Derives.atWord_not {layer : Layer} {tokens : List Token} {e : Expr}
    {operators nesting : Nat} (h : Derives layer tokens e operators nesting)
    (tight : Layer.inversion.rank < layer.rank) (later : List Token) :
    atWord "not" (tokens ++ later) = false := by
  induction h generalizing later with
  | number => rfl
  | text => rfl
  | @bool value word span spaced spells =>
      -- A word spells one of two words only.
      have other : word.toLower = if value then "true" else "false" := by
        simpa [Token.spells] using spells
      cases value <;> simp [atWord, Token.spells, other]
  | name _ _ word =>
      unfold isKeyword at word
      simp only [Bool.or_eq_false_iff] at word
      exact word.2
  | brackets => rfl
  | negate => rfl
  | not => exact absurd tight (Nat.lt_irrefl _)
  | compare _ _ _ _ _ ih_left _ =>
      rw [List.append_assoc]
      exact ih_left (by decide) _
  | link _ _ _ _ ih_left _ =>
      rw [List.append_assoc, List.append_assoc]
      exact ih_left tight _
  | tighter next _ ih => exact ih (by rw [Layer.rank_of_tighter? next]; omega) later

/-- The tokens write the expression in a layer, with a number of operators, and need no more nesting
than there is room for. -/
def Within (room : Nat) (layer : Layer) (tokens : List Token) (e : Expr) (operators : Nat) : Prop :=
  ∃ nesting ≤ room, Derives layer tokens e operators nesting

theorem Within.ne_nil {room : Nat} {layer : Layer} {tokens : List Token} {e : Expr}
    {operators : Nat} (h : Within room layer tokens e operators) : tokens ≠ [] := by
  obtain ⟨nesting, -, derives⟩ := h
  exact derives.reads.ne_nil

theorem Within.tighter {room : Nat} {layer next : Layer} {tokens : List Token} {e : Expr}
    {operators : Nat} (eq : layer.tighter? = some next) (h : Within room next tokens e operators) :
    Within room layer tokens e operators := by
  obtain ⟨nesting, le, derives⟩ := h
  exact ⟨nesting, le, .tighter eq derives⟩

theorem Within.link {room : Nat} {layer next : Layer} {left between right : List Token}
    {l r : Expr} {combine : Expr → Expr → Expr} {m n : Nat} (eq : layer.tighter? = some next)
    (before : Within room layer left l m) (links : Links layer between right combine)
    (after : Within room next right r n) :
    Within room layer (left ++ between ++ right) (combine l r) (m + n + 1) := by
  obtain ⟨h, le, derives⟩ := before
  obtain ⟨k, le', derives'⟩ := after
  exact ⟨max h k, Nat.max_le.2 ⟨le, le'⟩, .link eq derives links derives'⟩

/-- A layer that combines from the left has one operand of the next layer, or one more than some
expression of its own. -/
theorem Within.link_induction {room : Nat} {layer next : Layer} (eq : layer.tighter? = some next)
    (assoc : layer.associates = true)
    {motive : (tokens : List Token) → (e : Expr) → (n : Nat) → Within room layer tokens e n → Prop}
    (one : ∀ tokens e n (operand : Within room next tokens e n),
      motive tokens e n (operand.tighter eq))
    (more : ∀ left between right l r combine m n (before : Within room layer left l m)
      (links : Links layer between right combine) (after : Within room next right r n),
        motive left l m before → motive (left ++ between ++ right) (combine l r) (m + n + 1)
          (before.link eq links after))
    {tokens : List Token} {e : Expr} {n : Nat} (h : Within room layer tokens e n) :
    motive tokens e n h := by
  obtain ⟨nesting, le, derives⟩ := h
  induction derives with
  | number => cases assoc
  | text => cases assoc
  | bool => cases assoc
  | name => cases assoc
  | brackets => cases assoc
  | negate => cases assoc
  | not => cases assoc
  | compare => cases assoc
  | link eq' left links right ih_left _ =>
      obtain ⟨le_left, le_right⟩ := Nat.max_le.1 le
      cases eq.symm.trans eq'
      exact more _ _ _ _ _ _ _ _ ⟨_, le_left, left⟩ links ⟨_, le_right, right⟩
        (ih_left eq assoc one more le_left)
  | tighter eq' derives _ =>
      cases eq.symm.trans eq'
      exact one _ _ _ ⟨_, le, derives⟩

def linkLayer? : Token.Kind → Option Layer
  | .ident word =>
      if Token.spells "or" word then some .disjunction
      else if Token.spells "and" word then some .conjunction
      else none
  | .operator op =>
      if (Comparison.ofOperator? op).isSome then some .relation
      else (Arithmetic.ofOperator? op).map fun arithmetic =>
        if arithmetic.isProduct then .product else .sum
  | .number _ _ source => if isSigned source then some .sum else none
  | .punct .dot => some .primary
  | _ => none

def Stops (layer : Layer) (tokens : List Token) : Prop :=
  ∀ token ∈ tokens.head?, ∀ link, linkLayer? token.kind = some link → link.rank < layer.rank

theorem stops_nil (layer : Layer) : Stops layer [] := by
  intro token member
  cases member

theorem stops_closing (layer : Layer) (span : Span) (spaced : Bool) (rest : List Token) :
    Stops layer (⟨.punct (.closing .round), span, spaced⟩ :: rest) := by
  intro token member link eq
  cases member
  cases eq

theorem Stops.tighter {layer next : Layer} {tokens : List Token} (h : Stops layer tokens)
    (eq : layer.tighter? = some next) : Stops next tokens := by
  intro token member link link_eq
  have lt := h token member link link_eq
  rw [Layer.rank_of_tighter? eq]
  omega

theorem Stops.linkLayer?_ne {layer : Layer} {token : Token} {rest : List Token}
    (h : Stops layer (token :: rest)) : linkLayer? token.kind ≠ some layer := by
  intro eq
  exact Nat.lt_irrefl _ (h token rfl layer eq)

private theorem linkLayer?_term {op : Operator} {arithmetic : Arithmetic}
    (h : Arithmetic.ofOperator? op = some arithmetic) :
    linkLayer? (.operator op) = some (if arithmetic.isProduct then .product else .sum) := by
  cases op <;> cases h <;> rfl

theorem linkLayer?_comparison {op : Operator} {comparison : Comparison}
    (h : Comparison.ofOperator? op = some comparison) :
    linkLayer? (.operator op) = some .relation := by
  simp [linkLayer?, h]

theorem linkLayer?_or {word : String} (h : Token.spells "or" word = true) :
    linkLayer? (.ident word) = some .disjunction := by
  simp [linkLayer?, h]

theorem linkLayer?_and {word : String} (h : Token.spells "and" word = true) :
    linkLayer? (.ident word) = some .conjunction := by
  have other : Token.spells "or" word = false := by
    simp only [Token.spells, beq_iff_eq] at h
    simp [Token.spells, h]
  simp [linkLayer?, h, other]

theorem linkLayer?_sign {source : String} (h : isSigned source = true) (value : Float)
    (unit : Option String) : linkLayer? (.number value unit source) = some .sum := by
  simp [linkLayer?, h]

theorem Links.stops {layer next : Layer} {between right : List Token}
    {combine : Expr → Expr → Expr} (h : Links layer between right combine)
    (eq : layer.tighter? = some next) (later : List Token) :
    Stops next (between ++ (right ++ later)) := by
  have first : ∃ token rest, between ++ (right ++ later) = token :: rest ∧
      linkLayer? token.kind = some layer := by
    cases h with
    | or _ span spaced spells => exact ⟨_, _, rfl, linkLayer?_or spells⟩
    | and _ span spaced spells => exact ⟨_, _, rfl, linkLayer?_and spells⟩
    | term _ span spaced known sum => exact ⟨_, _, rfl, by rw [linkLayer?_term known, sum]; rfl⟩
    | sign value unit span spaced rest signed =>
        exact ⟨_, _, rfl, linkLayer?_sign signed value unit⟩
    | factor _ span spaced known product =>
        exact ⟨_, _, rfl, by rw [linkLayer?_term known, product]; rfl⟩
  obtain ⟨token, rest, tokens, link⟩ := first
  intro other member layer' link'
  rw [tokens] at member
  cases member
  cases link.symm.trans link'
  rw [Layer.rank_of_tighter? eq]
  exact Nat.lt_succ_self _

end Expr

end ViewStyle
