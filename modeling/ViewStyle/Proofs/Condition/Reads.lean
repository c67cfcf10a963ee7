/-
The grammar of conditions as a relation between tokens and expressions, without precedences and
limits.
-/

import ViewStyle.Condition.Basic

set_option autoImplicit false

namespace ViewStyle

open Text (Span)

namespace Expr

/-- A path that has been read up to some name, the tokens of the other names, and the whole path. -/
inductive Names : String → List Token → String → Prop
  | done (path : String) : Names path [] path
  | segment {path whole : String} {rest : List Token} (segment : String) (span span' : Span) :
      Names (path ++ "." ++ segment) rest whole →
        Names path (⟨.punct .dot, span, false⟩ :: ⟨.ident segment, span', false⟩ :: rest) whole

/-- The tokens between two operands, and how these are joined. Only the sign of a number on the right
joins without a token of its own. -/
inductive Joins : List Token → List Token → (Expr → Expr → Expr) → Prop
  | and {word : String} (right : List Token) (span : Span) (spaced : Bool) :
      Token.spells "and" word = true → Joins [⟨.ident word, span, spaced⟩] right .and
  | or {word : String} (right : List Token) (span : Span) (spaced : Bool) :
      Token.spells "or" word = true → Joins [⟨.ident word, span, spaced⟩] right .or
  | compare {op : Operator} {comparison : Comparison} (right : List Token) (span : Span)
      (spaced : Bool) : Comparison.ofOperator? op = some comparison →
        Joins [⟨.operator op, span, spaced⟩] right (.compare comparison)
  | arith {op : Operator} {arithmetic : Arithmetic} (right : List Token) (span : Span)
      (spaced : Bool) : Arithmetic.ofOperator? op = some arithmetic →
        Joins [⟨.operator op, span, spaced⟩] right (.arith arithmetic)
  | sign {source : String} (value : Float) (unit : Option String) (span : Span) (spaced : Bool)
      (rest : List Token) : isSigned source = true →
        Joins [] (⟨.number value unit source, span, spaced⟩ :: rest) (.arith .add)

/-- The tokens write the expression. -/
inductive Reads : List Token → Expr → Prop
  | number (value : Float) {unit : Option String} (source : String) (span : Span) (spaced : Bool) :
      unit ∈ [none, some "px", some "pt"] →
        Reads [⟨.number value unit source, span, spaced⟩] (.number value)
  | text (value : String) (span : Span) (spaced : Bool) :
      Reads [⟨.string value, span, spaced⟩] (.text value)
  | bool (value : Bool) {word : String} (span : Span) (spaced : Bool) :
      Token.spells (if value then "true" else "false") word = true →
        Reads [⟨.ident word, span, spaced⟩] (.bool value)
  | name {word path : String} {rest : List Token} (span : Span) (spaced : Bool) :
      isKeyword word = false → Token.spells "true" word = false →
        Token.spells "false" word = false → Names word rest path →
          Reads (⟨.ident word, span, spaced⟩ :: rest) (.name path)
  | brackets {tokens : List Token} {e : Expr} (span span' : Span) (spaced spaced' : Bool) :
      Reads tokens e →
        Reads (⟨.punct (.opening .round), span, spaced⟩ ::
          (tokens ++ [⟨.punct (.closing .round), span', spaced'⟩])) e
  | negate {tokens : List Token} {e : Expr} (span : Span) (spaced : Bool) :
      Reads tokens e → Reads (⟨.operator .minus, span, spaced⟩ :: tokens) (.negate e)
  | not {word : String} {tokens : List Token} {e : Expr} (span : Span) (spaced : Bool) :
      Token.spells "not" word = true → Reads tokens e →
        Reads (⟨.ident word, span, spaced⟩ :: tokens) (.not e)
  | join {left between right : List Token} {l r : Expr} {combine : Expr → Expr → Expr} :
      Reads left l → Joins between right combine → Reads right r →
        Reads (left ++ between ++ right) (combine l r)

theorem Reads.ne_nil {tokens : List Token} {e : Expr} (h : Reads tokens e) : tokens ≠ [] := by
  induction h with
  | join _ _ _ left _ => simp [left]
  | _ => simp

end Expr

end ViewStyle
