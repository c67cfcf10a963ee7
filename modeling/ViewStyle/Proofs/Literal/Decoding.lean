/-
Which tokens write a literal. A string, a boolean, a number of points, the digits of a color and a
call with three or four numbers do; anything else is a text, except that one comma may follow the
last number of a call.
-/

import ViewStyle.Except
import ViewStyle.Proofs.Literal.Colors
import ViewStyle.Token.Scan

set_option autoImplicit false

namespace ViewStyle.Literal

inductive Separated : List Token → List Float → Prop
  | one (value : Float) (source : String) (span : Text.Span) (spaced : Bool) :
      Separated [⟨.number value none source, span, spaced⟩] [value]
  | more (value : Float) (source : String) (span span' : Text.Span) (spaced spaced' : Bool)
      {rest : List Token} {values : List Float} : Separated rest values →
      Separated (⟨.number value none source, span, spaced⟩ :: ⟨.punct .comma, span', spaced'⟩ :: rest)
        (value :: values)

inductive Channels : List Float → Color → Prop
  | three {r g b : Float} {c : Color} : IsChannel c.red (.ofFloat r) →
      IsChannel c.green (.ofFloat g) → IsChannel c.blue (.ofFloat b) → c.alpha = 255 →
      Channels [r, g, b] c
  | four {r g b a : Float} {c : Color} : IsChannel c.red (.ofFloat r) →
      IsChannel c.green (.ofFloat g) → IsChannel c.blue (.ofFloat b) →
      IsChannel c.alpha (.ofFloat (clampToUnit a * 255)) → Channels [r, g, b, a] c

/-- A call of `rgb` or `rgba`, in any case of the letters, with some tokens between its last number
and its closing bracket. -/
inductive Call (behind : List Token) : List Token → Color → Prop
  | intro {name : String} {arguments : List Token} {numbers : List Float} {c : Color}
      (span span' : Text.Span) (spaced spaced' : Bool) :
      Token.spells "rgb" name = true ∨ Token.spells "rgba" name = true →
      Separated arguments numbers → Channels numbers c →
      Call behind (⟨.function name, span, spaced⟩ ::
        (arguments ++ behind ++ [⟨.punct (.closing .round), span', spaced'⟩])) c

/-- The forms in which a literal is written. -/
inductive Form : List Token → Literal → Prop
  | string (value : String) (span : Text.Span) (spaced : Bool) :
      Form [⟨.string value, span, spaced⟩] (.text value)
  | yes (span : Text.Span) (spaced : Bool) : Form [⟨.ident "true", span, spaced⟩] (.bool true)
  | no (span : Text.Span) (spaced : Bool) : Form [⟨.ident "false", span, spaced⟩] (.bool false)
  | number (value : Float) {unit : Option String} (source : String) (span : Text.Span)
      (spaced : Bool) : unit = none ∨ unit = some "px" ∨ unit = some "pt" →
      Form [⟨.number value unit source, span, spaced⟩] (.number value)
  | hash {digits : String} {c : Color} (span : Text.Span) (spaced : Bool) :
      Color.Digits digits.toList c → Form [⟨.hash digits, span, spaced⟩] (.color c)
  | call {tokens : List Token} {c : Color} : Call [] tokens c → Form tokens (.color c)

/-- A call with a comma behind its last number. -/
def CommaCall (tokens : List Token) (c : Color) : Prop :=
  ∃ comma, comma.kind = .punct .comma ∧ Call [comma] tokens c

private theorem callNumbers?_separated {tokens : List Token} {numbers : List Float}
    (h : Separated tokens numbers) : callNumbers? tokens = some numbers ∧
      ∀ comma : Token, comma.kind = .punct .comma →
        callNumbers? (tokens ++ [comma]) = some numbers := by
  induction h with
  | one value source span spaced =>
      refine ⟨rfl, fun comma kind => ?_⟩
      obtain ⟨kind', span', spaced'⟩ := comma
      cases kind
      rfl
  | more value source span span' spaced spaced' _ ih =>
      refine ⟨?_, fun comma kind => ?_⟩
      · rw [callNumbers?, ih.1]
        rfl
      · rw [List.cons_append, List.cons_append, callNumbers?, ih.2 comma kind]
        rfl

private theorem separated_of_callNumbers? {tokens : List Token} {numbers : List Float}
    (h : callNumbers? tokens = some numbers) : tokens = [] ∧ numbers = [] ∨ Separated tokens numbers ∨
      ∃ front comma, tokens = front ++ [comma] ∧ comma.kind = .punct .comma ∧
        Separated front numbers := by
  induction tokens using callNumbers?.induct generalizing numbers with
  | case1 =>
      cases h
      exact .inl ⟨rfl, rfl⟩
  | case2 value source span spaced =>
      cases h
      exact .inr (.inl (.one value source span spaced))
  | case3 value source span spaced span' spaced' rest ih =>
      obtain ⟨values, found, rfl⟩ := Option.map_eq_some_iff.1 h
      rcases ih found with ⟨rfl, rfl⟩ | here | ⟨front, comma, rfl, kind, here⟩
      · exact .inr (.inr ⟨_, _, rfl, rfl, .one value source span spaced⟩)
      · exact .inr (.inl (.more value source span span' spaced spaced' here))
      · exact .inr (.inr ⟨_, comma, rfl, kind, .more value source span span' spaced spaced' here⟩)
  | case4 tokens not_nil not_one not_comma =>
      rw [callNumbers?.eq_4 _ not_nil not_one not_comma] at h
      cases h

private theorem callColor?_eq_some_iff {arguments : List Token} {numbers : List Float} {c : Color}
    (h : callNumbers? arguments = some numbers) :
    callColor? arguments = some c ↔ Channels numbers c := by
  unfold callColor?
  rw [h]
  constructor
  · intro found
    split at found
    · rename_i same
      cases same
      cases found
      exact .three (isChannel_iff.2 rfl) (isChannel_iff.2 rfl) (isChannel_iff.2 rfl) rfl
    · rename_i same
      cases same
      cases found
      exact .four (isChannel_iff.2 rfl) (isChannel_iff.2 rfl) (isChannel_iff.2 rfl)
        (isChannel_iff.2 rfl)
    · cases found
  · intro channels
    obtain ⟨red, green, blue, alpha⟩ := c
    cases channels with
    | three red green blue alpha =>
        cases isChannel_iff.1 red
        cases isChannel_iff.1 green
        cases isChannel_iff.1 blue
        cases alpha
        rfl
    | four red green blue alpha =>
        cases isChannel_iff.1 red
        cases isChannel_iff.1 green
        cases isChannel_iff.1 blue
        cases isChannel_iff.1 alpha
        rfl

private theorem argumentsOf?_concat (arguments : List Token) (span : Text.Span) (spaced : Bool) :
    argumentsOf? (arguments ++ [⟨.punct (.closing .round), span, spaced⟩]) = some arguments := by
  simp [argumentsOf?]

private theorem exists_of_argumentsOf? {tokens arguments : List Token}
    (h : argumentsOf? tokens = some arguments) : ∃ span spaced,
      tokens = arguments ++ [⟨.punct (.closing .round), span, spaced⟩] := by
  unfold argumentsOf? at h
  split at h
  · rename_i span spaced last
    cases h
    exact ⟨span, spaced, (List.dropLast_append_getLast? _ last).symm⟩
  · cases h

private theorem colorOfCall?_of_separated {name : String}
    (spelled : Token.spells "rgb" name = true ∨ Token.spells "rgba" name = true)
    {arguments : List Token} {numbers : List Float} (separated : Separated arguments numbers)
    {c : Color} (channels : Channels numbers c) {behind : List Token}
    (comma : behind = [] ∨ ∃ comma : Token, comma.kind = .punct .comma ∧ behind = [comma])
    (span : Text.Span) (spaced : Bool) :
    colorOfCall? name (arguments ++ behind ++ [⟨.punct (.closing .round), span, spaced⟩]) =
      some c := by
  obtain ⟨plain, with_comma⟩ := callNumbers?_separated separated
  have numbers_eq : callNumbers? (arguments ++ behind) = some numbers := by
    rcases comma with rfl | ⟨comma, kind, rfl⟩
    · rwa [List.append_nil]
    · exact with_comma comma kind
  rw [colorOfCall?, if_pos (Bool.or_eq_true_iff.2 spelled), argumentsOf?_concat]
  exact (callColor?_eq_some_iff numbers_eq).2 channels

private theorem call_of_colorOfCall? {name : String} {rest : List Token} {c : Color}
    (h : colorOfCall? name rest = some c) (span : Text.Span) (spaced : Bool) :
    Call [] (⟨.function name, span, spaced⟩ :: rest) c ∨
      CommaCall (⟨.function name, span, spaced⟩ :: rest) c := by
  unfold colorOfCall? at h
  split at h
  · rename_i spelled
    replace spelled := Bool.or_eq_true_iff.1 spelled
    obtain ⟨arguments, closed, color⟩ := Option.bind_eq_some_iff.1 h
    obtain ⟨span', spaced', rfl⟩ := exists_of_argumentsOf? closed
    cases found : callNumbers? arguments with
    | none =>
        rw [callColor?, found] at color
        cases color
    | some numbers =>
        have channels := (callColor?_eq_some_iff found).1 color
        rcases separated_of_callNumbers? found with ⟨-, rfl⟩ | here | ⟨front, comma, rfl, kind, here⟩
        · cases channels
        · refine .inl ?_
          rw [← List.append_nil arguments]
          exact .intro span span' spaced spaced' spelled here channels
        · exact .inr ⟨comma, kind, .intro span span' spaced spaced' spelled here channels⟩
  · cases h

private theorem ofTokens_of_form {tokens : List Token} {l : Literal}
    (h : Form tokens l ∨ ∃ c, CommaCall tokens c ∧ l = .color c) : ofTokens tokens = l := by
  rcases h with form | ⟨c, ⟨comma, kind, call⟩, rfl⟩
  · cases form with
    | string value span spaced => rfl
    | yes span spaced => rfl
    | no span spaced => rfl
    | number value source span spaced unit =>
        rcases unit with rfl | rfl | rfl <;> rfl
    | hash span spaced digits =>
        rw [ofTokens, Color.ofHex?_eq_some_iff.2 digits]
        rfl
    | call call =>
        obtain ⟨span, span', spaced, spaced', spelled, separated, channels⟩ := call
        rw [ofTokens, colorOfCall?_of_separated spelled separated channels (.inl rfl)]
        rfl
  · obtain ⟨span, span', spaced, spaced', spelled, separated, channels⟩ := call
    rw [ofTokens, colorOfCall?_of_separated spelled separated channels (.inr ⟨comma, kind, rfl⟩)]
    rfl

private theorem isPoints_iff {unit : Option String} :
    isPoints unit = true ↔ unit = none ∨ unit = some "px" ∨ unit = some "pt" := by
  cases unit <;> simp [isPoints]

private theorem form_ofTokens (tokens : List Token) :
    (Form tokens (ofTokens tokens) ∨ ∃ c, CommaCall tokens c ∧ ofTokens tokens = .color c) ∨
      ofTokens tokens = .text (Token.render tokens) := by
  unfold ofTokens
  dsimp only
  split
  · exact .inl (.inl (.string _ _ _))
  · exact .inl (.inl (.yes _ _))
  · exact .inl (.inl (.no _ _))
  · split
    · rename_i points
      exact .inl (.inl (.number _ _ _ _ (isPoints_iff.1 points)))
    · exact .inr rfl
  · rename_i digits span spaced
    cases found : Color.ofHex? digits with
    | none => exact .inr rfl
    | some c => exact .inl (.inl (.hash span spaced (Color.ofHex?_eq_some_iff.1 found)))
  · rename_i name span spaced rest
    cases found : colorOfCall? name rest with
    | none => exact .inr rfl
    | some c =>
        rcases call_of_colorOfCall? found span spaced with call | call
        · exact .inl (.inl (.call call))
        · exact .inl (.inr ⟨c, call, rfl⟩)
  · exact .inr rfl

private theorem Separated.ends {tokens : List Token} {numbers : List Float}
    (h : Separated tokens numbers) :
    ∃ front value source span spaced,
      tokens = front ++ [⟨.number value none source, span, spaced⟩] := by
  induction h with
  | one value source span spaced => exact ⟨[], value, source, span, spaced, rfl⟩
  | more _ _ _ _ _ _ _ ih =>
      obtain ⟨front, value, source, span, spaced, rfl⟩ := ih
      exact ⟨_ :: _ :: front, value, source, span, spaced, rfl⟩

def mark? (token : Token) : Option Punct :=
  match token.kind with
  | .punct mark => some mark
  | _ => none

private theorem Form.no_comma {tokens : List Token} {l : Literal} (h : Form tokens l) :
    tokens.dropLast.getLast?.bind mark? ≠ some .comma := by
  cases h with
  | call call =>
      obtain ⟨span, span', spaced, spaced', spelled, separated, channels⟩ := call
      obtain ⟨front, value, source, span'', spaced'', rfl⟩ := separated.ends
      rw [List.append_nil, ← List.cons_append, List.dropLast_concat, ← List.cons_append,
        List.getLast?_concat]
      nofun
  | _ => nofun

private theorem not_form_of_commaCall {tokens : List Token} {c : Color} (h : CommaCall tokens c)
    (l : Literal) : ¬Form tokens l := by
  intro form
  obtain ⟨comma, kind, ⟨span, span', spaced, spaced', -, -, -⟩⟩ := h
  refine form.no_comma ?_
  rw [← List.cons_append, List.dropLast_concat, ← List.cons_append, List.getLast?_concat,
    Option.bind_some, mark?, kind]

/-- What some tokens are read as: the literal that they write, and otherwise their text, unless they
are a call with one comma too many, which has its color. -/
theorem ofTokens_eq_iff {tokens : List Token} {l : Literal} :
    ofTokens tokens = l ↔ Form tokens l ∨ (∀ l', ¬Form tokens l') ∧
      ((∃ c, CommaCall tokens c ∧ l = .color c) ∨
        (∀ c, ¬CommaCall tokens c) ∧ l = .text (Token.render tokens)) := by
  constructor
  · rintro rfl
    rcases form_ofTokens tokens with (form | ⟨c, call, color⟩) | text
    · exact .inl form
    · exact .inr ⟨not_form_of_commaCall call, .inl ⟨c, call, color⟩⟩
    by_cases form : ∃ l', Form tokens l'
    · obtain ⟨l', form⟩ := form
      rw [ofTokens_of_form (.inl form)]
      exact .inl form
    push Not at form
    by_cases call : ∃ c, CommaCall tokens c
    · obtain ⟨c, call⟩ := call
      exact .inr ⟨form, .inl ⟨c, call, ofTokens_of_form (.inr ⟨c, call, rfl⟩)⟩⟩
    · push Not at call
      exact .inr ⟨form, .inr ⟨call, text⟩⟩
  · rintro (form | ⟨no_form, ⟨c, call, rfl⟩ | ⟨no_call, rfl⟩⟩)
    · exact ofTokens_of_form (.inl form)
    · exact ofTokens_of_form (.inr ⟨c, call, rfl⟩)
    · rcases form_ofTokens tokens with (here | ⟨c, here, -⟩) | text
      · exact absurd here (no_form _)
      · exact absurd here (no_call c)
      · exact text

private theorem eq_color_of_beq {l : Literal} {c : Color} (h : (l == .color c) = true) :
    l = .color c := by
  cases l with
  | color c' => exact congrArg color (eq_of_beq (α := Color) h)
  | _ => cases h

/-- A text that is read as a color although no number stands behind its last comma. -/
theorem ofTokens_final_comma : ∃ tokens, Token.scan "rgb(1, 2, 3,)" none = .ok tokens ∧
    Token.render tokens = "rgb(1, 2, 3,)" ∧ (∀ l, ¬Form tokens l) ∧
      ofTokens tokens = .color ⟨1, 2, 3, 255⟩ := by
  obtain ⟨tokens, scanned, computed⟩ : ∃ tokens : List Token,
      (Token.scan "rgb(1, 2, 3,)" none).toOption = some tokens ∧
        (Token.render tokens, tokens.dropLast.getLast?.bind mark?,
          ofTokens tokens == .color ⟨1, 2, 3, 255⟩) = ("rgb(1, 2, 3,)", some .comma, true) :=
    Option.map_eq_some_iff.1 (by decide +kernel)
  simp only [Prod.mk.injEq] at computed
  obtain ⟨shown, comma, color⟩ := computed
  exact ⟨tokens, eq_ok_of_toOption scanned, shown, fun l form => form.no_comma comma,
    eq_color_of_beq color⟩

end ViewStyle.Literal
