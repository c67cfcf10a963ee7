/-
Where a value ends. A value never goes on behind a semicolon or a brace that stands outside the
groups it opens, so it is not too long. It is too short only if a closing token is astray in one of
these groups: the reader counts it for the end of that group, and the value ends in the middle of it.
-/

import Mathlib.Data.List.Induction
import Mathlib.Tactic.ByContra
import ViewStyle.Proofs.Stylesheet.Recognition
import ViewStyle.Proofs.Token.Nesting

set_option autoImplicit false

namespace ViewStyle

open Text (Span)

namespace Token

/-- A closing token that does not fit the innermost open group. -/
def Astray (groups : List Bracket) (token : Token) : Prop :=
  ∃ innermost outer bracket, groups = innermost :: outer ∧
    token.kind = .punct (.closing bracket) ∧ innermost ≠ bracket

private theorem groupsAfter_append {groups : List Bracket} (nonempty : groups ≠ []) (kind : Kind)
    (outer : List Bracket) : groupsAfter kind (groups ++ outer) = groupsAfter kind groups ++ outer := by
  obtain ⟨innermost, others, rfl⟩ := List.exists_cons_of_ne_nil nonempty
  unfold groupsAfter
  cases kind.opened? with
  | some bracket => rfl
  | none =>
      cases kind.closed? with
      | none => rfl
      | some bracket =>
          by_cases fits : innermost = bracket
          · simp [fits]
          · simp [fits]

private theorem exists_groupsThrough_append (tokens : List Token) (outer : List Bracket) :
    ∃ kept, groupsThrough tokens outer = groupsThrough tokens [] ++ kept := by
  induction tokens using List.reverseRecOn with
  | nil => exact ⟨outer, rfl⟩
  | append_singleton tokens token ih =>
      obtain ⟨kept, same⟩ := ih
      simp only [groupsThrough_append, groupsThrough_cons, groupsThrough_nil, same]
      by_cases none : groupsThrough tokens [] = []
      · rw [none, List.nil_append]
        cases opened : token.kind.opened? with
        | some bracket =>
            exact ⟨kept, by rw [groupsAfter_opening opened, groupsAfter_opening opened]; rfl⟩
        | none => exact ⟨groupsAfter token.kind kept, by simp [groupsAfter, opened]⟩
      · exact ⟨kept, groupsAfter_append none _ _⟩

private theorem groupsThrough_of_closed {before after : List Token}
    (closed : groupsThrough (before ++ after) [] = []) : groupsThrough after [] = [] := by
  obtain ⟨kept, same⟩ := exists_groupsThrough_append after (groupsThrough before [])
  rw [groupsThrough_append, same] at closed
  exact (List.append_eq_nil_iff.1 closed).1

private theorem depthAfter_mono (kind : Kind) {depth depth' : Nat} (le : depth ≤ depth') :
    depthAfter kind depth ≤ depthAfter kind depth' := by
  unfold depthAfter
  split
  · exact Nat.succ_le_succ le
  · split
    · exact Nat.sub_le_sub_right le 1
    · exact le

private theorem depthThrough_mono (tokens : List Token) {depth depth' : Nat} (le : depth ≤ depth') :
    depthThrough tokens depth ≤ depthThrough tokens depth' := by
  induction tokens generalizing depth depth' with
  | nil => exact le
  | cons token tokens ih => exact ih (depthAfter_mono token.kind le)

private theorem depthAfter_of_not_astray {groups : List Bracket} {token : Token}
    (h : ¬Astray groups token) :
    depthAfter token.kind groups.length = (groupsAfter token.kind groups).length := by
  obtain ⟨bracket, opened, eq⟩ | ⟨bracket, outer, kind, rfl, eq⟩ | ⟨opens, eq, other⟩ :=
    groupsAfter_cases token.kind groups
  · rw [eq, depthAfter_opens (Kind.opens_of_opened? opened), List.length_cons]
  · rw [eq, kind, List.length_cons, depthAfter_closing]
  · rw [eq]
    cases closed : token.kind.closed? with
    | none => exact depthAfter_other opens (Kind.closed?_eq_none.1 closed) _
    | some bracket =>
        have kind := Kind.eq_of_closed? closed
        cases groups with
        | nil => exact congrArg (depthAfter · 0) kind
        | cons innermost outer =>
            exact absurd ⟨innermost, outer, bracket, rfl, kind, fun same =>
              other innermost rfl (same ▸ kind)⟩ h

private theorem depthThrough_of_not_astray {tokens : List Token} {groups : List Bracket}
    (h : ∀ front token back, tokens = front ++ token :: back →
      ¬Astray (groupsThrough front groups) token) :
    depthThrough tokens groups.length = (groupsThrough tokens groups).length := by
  induction tokens generalizing groups with
  | nil => rfl
  | cons token tokens ih =>
      have here : ¬Astray groups token := h [] token tokens rfl
      rw [depthThrough_cons, depthAfter_of_not_astray here, groupsThrough_cons]
      exact ih fun front token' back split =>
        h (token :: front) token' back (congrArg (token :: ·) split)

private theorem exists_closed_or_astray {tokens : List Token} {groups : List Bracket}
    (some_open : groups ≠ []) (uncounted : depthThrough tokens groups.length = 0) :
    (∃ front back, tokens = front ++ back ∧ groupsThrough front groups = []) ∨
      ∃ front token back, tokens = front ++ token :: back ∧
        Astray (groupsThrough front groups) token := by
  induction tokens generalizing groups with
  | nil => exact absurd (List.eq_nil_of_length_eq_zero uncounted) some_open
  | cons token tokens ih =>
      by_cases astray : Astray groups token
      · exact .inr ⟨[], token, tokens, rfl, astray⟩
      · by_cases closed : groupsAfter token.kind groups = []
        · exact .inl ⟨[token], tokens, rfl, closed⟩
        · rw [depthThrough_cons, depthAfter_of_not_astray astray] at uncounted
          rcases ih closed uncounted with ⟨front, back, rfl, none⟩ |
            ⟨front, token', back, rfl, later⟩
          · exact .inl ⟨token :: front, back, rfl, none⟩
          · exact .inr ⟨token :: front, token', back, rfl, later⟩

end Token

open Token (Astray Between Inside depthThrough groupsThrough)

namespace Builder

/-- Among the tokens of a source text, whatever could end a value, but does not, lies in a group that
is opened before it in the value. The end of the value lies in such a group only if some closing
token of the value is astray; and a group that is opened in the value is closed in it too, unless a
closing token is astray in that group. -/
theorem groups_of_takeValue {source : String} {origin : Option String} {last : Option Span}
    {before tokens value rest : List Token}
    (scanned : Token.scan source origin = .ok (before ++ tokens))
    (taken : takeValue last 0 tokens = .ok (value, rest)) :
    tokens = value ++ rest ∧ EndsValue rest ∧
      (∀ front token back, value = front ++ token :: back → token.kind.isPlain = false →
        Between front (token :: back ++ rest)) ∧
      (Between value rest → ∃ front astray back, value = front ++ astray :: back ∧
        Astray (groupsThrough front []) astray) ∧
      ∀ early opening inside bracket, value = early ++ opening :: inside →
        opening.kind.opened? = some bracket →
          (∃ filling closing late, inside = filling ++ closing :: late ∧
            closing.kind = .punct (.closing bracket) ∧ Inside bracket filling) ∨
          ∃ filling astray late, inside = filling ++ astray :: late ∧
            Astray (groupsThrough filling [bracket]) astray := by
  obtain ⟨unbroken, ends, rfl⟩ := takeValue_eq_ok taken
  have closed : groupsThrough (value ++ rest) [] = [] :=
    Token.groupsThrough_of_closed (Token.groupsThrough_of_scan scanned)
  refine ⟨rfl, ends, ?_, ?_, ?_⟩
  · rintro front token back rfl stops
    have counted := unbroken.depthThrough_pos (by rw [stops]; rfl)
    have opened : depthThrough front 0 ≤ (groupsThrough front []).length :=
      Token.depthThrough_le (Nat.zero_le _)
    rw [List.append_assoc] at closed
    refine Token.between_of_groupsThrough closed fun none => ?_
    rw [none] at opened
    exact Nat.not_lt.2 opened counted
  · intro between
    by_contra nowhere
    have right : depthThrough value 0 = (groupsThrough value []).length :=
      Token.depthThrough_of_not_astray fun front astray back split here =>
        nowhere ⟨front, astray, back, split, here⟩
    rw [unbroken.depthThrough] at right
    exact between.groupsThrough_ne_nil (List.eq_nil_of_length_eq_zero right.symm)
  · rintro early opening inside bracket rfl opened
    have uncounted : depthThrough inside [bracket].length = 0 := by
      have whole := unbroken.depthThrough
      rw [Token.depthThrough_append, Token.depthThrough_cons,
        Token.depthAfter_opens (Token.Kind.opens_of_opened? opened)] at whole
      exact Nat.eq_zero_of_le_zero
        (whole ▸ Token.depthThrough_mono inside (Nat.le_add_left 1 (depthThrough early 0)))
    refine (Token.exists_closed_or_astray (List.cons_ne_nil _ _) uncounted).imp_left ?_
    rintro ⟨front, back, rfl, none⟩
    obtain ⟨filling, closing, late, rfl, kind, filled, -⟩ :=
      Token.exists_closing (Nat.le_of_eq (congrArg List.length none))
    exact ⟨filling, closing, late ++ back, by simp, kind, filled⟩

/-- A semicolon in square brackets, and a closing brace astray there; the value ends behind both
groups. -/
theorem groups_of_takeValue_nested :
    ∃ (before value rest : List Token) (semicolon : Token) (front back : List Token),
      Token.scan ".A \x7b x: f([; ]) w; \x7d" none = .ok (before ++ (value ++ rest)) ∧
        takeValue none 0 (value ++ rest) = .ok (value, rest) ∧
        value = front ++ semicolon :: back ∧ semicolon.kind = .punct .semicolon ∧
        Between front (semicolon :: back ++ rest) := by
  let token (kind : Token.Kind) (column : Nat) (spaced : Bool) : Token :=
    ⟨kind, ⟨none, ⟨1, column⟩⟩, spaced⟩
  let before := [token (.punct .dot) 1 false, token (.ident "A") 2 false,
    token (.punct (.opening .brace)) 4 true, token (.ident "x") 6 true, token (.punct .colon) 7 false]
  let front := [token (.function "f") 9 true, token (.punct (.opening .square)) 11 false]
  let semicolon := token (.punct .semicolon) 12 false
  let back := [token (.punct (.closing .square)) 14 true, token (.punct (.closing .round)) 15 false,
    token (.ident "w") 17 true]
  let rest := [token (.punct .semicolon) 18 false, token (.punct (.closing .brace)) 20 true]
  have scanned : Token.scan ".A \x7b x: f([; ]) w; \x7d" none =
      .ok (before ++ (front ++ semicolon :: back ++ rest)) := by decide +kernel
  have taken : takeValue none 0 (front ++ semicolon :: back ++ rest) =
      .ok (front ++ semicolon :: back, rest) := rfl
  obtain ⟨-, -, inside, -, -⟩ := groups_of_takeValue scanned taken
  exact ⟨before, front ++ semicolon :: back, rest, semicolon, front, back, scanned, taken, rfl, rfl,
    inside front semicolon back rfl rfl⟩

/-- A square bracket astray in round ones: the first value ends in the middle of them, the second one
goes on in there, and the stylesheet is read. -/
theorem takeValue_ends_in_group :
    ∃ (before value rest : List Token) (s : State),
      Token.scan ".A \x7b x: ( ] ; y: b ); \x7d" none = .ok (before ++ (value ++ rest)) ∧
        takeValue none 0 (value ++ rest) = .ok (value, rest) ∧ Between value rest ∧
        build .builtins 0 (before ++ (value ++ rest)) = .ok s ∧
        (s.sheet.rules.entries.flatMap fun e => e.declared.entries.map fun d =>
          (d.1, d.2.value.raw)) = [("x", "( ]"), ("y", "b )")] := by
  let token (kind : Token.Kind) (column : Nat) (spaced : Bool) : Token :=
    ⟨kind, ⟨none, ⟨1, column⟩⟩, spaced⟩
  let before := [token (.punct .dot) 1 false, token (.ident "A") 2 false,
    token (.punct (.opening .brace)) 4 true, token (.ident "x") 6 true, token (.punct .colon) 7 false]
  let opening := token (.punct (.opening .round)) 9 true
  let astray := token (.punct (.closing .square)) 11 true
  let filling := [token (.punct .semicolon) 13 true, token (.ident "y") 15 true,
    token (.punct .colon) 16 false, token (.ident "b") 18 true]
  let closing := token (.punct (.closing .round)) 20 true
  let late := [token (.punct .semicolon) 21 false, token (.punct (.closing .brace)) 23 true]
  have scanned : Token.scan ".A \x7b x: ( ] ; y: b ); \x7d" none =
      .ok (before ++ ([opening, astray] ++ (filling ++ closing :: late))) := by decide +kernel
  have between : Between [opening, astray] (filling ++ closing :: late) :=
    ⟨[], opening, [astray], .round, filling, closing, late, rfl, rfl, rfl, rfl,
      .token rfl (by rintro ⟨⟩) (.nil _),
      .token rfl (by rintro ⟨⟩) (.token rfl (by rintro ⟨⟩) (.token rfl (by rintro ⟨⟩)
        (.token rfl (by rintro ⟨⟩) (.nil _))))⟩
  obtain ⟨s, read, values⟩ : ∃ s, (build .builtins 0
      (before ++ ([opening, astray] ++ (filling ++ closing :: late)))).toOption = some s ∧
        (s.sheet.rules.entries.flatMap fun e => e.declared.entries.map fun d =>
          (d.1, d.2.value.raw)) = [("x", "( ]"), ("y", "b )")] :=
    Option.map_eq_some_iff.1 (by decide +kernel)
  have unbroken : Unbroken (fun kind => !kind.isPlain) 0 [opening, astray] :=
    ⟨fun _ => rfl, fun outside => absurd outside (by decide), rfl⟩
  have ends : EndsValue (filling ++ closing :: late) := ⟨_, _, rfl, .inl rfl⟩
  have taken := takeValue_of_unbroken none unbroken ends
  exact ⟨before, [opening, astray], filling ++ closing :: late, s, scanned, taken, between,
    eq_ok_of_toOption read, values⟩

end Builder

end ViewStyle
