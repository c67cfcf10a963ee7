/-
Tokens with their groups: every opening token has the closing one of its kind behind it. A reader
that counts open groups comes out of such tokens as it went in.
-/

import ViewStyle.Proofs.Condition.Reads
import ViewStyle.Stylesheet.Grammar

set_option autoImplicit false

namespace ViewStyle

open Text (Span)

/-- The bracket that a token opens; a function head opens a round one. -/
def Token.Kind.opened? : Token.Kind → Option Bracket
  | .function _ => some .round
  | .punct (.opening bracket) => some bracket
  | _ => none

/-- The token can stand in a value outside its groups. -/
def Token.Kind.isPlain : Token.Kind → Bool
  | .punct .semicolon => false
  | .punct .colon => false
  | .punct (.opening .brace) => false
  | .punct (.closing .brace) => false
  | _ => true

theorem Token.Kind.eq_of_not_plain {kind : Token.Kind} (h : ¬kind.isPlain = true) :
    kind = .punct .semicolon ∨ kind = .punct .colon ∨ kind = .punct (.opening .brace) ∨
      kind = .punct (.closing .brace) := by
  unfold isPlain at h
  split at h <;> simp_all

/-- Tokens with properly matched groups, which stand inside of a group or outside of all groups. -/
inductive Grouped : Bool → List Token → Prop
  | nil {outside : Bool} : Grouped outside []
  | token {outside : Bool} {token : Token} {rest : List Token} :
      token.kind.opens = false → token.kind.closes = false →
        (outside = true → token.kind.isPlain = true) → Grouped outside rest →
          Grouped outside (token :: rest)
  | group {outside : Bool} {bracket : Bracket} {opening : Token} {inside rest : List Token}
      (span : Span) (spaced : Bool) :
      opening.kind.opened? = some bracket → (outside = true → opening.kind.isPlain = true) →
        Grouped false inside → Grouped outside rest →
          Grouped outside
            (opening :: (inside ++ ⟨.punct (.closing bracket), span, spaced⟩ :: rest))

/-- No token outside their groups stops the reader, and they close the groups that they open. -/
def Unbroken (stops : Token.Kind → Bool) : Nat → List Token → Prop
  | depth, [] => depth = 0
  | depth, token :: rest =>
      (depth = 0 → stops token.kind = false) ∧
        Unbroken stops (Token.depthAfter token.kind depth) rest

instance Unbroken.decidable (stops : Token.Kind → Bool) :
    (depth : Nat) → (tokens : List Token) → Decidable (Unbroken stops depth tokens)
  | depth, [] => inferInstanceAs (Decidable (depth = 0))
  | depth, token :: rest =>
      have := Unbroken.decidable stops (Token.depthAfter token.kind depth) rest
      inferInstanceAs (Decidable (_ ∧ _))

namespace Token

theorem Kind.opens_of_opened? {kind : Kind} {bracket : Bracket} (h : kind.opened? = some bracket) :
    kind.opens = true := by
  unfold opened? at h
  split at h
  · rfl
  · rfl
  · cases h

theorem depthAfter_opens {kind : Kind} (h : kind.opens = true) (depth : Nat) :
    depthAfter kind depth = depth + 1 := by
  rw [depthAfter, if_pos h]

theorem depthAfter_other {kind : Kind} (opens : kind.opens = false) (closes : kind.closes = false)
    (depth : Nat) : depthAfter kind depth = depth := by
  simp [depthAfter, opens, closes]

theorem depthAfter_closing (bracket : Bracket) (depth : Nat) :
    depthAfter (.punct (.closing bracket)) (depth + 1) = depth :=
  rfl

theorem Kind.eq_of_punct_beq {kind : Kind} {mark : Punct} (h : (kind == .punct mark) = true) :
    kind = .punct mark := by
  cases kind with
  | punct other =>
      have same : (other == mark) = true := h
      rw [eq_of_beq same]
  | _ => cases h

/-- The number of groups that are open behind some tokens. -/
def depthThrough (tokens : List Token) (depth : Nat) : Nat :=
  tokens.foldl (fun depth token => depthAfter token.kind depth) depth

@[simp] theorem depthThrough_nil (depth : Nat) : depthThrough [] depth = depth := rfl

@[simp] theorem depthThrough_cons (token : Token) (rest : List Token) (depth : Nat) :
    depthThrough (token :: rest) depth = depthThrough rest (depthAfter token.kind depth) := rfl

@[simp] theorem depthThrough_append (tokens rest : List Token) (depth : Nat) :
    depthThrough (tokens ++ rest) depth = depthThrough rest (depthThrough tokens depth) :=
  List.foldl_append

def Neutral (tokens : List Token) : Prop := ∀ depth, depthThrough tokens depth = depth

end Token

open Token (Neutral depthThrough)

theorem Grouped.neutral {outside : Bool} {tokens : List Token} (h : Grouped outside tokens) :
    Neutral tokens := by
  induction h with
  | nil => exact fun _ => rfl
  | token opens closes _ _ ih =>
      intro depth
      rw [Token.depthThrough_cons, Token.depthAfter_other opens closes, ih]
  | group span spaced opened _ _ _ ih_inside ih =>
      intro depth
      have opens := Token.Kind.opens_of_opened? opened
      rw [Token.depthThrough_cons, Token.depthAfter_opens opens, Token.depthThrough_append,
        ih_inside, Token.depthThrough_cons, Token.depthAfter_closing, ih]

theorem Grouped.append {outside : Bool} {tokens rest : List Token} (h : Grouped outside tokens)
    (h' : Grouped outside rest) : Grouped outside (tokens ++ rest) := by
  induction h with
  | nil => exact h'
  | token opens closes plain _ ih => exact .token opens closes plain (ih h')
  | group span spaced opened plain inside _ _ ih =>
      rw [List.cons_append, List.append_assoc]
      exact .group span spaced opened plain inside (ih h')

private theorem Grouped.unbroken_append {outside : Bool} {tokens rest : List Token}
    (h : Grouped outside tokens) {depth : Nat} (outermost : depth = 0 → outside = true)
    (behind : Unbroken (fun kind => !kind.isPlain) depth rest) :
    Unbroken (fun kind => !kind.isPlain) depth (tokens ++ rest) := by
  induction h generalizing depth rest with
  | nil => exact behind
  | token opens closes plain _ ih =>
      refine ⟨fun zero => by simp [plain (outermost zero)], ?_⟩
      rw [Token.depthAfter_other opens closes]
      exact ih outermost behind
  | group span spaced opened plain _ _ ih_inside ih =>
      rw [List.cons_append, List.append_assoc]
      refine ⟨fun zero => by simp [plain (outermost zero)], ?_⟩
      rw [Token.depthAfter_opens (Token.Kind.opens_of_opened? opened)]
      exact ih_inside nofun ⟨nofun, ih outermost behind⟩

theorem Grouped.unbroken {tokens : List Token} (h : Grouped true tokens) :
    Unbroken (fun kind => !kind.isPlain) 0 tokens := by
  have whole : Unbroken (fun kind => !kind.isPlain) 0 (tokens ++ []) :=
    h.unbroken_append (fun _ => rfl) rfl
  rwa [List.append_nil] at whole

theorem Unbroken.depthThrough {stops : Token.Kind → Bool} {depth : Nat} {tokens : List Token}
    (h : Unbroken stops depth tokens) : depthThrough tokens depth = 0 := by
  induction tokens generalizing depth with
  | nil => exact h
  | cons token tokens ih => exact ih h.2

theorem Unbroken.depthThrough_pos {stops : Token.Kind → Bool} {depth : Nat}
    {front back : List Token} {token : Token} (h : Unbroken stops depth (front ++ token :: back))
    (stop : stops token.kind = true) : 0 < Token.depthThrough front depth := by
  induction front generalizing depth with
  | nil =>
      refine Nat.pos_of_ne_zero fun zero => ?_
      exact Bool.false_ne_true ((h.1 zero).symm.trans stop)
  | cons first front ih => exact ih h.2

theorem unbroken_of_depthThrough {tokens : List Token}
    (inner : ∀ token ∈ tokens, token.kind ≠ .punct (.closing .square)) {depth : Nat}
    (closed : depthThrough tokens depth = 0) :
    Unbroken (· == .punct (.closing .square)) depth tokens := by
  induction tokens generalizing depth with
  | nil => exact closed
  | cons token tokens ih =>
      obtain ⟨here, there⟩ := List.forall_mem_cons.1 inner
      refine ⟨fun _ => Bool.eq_false_iff.2 fun same => ?_, ih there closed⟩
      exact here (Token.Kind.eq_of_punct_beq same)

namespace Expr

private theorem Names.grouped {path whole : String} {tokens : List Token}
    (h : Names path tokens whole) : Grouped false tokens := by
  induction h with
  | done => exact .nil
  | segment segment span span' _ ih => exact .token rfl rfl nofun (.token rfl rfl nofun ih)

private theorem Joins.grouped {between right : List Token} {combine : Expr → Expr → Expr}
    (h : Joins between right combine) : Grouped false between := by
  cases h with
  | sign => exact .nil
  | _ => exact .token rfl rfl nofun .nil

theorem Reads.grouped {tokens : List Token} {e : Expr} (h : Reads tokens e) :
    Grouped false tokens := by
  induction h with
  | number => exact .token rfl rfl nofun .nil
  | text => exact .token rfl rfl nofun .nil
  | bool => exact .token rfl rfl nofun .nil
  | name span spaced _ _ _ names => exact .token rfl rfl nofun names.grouped
  | brackets span span' spaced spaced' _ ih =>
      exact .group span' spaced' rfl nofun ih .nil
  | negate span spaced _ ih => exact .token rfl rfl nofun ih
  | not span spaced _ _ ih => exact .token rfl rfl nofun ih
  | join _ joins _ ih_l ih_r => exact (ih_l.append joins.grouped).append ih_r

private theorem Names.closing_square_ne {path whole : String} {tokens : List Token}
    (h : Names path tokens whole) :
    ∀ token ∈ tokens, token.kind ≠ .punct (.closing .square) := by
  induction h with
  | done => nofun
  | segment segment span span' _ ih =>
      refine List.forall_mem_cons.2 ⟨nofun, List.forall_mem_cons.2 ⟨nofun, ih⟩⟩

theorem Reads.closing_square_ne {tokens : List Token} {e : Expr} (h : Reads tokens e) :
    ∀ token ∈ tokens, token.kind ≠ .punct (.closing .square) := by
  induction h with
  | number => exact List.forall_mem_singleton.2 nofun
  | text => exact List.forall_mem_singleton.2 nofun
  | bool => exact List.forall_mem_singleton.2 nofun
  | name span spaced _ _ _ names =>
      exact List.forall_mem_cons.2 ⟨nofun, names.closing_square_ne⟩
  | brackets span span' spaced spaced' _ ih =>
      refine List.forall_mem_cons.2 ⟨nofun, List.forall_mem_append.2 ⟨ih, ?_⟩⟩
      refine List.forall_mem_singleton.2 ?_
      intro round
      cases round
  | negate span spaced _ ih => exact List.forall_mem_cons.2 ⟨nofun, ih⟩
  | not span spaced _ _ ih => exact List.forall_mem_cons.2 ⟨nofun, ih⟩
  | join _ joins _ ih_l ih_r =>
      refine List.forall_mem_append.2 ⟨List.forall_mem_append.2 ⟨ih_l, ?_⟩, ih_r⟩
      cases joins with
      | sign => nofun
      | _ => exact List.forall_mem_singleton.2 nofun

end Expr

namespace Builder

section

variable (last : Option Span)

theorem takeValue_cons {token : Token} {depth : Nat}
    (goes_on : depth = 0 → token.kind.isPlain = true) (rest : List Token) :
    takeValue last depth (token :: rest) =
      (takeValue last (Token.depthAfter token.kind depth) rest).map fun taken =>
        (token :: taken.1, taken.2) := by
  conv => lhs; unfold takeValue
  dsimp only
  split
  · rename_i kind
    exact absurd (kind ▸ goes_on rfl) (by decide)
  · rename_i kind
    exact absurd (kind ▸ goes_on rfl) (by decide)
  · rename_i kind
    exact absurd (kind ▸ goes_on rfl) (by decide)
  · rename_i kind
    exact absurd (kind ▸ goes_on rfl) (by decide)
  · generalize takeValue last (Token.depthAfter token.kind _) rest = taken
    cases taken <;> rfl

/-- A semicolon or a closing brace stands next. -/
def EndsValue (tokens : List Token) : Prop :=
  ∃ token rest, tokens = token :: rest ∧
    (token.kind = .punct .semicolon ∨ token.kind = .punct (.closing .brace))

private theorem takeValue_end {tokens : List Token} (h : EndsValue tokens) :
    takeValue last 0 tokens = .ok ([], tokens) := by
  obtain ⟨⟨kind, span, spaced⟩, rest, rfl, here⟩ := h
  rcases here with here | here
  · cases here
    rfl
  · cases here
    rfl

theorem takeGroup_of_unbroken {group : List Token} {depth : Nat}
    (h : Unbroken (· == .punct (.closing .square)) depth group) (span : Span) (spaced : Bool)
    (rest : List Token) :
    takeGroup last depth (group ++ ⟨.punct (.closing .square), span, spaced⟩ :: rest) =
      .ok (group, rest) := by
  induction group generalizing depth with
  | nil =>
      cases h
      rfl
  | cons token group ih =>
      obtain ⟨goes_on, inner⟩ := h
      have other : ¬(depth = 0 ∧ (token.kind == .punct (.closing .square)) = true) :=
        fun ⟨outermost, stops⟩ => Bool.false_ne_true ((goes_on outermost).symm.trans stops)
      rw [List.cons_append, takeGroup, if_neg other, ih inner]
      rfl

theorem takeValue_of_unbroken {value : List Token} {depth : Nat}
    (h : Unbroken (fun kind => !kind.isPlain) depth value) {rest : List Token}
    (ends : EndsValue rest) : takeValue last depth (value ++ rest) = .ok (value, rest) := by
  induction value generalizing depth with
  | nil =>
      cases h
      exact takeValue_end last ends
  | cons token value ih =>
      obtain ⟨goes_on, inner⟩ := h
      rw [List.cons_append, takeValue_cons last (fun outermost => by simpa using goes_on outermost),
        ih inner]
      rfl

end

end Builder

end ViewStyle
