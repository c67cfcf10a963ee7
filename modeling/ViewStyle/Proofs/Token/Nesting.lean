/-
The groups that are open behind some tokens. A closing token ends the innermost open group if it
fits that one, and is astray otherwise; this is how a source text is scanned, so that all groups of
its tokens are closed at the end. A reader that takes every closing token for the end of a group
never counts more open groups than there are.
-/

import Mathlib.Data.List.Basic
import Mathlib.Data.List.Induction
import ViewStyle.Proofs.Stylesheet.Groups
import ViewStyle.Token.Scan

set_option autoImplicit false

namespace ViewStyle

open Text (Span)

namespace Token

/-- The bracket that a closing token has. -/
def Kind.closed? : Kind → Option Bracket
  | .punct (.closing bracket) => some bracket
  | _ => none

/-- The groups that are open behind a token, from the inside out. -/
def groupsAfter (kind : Kind) (groups : List Bracket) : List Bracket :=
  match kind.opened?, kind.closed?, groups with
  | some bracket, _, _ => bracket :: groups
  | none, some bracket, innermost :: outer => if innermost = bracket then outer else groups
  | none, _, _ => groups

/-- The groups that are open behind some tokens. -/
def groupsThrough (tokens : List Token) (groups : List Bracket) : List Bracket :=
  tokens.foldl (fun groups token => groupsAfter token.kind groups) groups

@[simp] theorem groupsThrough_nil (groups : List Bracket) : groupsThrough [] groups = groups := rfl

@[simp] theorem groupsThrough_cons (token : Token) (rest : List Token) (groups : List Bracket) :
    groupsThrough (token :: rest) groups = groupsThrough rest (groupsAfter token.kind groups) :=
  rfl

@[simp] theorem groupsThrough_append (tokens rest : List Token) (groups : List Bracket) :
    groupsThrough (tokens ++ rest) groups = groupsThrough rest (groupsThrough tokens groups) :=
  List.foldl_append

theorem Kind.eq_of_closed? {kind : Kind} {bracket : Bracket} (h : kind.closed? = some bracket) :
    kind = .punct (.closing bracket) := by
  unfold closed? at h
  split at h
  · cases h
    rfl
  · cases h

theorem Kind.opened?_eq_none {kind : Kind} : kind.opened? = none ↔ kind.opens = false := by
  unfold opened? opens
  split <;> simp_all

theorem Kind.closed?_eq_none {kind : Kind} : kind.closed? = none ↔ kind.closes = false := by
  unfold closed? closes
  split <;> simp_all

theorem groupsAfter_opening {kind : Kind} {bracket : Bracket} (h : kind.opened? = some bracket)
    (groups : List Bracket) : groupsAfter kind groups = bracket :: groups := by
  simp [groupsAfter, h]

theorem groupsAfter_cases (kind : Kind) (groups : List Bracket) :
    (∃ bracket, kind.opened? = some bracket ∧ groupsAfter kind groups = bracket :: groups) ∨
      (∃ bracket outer, kind = .punct (.closing bracket) ∧ groups = bracket :: outer ∧
        groupsAfter kind groups = outer) ∨
      (kind.opens = false ∧ groupsAfter kind groups = groups ∧
        ∀ bracket, groups.head? = some bracket → kind ≠ .punct (.closing bracket)) := by
  cases opened : kind.opened? with
  | some bracket => exact .inl ⟨bracket, rfl, groupsAfter_opening opened groups⟩
  | none =>
      refine .inr ?_
      have opens : kind.opens = false := Kind.opened?_eq_none.1 opened
      cases closed : kind.closed? with
      | none =>
          refine .inr ⟨opens, by simp [groupsAfter, opened, closed], fun bracket _ same => ?_⟩
          rw [same] at closed
          cases closed
      | some bracket =>
          have kind_eq := Kind.eq_of_closed? closed
          cases groups with
          | nil => exact .inr ⟨opens, by simp [groupsAfter, opened, closed], nofun⟩
          | cons innermost outer =>
              by_cases fits : innermost = bracket
              · subst fits
                exact .inl ⟨innermost, outer, kind_eq, rfl, by simp [groupsAfter, opened, closed]⟩
              · refine .inr ⟨opens, by simp [groupsAfter, opened, closed, fits], ?_⟩
                intro other head same
                rw [kind_eq] at same
                cases head
                cases same
                exact fits rfl

private theorem depthAfter_le {kind : Kind} {depth : Nat} {groups : List Bracket}
    (le : depth ≤ groups.length) : depthAfter kind depth ≤ (groupsAfter kind groups).length := by
  obtain ⟨bracket, opened, eq⟩ | ⟨bracket, outer, rfl, rfl, eq⟩ | ⟨opens, eq, -⟩ :=
    groupsAfter_cases kind groups
  · rw [eq, depthAfter_opens (Kind.opens_of_opened? opened), List.length_cons]
    omega
  · have closes : depthAfter (.punct (.closing bracket)) depth = depth - 1 := rfl
    rw [eq, closes]
    rw [List.length_cons] at le
    omega
  · rw [eq, depthAfter, opens]
    simp only [Bool.false_eq_true, if_false]
    split <;> omega

theorem depthThrough_le {tokens : List Token} {depth : Nat} {groups : List Bracket}
    (le : depth ≤ groups.length) :
    depthThrough tokens depth ≤ (groupsThrough tokens groups).length := by
  induction tokens generalizing depth groups with
  | nil => exact le
  | cons token tokens ih => exact ih (depthAfter_le le)

/-- Every closing token fits the innermost group that is open before it. -/
def Fits : List Bracket → List Token → Prop
  | _, [] => True
  | groups, token :: rest =>
      (∀ bracket, token.kind.closed? = some bracket → groups.head? = some bracket) ∧
        Fits (groupsAfter token.kind groups) rest

theorem depthThrough_of_fits {tokens : List Token} {groups : List Bracket}
    (h : Fits groups tokens) :
    depthThrough tokens groups.length = (groupsThrough tokens groups).length := by
  induction tokens generalizing groups with
  | nil => rfl
  | cons token tokens ih =>
      obtain ⟨fits, rest⟩ := h
      rw [depthThrough_cons, groupsThrough_cons, ← ih rest]
      congr 1
      obtain ⟨bracket, opened, eq⟩ | ⟨bracket, outer, kind, rfl, eq⟩ | ⟨opens, eq, other⟩ :=
        groupsAfter_cases token.kind groups
      · rw [eq, depthAfter_opens (Kind.opens_of_opened? opened), List.length_cons]
      · rw [eq, kind, List.length_cons, depthAfter_closing]
      · rw [eq]
        refine depthAfter_other opens (Kind.closed?_eq_none.1 ?_) _
        cases closed : token.kind.closed? with
        | none => rfl
        | some bracket => exact absurd (Kind.eq_of_closed? closed) (other bracket (fits _ closed))

def openings (tokens : List Token) : Nat := tokens.countP (·.kind.opens)

def closings (tokens : List Token) : Nat := tokens.countP (·.kind.closes)

private theorem Kind.closes_of_opens {kind : Kind} (h : kind.opens = true) :
    kind.closes = false := by
  unfold opens at h
  split at h
  · rfl
  · rfl
  · cases h

private theorem depthAfter_add (kind : Kind) (depth : Nat) :
    depth + (if kind.opens then 1 else 0) ≤
      depthAfter kind depth + if kind.closes then 1 else 0 := by
  unfold depthAfter
  split
  · omega
  · split
    · omega
    · omega

private theorem openings_le (tokens : List Token) (depth : Nat) :
    depth + openings tokens ≤ depthThrough tokens depth + closings tokens := by
  induction tokens generalizing depth with
  | nil => simp [openings, closings]
  | cons token tokens ih =>
      have step := depthAfter_add token.kind depth
      have rest := ih (depthAfter token.kind depth)
      unfold openings closings at rest ⊢
      rw [depthThrough_cons, List.countP_cons, List.countP_cons]
      omega

private theorem exists_depthThrough_le (tokens : List Token) :
    ∃ early late, tokens = early ++ late ∧
      depthThrough tokens 0 + closings late ≤ openings late := by
  induction tokens using List.reverseRecOn with
  | nil => exact ⟨[], [], rfl, Nat.le_refl _⟩
  | append_singleton tokens token ih =>
      obtain ⟨early, late, rfl, le⟩ := ih
      rw [depthThrough_append, depthThrough_cons, depthThrough_nil]
      generalize depthThrough (early ++ late) 0 = depth at le
      by_cases reset : token.kind.opens = false ∧ token.kind.closes = true ∧ depth = 0
      · -- Nothing is counted behind this token, so the run behind it is empty.
        obtain ⟨opens, closes, rfl⟩ := reset
        exact ⟨early ++ late ++ [token], [], by simp,
          by simp [depthAfter, opens, closes, openings, closings]⟩
      · refine ⟨early, late ++ [token], by simp, ?_⟩
        unfold openings closings at le ⊢
        rw [List.countP_append, List.countP_append, List.countP_singleton, List.countP_singleton]
        cases opens : token.kind.opens with
        | true =>
            rw [depthAfter_opens opens, Kind.closes_of_opens opens]
            simp only [Bool.false_eq_true, if_false, if_true]
            omega
        | false =>
            cases closes : token.kind.closes with
            | true =>
                have pos : depth ≠ 0 := fun zero => reset ⟨opens, closes, zero⟩
                simp only [depthAfter, opens, closes, Bool.false_eq_true, if_false, if_true]
                omega
            | false =>
                rw [depthAfter_other opens closes]
                simpa using le

theorem depthThrough_pos_iff {tokens : List Token} :
    0 < depthThrough tokens 0 ↔
      ∃ early late, tokens = early ++ late ∧ closings late < openings late := by
  constructor
  · intro pos
    obtain ⟨early, late, eq, le⟩ := exists_depthThrough_le tokens
    exact ⟨early, late, eq, by omega⟩
  · rintro ⟨early, late, rfl, lt⟩
    have le := openings_le late (depthThrough early 0)
    rw [depthThrough_append]
    omega

/-- The tokens inside of a group: they do not close it, and the groups among them are closed. A
closing token of another kind may stand between them. -/
inductive Inside : Bracket → List Token → Prop
  | nil (bracket : Bracket) : Inside bracket []
  | token {bracket : Bracket} {token : Token} {rest : List Token} :
      token.kind.opens = false → token.kind ≠ .punct (.closing bracket) → Inside bracket rest →
        Inside bracket (token :: rest)
  | group {bracket inner : Bracket} {opening closing : Token} {inside rest : List Token} :
      opening.kind.opened? = some inner → closing.kind = .punct (.closing inner) →
        Inside inner inside → Inside bracket rest →
          Inside bracket (opening :: (inside ++ closing :: rest))

private theorem Inside.append {bracket : Bracket} {tokens rest : List Token}
    (h : Inside bracket tokens) (h' : Inside bracket rest) : Inside bracket (tokens ++ rest) := by
  induction h with
  | nil => exact h'
  | token opens other _ ih => exact .token opens other (ih h')
  | group opened closed inside _ _ ih =>
      rw [List.cons_append, List.append_assoc]
      exact .group opened closed inside (ih h')

/-- A place between two runs of tokens lies in a group: an opening token stands before it and the
closing token for that one behind it. -/
def Between (before after : List Token) : Prop :=
  ∃ early opening inside bracket inside' closing late,
    before = early ++ opening :: inside ∧ after = inside' ++ closing :: late ∧
      opening.kind.opened? = some bracket ∧ closing.kind = .punct (.closing bracket) ∧
        Inside bracket inside ∧ Inside bracket inside'

private theorem Inside.groupsThrough {bracket : Bracket} {tokens : List Token}
    (h : Inside bracket tokens) (outer : List Bracket) :
    groupsThrough tokens (bracket :: outer) = bracket :: outer := by
  induction h generalizing outer with
  | nil => rfl
  | @token bracket token rest opens other _ ih =>
      obtain ⟨opened, opened_eq, -⟩ | ⟨closed, rest, kind, same, -⟩ | ⟨-, eq, -⟩ :=
        groupsAfter_cases token.kind (bracket :: outer)
      · rw [Kind.opens_of_opened? opened_eq] at opens
        cases opens
      · cases same
        exact absurd kind other
      · rw [groupsThrough_cons, eq, ih]
  | @group bracket inner opening closing inside rest opened closed _ _ ih_inside ih =>
      have closes (groups : List Bracket) : groupsAfter closing.kind (inner :: groups) = groups := by
        rw [closed]
        exact if_pos rfl
      rw [groupsThrough_cons, groupsAfter_opening opened, groupsThrough_append, ih_inside,
        groupsThrough_cons, closes, ih]

theorem Between.groupsThrough_ne_nil {before after : List Token} (h : Between before after) :
    groupsThrough before [] ≠ [] := by
  obtain ⟨early, opening, inside, bracket, inside', closing, late, rfl, rfl, opened, -, filled, -⟩ := h
  rw [groupsThrough_append, groupsThrough_cons, groupsAfter_opening opened, filled.groupsThrough]
  exact List.cons_ne_nil _ _

private theorem exists_opening {tokens : List Token} {bracket : Bracket} {outer : List Bracket}
    (h : groupsThrough tokens [] = bracket :: outer) :
    ∃ early opening inside, tokens = early ++ opening :: inside ∧
      opening.kind.opened? = some bracket ∧ groupsThrough early [] = outer ∧
        Inside bracket inside := by
  induction n : tokens.length using Nat.strongRecOn generalizing tokens bracket outer with
  | _ n ih =>
    subst n
    obtain rfl | ⟨tokens, token, rfl⟩ := tokens.eq_nil_or_concat'
    · cases h
    · have shorter : tokens.length < (tokens ++ [token]).length := by simp
      rw [groupsThrough_append, groupsThrough_cons, groupsThrough_nil] at h
      obtain ⟨opened, opened_eq, eq⟩ | ⟨closed, rest, kind, open_eq, eq⟩ | ⟨opens, eq, other⟩ :=
        groupsAfter_cases token.kind (groupsThrough tokens [])
      · cases eq.symm.trans h
        exact ⟨tokens, token, [], rfl, opened_eq, rfl, .nil _⟩
      · -- The last token closes a group, which lies inside of the one we look for.
        cases eq.symm.trans h
        obtain ⟨middle, opening', inside', rfl, opened', middle_eq, filled'⟩ :=
          ih _ shorter open_eq rfl
        have shorter' : middle.length < (middle ++ opening' :: inside' ++ [token]).length := by
          simp only [List.length_append, List.length_cons]
          omega
        obtain ⟨early, opening, inside, rfl, opened, early_eq, filled⟩ := ih _ shorter' middle_eq rfl
        refine ⟨early, opening, inside ++ opening' :: (inside' ++ [token]), by simp, opened,
          early_eq, filled.append (.group opened' kind filled' (.nil _))⟩
      · rw [eq] at h
        obtain ⟨early, opening, inside, rfl, opened, early_eq, filled⟩ := ih _ shorter h rfl
        have stays : token.kind ≠ .punct (.closing bracket) := other bracket (by rw [h]; rfl)
        exact ⟨early, opening, inside ++ [token], by simp, opened, early_eq,
          filled.append (.token opens stays (.nil _))⟩

theorem exists_closing {tokens : List Token} {bracket : Bracket} {outer : List Bracket}
    (h : (groupsThrough tokens (bracket :: outer)).length ≤ outer.length) :
    ∃ inside closing late, tokens = inside ++ closing :: late ∧
      closing.kind = .punct (.closing bracket) ∧ Inside bracket inside ∧
        groupsThrough tokens (bracket :: outer) = groupsThrough late outer := by
  induction n : tokens.length using Nat.strongRecOn generalizing tokens bracket outer with
  | _ n ih =>
    subst n
    cases tokens with
    | nil => exact absurd h (by simp)
    | cons token tokens =>
      rw [groupsThrough_cons] at h ⊢
      obtain ⟨opened, opened_eq, eq⟩ | ⟨closed, rest, kind, same, eq⟩ | ⟨opens, eq, other⟩ :=
        groupsAfter_cases token.kind (bracket :: outer)
      · -- The token opens a group, which has to be closed first.
        rw [eq] at h ⊢
        obtain ⟨inside', closing', late', rfl, kind', filled', later⟩ :=
          ih _ (Nat.lt_succ_self _) (Nat.le_trans h (Nat.le_succ _)) rfl
        rw [later] at h ⊢
        have shorter : late'.length < (token :: (inside' ++ closing' :: late')).length := by
          simp only [List.length_append, List.length_cons]
          omega
        obtain ⟨inside, closing, late, rfl, kind, filled, last⟩ := ih _ shorter h rfl
        exact ⟨token :: (inside' ++ closing' :: inside), closing, late, by simp, kind,
          .group opened_eq kind' filled' filled, last⟩
      · cases same
        exact ⟨[], token, tokens, rfl, kind, .nil _, by rw [eq]⟩
      · rw [eq] at h ⊢
        obtain ⟨inside, closing, late, rfl, kind, filled, last⟩ := ih _ (Nat.lt_succ_self _) h rfl
        exact ⟨token :: inside, closing, late, rfl, kind, .token opens (other bracket rfl) filled,
          last⟩

theorem between_of_groupsThrough {before after : List Token}
    (closed : groupsThrough (before ++ after) [] = []) (inside : groupsThrough before [] ≠ []) :
    Between before after := by
  obtain ⟨bracket, outer, here⟩ := List.exists_cons_of_ne_nil inside
  rw [groupsThrough_append, here] at closed
  obtain ⟨early, opening, filling, rfl, opened, -, filled⟩ := exists_opening here
  obtain ⟨filling', closing, late, rfl, kind, filled', -⟩ :=
    exists_closing (by rw [closed]; exact Nat.zero_le _)
  exact ⟨early, opening, filling, bracket, filling', closing, late, rfl, rfl, opened, kind, filled,
    filled'⟩

end Token

namespace Scan

open Token (groupsAfter groupsThrough)

def State.Nested (s : State) : Prop :=
  groupsThrough s.tokens.reverse [] = s.groups.map (·.bracket)

private theorem groupsThrough_push (tokens : List Token) (token : Token) :
    groupsThrough (push tokens token).reverse [] =
      groupsAfter token.kind (groupsThrough tokens.reverse []) := by
  have added : groupsThrough (token :: tokens).reverse [] =
      groupsAfter token.kind (groupsThrough tokens.reverse []) := by
    simp
  unfold push
  split
  · rename_i last earlier kind spaced
    split
    · -- The two tokens become one operator; none of the three is a bracket.
      rename_i op joined_eq
      have last_eq : groupsAfter last.kind = id := by
        unfold joined at joined_eq
        split at joined_eq <;> first | (rename_i here; rw [here]; rfl) | cases joined_eq
      have token_eq : groupsAfter token.kind = id := by
        rw [kind]
        rfl
      rw [List.reverse_cons, List.reverse_cons, Token.groupsThrough_append,
        Token.groupsThrough_append, token_eq, Token.groupsThrough_cons, Token.groupsThrough_cons,
        last_eq]
      rfl
    · exact added
  · exact added

private theorem State.Nested.emit {s : State} (h : s.Nested) (origin : Option String)
    (kind : Token.Kind) :
    groupsThrough (s.emit origin kind).tokens.reverse [] =
      groupsAfter kind (s.groups.map (·.bracket)) := by
  rw [State.emit, groupsThrough_push, h]

theorem State.Nested.plain {s : State} (h : s.Nested) (origin : Option String) {kind : Token.Kind}
    (plain : groupsAfter kind = id) : (s.emit origin kind).Nested := by
  rw [Nested, h.emit, plain]
  rfl

theorem State.Nested.enter {s s' : State} (h : s.Nested) {origin : Option String}
    {kind : Token.Kind} {bracket : Bracket} (opened : kind.opened? = some bracket)
    (entered : s.enter origin kind bracket = .ok s') : s'.Nested := by
  unfold State.enter at entered
  dsimp only at entered
  split at entered
  · cases entered
  · cases entered
    show groupsThrough (s.emit origin kind).tokens.reverse [] = bracket :: s.groups.map (·.bracket)
    rw [h.emit, Token.groupsAfter_opening opened]

theorem State.Nested.leave {s : State} (h : s.Nested) (origin : Option String)
    (bracket : Bracket) : (s.leave origin bracket).Nested := by
  have closed := h.emit origin (.punct (.closing bracket))
  unfold State.leave
  dsimp only
  split
  · rename_i groups
    rw [Nested, closed, groups, State.emit, groups]
    rfl
  · rename_i group outer groups
    rw [groups, List.map_cons] at closed
    split
    · rename_i fits
      rw [Nested, closed, fits]
      exact if_pos rfl
    · rename_i astray
      rw [Nested, closed]
      show (if group.bracket = bracket then _ else _) = s.groups.map (·.bracket)
      rw [if_neg astray, groups]
      rfl

theorem groupsAfter_markKind (c : Char) : groupsAfter (markKind c) = id := by
  unfold markKind
  split <;> rfl

theorem State.Nested.read {s s' : State} (h : s.Nested) {origin : Option String}
    {text : List Char} {lexeme : Lexeme} (read : s.read origin text lexeme = .ok s') :
    s'.Nested := by
  cases lexeme with
  | blank =>
      cases read
      exact h
  | comment closed =>
      cases closed with
      | false => cases read
      | true =>
          cases read
          exact h
  | ident name =>
      cases read
      exact h.plain origin rfl
  | atWord name =>
      cases read
      exact h.plain origin rfl
  | hash name =>
      cases read
      exact h.plain origin rfl
  | string text closed =>
      cases closed with
      | false => cases read
      | true =>
          cases read
          exact h.plain origin rfl
  | number value unit =>
      cases read
      exact h.plain origin rfl
  | function name => exact h.enter rfl read
  | address target =>
      -- The three tokens of an address open a group and close it.
      cases read
      rw [Nested, State.emit, groupsThrough_push, State.emit, groupsThrough_push, State.emit,
        groupsThrough_push, h]
      rfl
  | mark c =>
      simp only [State.read] at read
      split at read
      · rename_i bracket opening
        exact h.enter rfl read
      · cases read
        exact h.leave origin _
      · cases read
        exact h.plain origin (groupsAfter_markKind c)
  | refused => cases read

private theorem State.Nested.run {origin : Option String} {s : State} {cs : List Char}
    {tokens : List Token} (h : s.Nested) (run : run origin s cs = .ok tokens) :
    groupsThrough tokens [] = [] := by
  fun_induction Scan.run origin s cs with
  | case1 s groups =>
      cases run
      rw [h, groups]
      rfl
  | case2 => cases run
  | case3 => cases run
  | case4 s c cs lexeme n read_eq text s' read ih =>
      have kept := h.read read
      exact ih kept run

end Scan

/-- All groups of a source text are closed. -/
theorem Token.groupsThrough_of_scan {source : String} {origin : Option String}
    {tokens : List Token} (scanned : Token.scan source origin = .ok tokens) :
    groupsThrough tokens [] = [] := by
  have start : Scan.State.start.Nested := rfl
  exact start.run scanned

end ViewStyle
