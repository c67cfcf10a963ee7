/-
The brackets of a text are matched with a stack. The stack of the tokens that a source text gives is
empty at the end and bounded all the way; a source text that leaves something on the stack gives no
tokens, and the error names what was opened last.
-/

import Mathlib.Data.List.Forall2
import ViewStyle.Except
import ViewStyle.Proofs.Token.Nesting
import ViewStyle.Proofs.Token.Pieces

set_option autoImplicit false

namespace ViewStyle

open Text (Span Position)

structure Bracketing (α : Type) where
  opens : α → Option Bracket
  closes : α → Option Bracket

namespace Bracketing

variable {α : Type} (b : Bracketing α)

def next (stack : List α) (x : α) : List α :=
  match b.opens x, b.closes x, stack with
  | some _, _, _ => x :: stack
  | none, some bracket, top :: outer => if b.opens top = some bracket then outer else stack
  | none, _, _ => stack

/-- The stack behind some members. -/
def scan (stack : List α) (members : List α) : List α := members.foldl b.next stack

private theorem next_opening {x : α} {bracket : Bracket} (h : b.opens x = some bracket)
    (stack : List α) : b.next stack x = x :: stack := by
  simp [next, h]

private theorem next_plain {x : α} (opens : b.opens x = none) (closes : b.closes x = none)
    (stack : List α) : b.next stack x = stack := by
  simp [next, opens, closes]

private theorem next_closing {x top : α} {bracket : Bracket} (opens : b.opens x = none)
    (closes : b.closes x = some bracket) (outer : List α) :
    b.next (top :: outer) x = if b.opens top = some bracket then outer else top :: outer := by
  simp [next, opens, closes]

private theorem next_nil {x : α} (opens : b.opens x = none) : b.next [] x = [] := by
  simp [next, opens]

private theorem scan_snoc (stack members : List α) (x : α) :
    b.scan stack (members ++ [x]) = b.next (b.scan stack members) x := by
  rw [scan, scan, List.foldl_append]
  rfl

private theorem length_next_le (stack : List α) (x : α) :
    (b.next stack x).length ≤ stack.length + 1 := by
  unfold next
  split
  · exact Nat.le_refl _
  · split
    · simp only [List.length_cons]
      omega
    · exact Nat.le_succ _
  · exact Nat.le_succ _

private theorem length_scan_le (members : List α) :
    (b.scan [] members).length ≤ members.length := by
  induction members using List.reverseRecOn with
  | nil => exact Nat.le_refl _
  | append_singleton members x ih =>
      rw [scan_snoc, List.length_append]
      exact Nat.le_trans (b.length_next_le _ x) (Nat.succ_le_succ ih)

end Bracketing

namespace Token

def bracketing : Bracketing Token where
  opens token := token.kind.opened?
  closes token := token.kind.closed?

/-- The opening tokens whose groups are open behind some tokens, from the inside out. -/
def stack (tokens : List Token) : List Token := bracketing.scan [] tokens

private theorem map_next {entries : List Token} {groups : List Bracket}
    (h : entries.map bracketing.opens = groups.map some) (token : Token) :
    (bracketing.next entries token).map bracketing.opens =
      (groupsAfter token.kind groups).map some := by
  cases opened : token.kind.opened? with
  | some bracket =>
      rw [bracketing.next_opening opened, groupsAfter_opening opened, List.map_cons,
        List.map_cons, h]
      exact congrArg (· :: _) opened
  | none =>
      cases closed : token.kind.closed? with
      | none =>
          rw [bracketing.next_plain opened closed, h]
          simp [groupsAfter, opened, closed]
      | some bracket =>
          cases entries with
          | nil =>
              obtain rfl : groups = [] := by simpa using h
              rw [bracketing.next_nil opened]
              simp [groupsAfter, opened, closed]
          | cons top outer =>
              obtain ⟨group, rest, rfl⟩ : ∃ group rest, groups = group :: rest :=
                List.exists_cons_of_ne_nil (by rintro rfl; cases h)
              obtain ⟨top_eq, outer_eq⟩ := List.cons.inj h
              rw [bracketing.next_closing opened closed, top_eq]
              by_cases fits : group = bracket
              · simpa [groupsAfter, opened, closed, fits] using outer_eq
              · simpa [groupsAfter, opened, closed, fits] using h

private theorem map_stack (tokens : List Token) :
    (stack tokens).map bracketing.opens = (groupsThrough tokens []).map some := by
  induction tokens using List.reverseRecOn with
  | nil => rfl
  | append_singleton tokens token ih =>
      rw [stack, Bracketing.scan_snoc, groupsThrough_append]
      exact map_next ih token

private theorem length_stack (tokens : List Token) :
    (stack tokens).length = (groupsThrough tokens []).length := by
  simpa using congrArg List.length (map_stack tokens)

/-- Not more than the limit is on the stack, but for the head of an address on top of it. -/
def Shallow (stack : List Token) : Prop :=
  stack.length ≤ nestingLimit ∨
    stack.length = nestingLimit + 1 ∧
      ∃ head outer, stack = head :: outer ∧ head.kind = .function "url"

def Low (tokens : List Token) : Prop :=
  ∀ before after, tokens = before ++ after → Shallow (stack before)

private theorem Low.snoc {tokens : List Token} {token : Token} (h : Low tokens)
    (last : Shallow (stack (tokens ++ [token]))) : Low (tokens ++ [token]) := by
  intro before after split
  obtain rfl | ⟨after, final, rfl⟩ := after.eq_nil_or_concat'
  · rw [List.append_nil] at split
    rwa [← split]
  · rw [← List.append_assoc] at split
    exact h before after (List.append_inj_left' split rfl)

private theorem Low.of_snoc {tokens : List Token} {token : Token} (h : Low (tokens ++ [token])) :
    Low tokens := by
  rintro before after rfl
  exact h before (after ++ [token]) (List.append_assoc _ _ _)

end Token

namespace Scan

open Token (Low Shallow stack bracketing groupsAfter groupsThrough)

theorem plain_of_joined {kind : Token.Kind} {op : Operator} (h : joined kind = some op) :
    kind.opened? = none ∧ kind.closed? = none := by
  unfold joined at h
  split at h
  · exact ⟨rfl, rfl⟩
  · exact ⟨rfl, rfl⟩
  · exact ⟨rfl, rfl⟩
  · exact ⟨rfl, rfl⟩
  · cases h

private theorem push_cases (tokens : List Token) (token : Token) :
    (push tokens token).reverse = tokens.reverse ++ [token] ∨
      ∃ last earlier op, tokens = last :: earlier ∧ joined last.kind = some op ∧
        token.kind = .operator .assign ∧
          (push tokens token).reverse =
            earlier.reverse ++ [{ last with kind := .operator op }] := by
  unfold push
  split
  · rename_i last earlier kind spaced
    split
    · rename_i op joined_eq
      exact .inr ⟨last, earlier, op, rfl, joined_eq, kind, by simp⟩
    · exact .inl (by simp)
  · exact .inl (by simp)

private theorem stack_push (tokens : List Token) (token : Token) :
    stack (push tokens token).reverse = bracketing.next (stack tokens.reverse) token := by
  obtain pushed | ⟨last, earlier, op, rfl, joined_eq, kind, pushed⟩ := push_cases tokens token
  · rw [pushed]
    exact bracketing.scan_snoc _ _ _
  · obtain ⟨opens, closes⟩ := plain_of_joined joined_eq
    have assign : token.kind.opened? = none ∧ token.kind.closed? = none := by
      rw [kind]
      exact ⟨rfl, rfl⟩
    rw [pushed, List.reverse_cons, stack, stack, bracketing.scan_snoc, bracketing.scan_snoc,
      bracketing.next_plain opens closes, bracketing.next_plain assign.1 assign.2]
    exact bracketing.next_plain rfl rfl _

private theorem low_push {tokens : List Token} {token : Token} (h : Low tokens.reverse)
    (last : Shallow (bracketing.next (stack tokens.reverse) token)) :
    Low (push tokens token).reverse := by
  rw [← stack_push] at last
  obtain pushed | ⟨first, earlier, op, rfl, -, -, pushed⟩ := push_cases tokens token
  · rw [pushed] at last ⊢
    exact h.snoc last
  · rw [pushed] at last ⊢
    rw [List.reverse_cons] at h
    exact h.of_snoc.snoc last

structure State.Bounded (s : State) : Prop where
  nested : s.Nested
  room : s.groups.length ≤ nestingLimit
  low : Low s.tokens.reverse

private theorem length_next_stack {s : State} (nested : s.Nested) (token : Token) :
    (bracketing.next (stack s.tokens.reverse) token).length =
      (groupsAfter token.kind (s.groups.map (·.bracket))).length := by
  have next := Token.map_next (Token.map_stack s.tokens.reverse) token
  rw [nested] at next
  simpa using congrArg List.length next

private theorem State.Bounded.emit {s : State} (h : s.Bounded) (origin : Option String)
    {kind : Token.Kind}
    (room : (groupsAfter kind (s.groups.map (·.bracket))).length ≤ nestingLimit) :
    Low (s.emit origin kind).tokens.reverse := by
  refine low_push h.low (.inl ?_)
  rwa [length_next_stack h.nested]

private theorem State.Bounded.plain {s : State} (h : s.Bounded) (origin : Option String)
    {kind : Token.Kind} (plain : groupsAfter kind = id) : (s.emit origin kind).Bounded where
  nested := h.nested.plain origin plain
  room := h.room
  low := h.emit origin (by simpa [plain] using h.room)

private theorem State.Bounded.enter {s s' : State} (h : s.Bounded) {origin : Option String}
    {kind : Token.Kind} {bracket : Bracket} (opened : kind.opened? = some bracket)
    (entered : s.enter origin kind bracket = .ok s') : s'.Bounded := by
  have nested := h.nested.enter opened entered
  unfold State.enter at entered
  dsimp only at entered
  split at entered
  · cases entered
  · rename_i room
    cases entered
    refine ⟨nested, Nat.lt_of_not_le room, h.emit origin ?_⟩
    rw [Token.groupsAfter_opening opened, List.length_cons, List.length_map]
    exact Nat.lt_of_not_le room

private theorem length_groupsAfter_closing (bracket : Bracket) (groups : List Bracket) :
    (groupsAfter (.punct (.closing bracket)) groups).length ≤ groups.length := by
  obtain ⟨opened, opened_eq, -⟩ | ⟨_, outer, -, rfl, eq⟩ | ⟨-, eq, -⟩ :=
    Token.groupsAfter_cases (.punct (.closing bracket)) groups
  · cases opened_eq
  · rw [eq]
    exact Nat.le_succ _
  · exact Nat.le_of_eq (congrArg List.length eq)

private theorem State.Bounded.leave {s : State} (h : s.Bounded) (origin : Option String)
    (bracket : Bracket) : (s.leave origin bracket).Bounded := by
  have low : Low (s.emit origin (.punct (.closing bracket))).tokens.reverse := h.emit origin
    (Nat.le_trans (length_groupsAfter_closing _ _) (by simpa using h.room))
  have nested := h.nested.leave origin bracket
  unfold State.leave at nested ⊢
  dsimp only at nested ⊢
  split at nested
  · exact ⟨nested, h.room, low⟩
  · rename_i group outer groups
    have room := h.room
    rw [groups, List.length_cons] at room
    split at nested
    · rename_i fits
      rw [if_pos fits]
      exact ⟨nested, Nat.le_of_succ_le room, low⟩
    · rename_i astray
      rw [if_neg astray]
      exact ⟨nested, h.room, low⟩

private theorem State.Bounded.address {s : State} (h : s.Bounded) (origin : Option String)
    (target : String) :
    Low (((s.emit origin (.function "url")).emit origin (.string target)).emit origin
      (.punct (.closing .round))).tokens.reverse := by
  have length : (stack s.tokens.reverse).length ≤ nestingLimit := by
    rw [Token.length_stack, h.nested]
    simpa using h.room
  let head : Token := ⟨.function "url", ⟨origin, s.position⟩, s.spaced⟩
  have opened : stack (push s.tokens head).reverse = head :: stack s.tokens.reverse := by
    rw [stack_push]
    exact bracketing.next_opening (show bracketing.opens head = some .round from rfl) _
  have shallow : Shallow (head :: stack s.tokens.reverse) := by
    rcases Nat.lt_or_eq_of_le length with lt | eq
    · exact .inl lt
    · exact .inr ⟨congrArg Nat.succ eq, head, _, rfl, rfl⟩
  let body : Token := ⟨.string target, ⟨origin, s.position⟩, false⟩
  let closing : Token := ⟨.punct (.closing .round), ⟨origin, s.position⟩, false⟩
  have first : Low (push s.tokens head).reverse :=
    low_push h.low (by rwa [← stack_push, opened])
  have second : Low (push (push s.tokens head) body).reverse :=
    low_push first (by rwa [opened])
  have third :
      Shallow (bracketing.next (stack (push (push s.tokens head) body).reverse) closing) := by
    rw [stack_push, opened]
    exact .inl length
  exact low_push second third

private theorem State.Bounded.read {s s' : State} (h : s.Bounded) {origin : Option String}
    {text : List Char} {lexeme : Lexeme} (read : s.read origin text lexeme = .ok s') :
    s'.Bounded := by
  cases lexeme with
  | blank =>
      cases read
      exact ⟨h.nested, h.room, h.low⟩
  | comment closed =>
      cases closed with
      | false => cases read
      | true =>
          cases read
          exact ⟨h.nested, h.room, h.low⟩
  | ident name =>
      cases read
      exact h.plain origin rfl
  | atWord name =>
      cases read
      exact h.plain origin rfl
  | hash name =>
      cases read
      exact h.plain origin rfl
  | string text closed =>
      cases closed with
      | false => cases read
      | true =>
          cases read
          exact h.plain origin rfl
  | number value unit =>
      cases read
      exact h.plain origin rfl
  | function name => exact h.enter rfl read
  | address target =>
      have nested := h.nested.read read
      cases read
      exact ⟨nested, h.room, h.address origin target⟩
  | mark c =>
      simp only [State.read] at read
      split at read
      · exact h.enter rfl read
      · cases read
        exact h.leave origin _
      · cases read
        exact h.plain origin (groupsAfter_markKind c)
  | refused => cases read

private theorem State.Bounded.run {origin : Option String} {s : State} {cs : List Char}
    {tokens : List Token} (h : s.Bounded) (run : run origin s cs = .ok tokens) : Low tokens := by
  fun_induction Scan.run origin s cs with
  | case1 s groups =>
      cases run
      exact h.low
  | case2 => cases run
  | case3 => cases run
  | case4 s c cs lexeme n read_eq text s' read ih =>
      have kept := h.read read
      exact ih ⟨kept.nested, kept.room, kept.low⟩ run

end Scan

/-- Function heads and brackets among the pieces of a source text. An address is one piece. -/
def Piece.bracketing : Bracketing Piece where
  opens p :=
    match p.lexeme with
    | .function _ => some .round
    | .mark c => Scan.opening? c
    | _ => none
  closes p :=
    match p.lexeme with
    | .mark c => Scan.closing? c
    | _ => none

namespace Scan

def Group.OpenedBy (origin : Option String) (group : Group) (p : Piece) : Prop :=
  Piece.bracketing.opens p = some group.bracket ∧ group.span = ⟨origin, p.position⟩

def State.OpenedBy (s : State) (origin : Option String) (stack : List Piece) : Prop :=
  List.Forall₂ (Group.OpenedBy origin) s.groups stack

private theorem State.OpenedBy.enter {s : State} {origin : Option String} {stack : List Piece}
    (h : s.OpenedBy origin stack) {p : Piece} (here : p.position = s.position)
    {bracket : Bracket} (opens : Piece.bracketing.opens p = some bracket) (kind : Token.Kind)
    (room : (Piece.bracketing.next stack p).length ≤ nestingLimit) :
    ∃ s', s.enter origin kind bracket = .ok s' ∧
      s'.OpenedBy origin (Piece.bracketing.next stack p) := by
  rw [Piece.bracketing.next_opening opens] at room ⊢
  have low : ¬nestingLimit ≤ s.groups.length := by
    rw [h.length_eq]
    exact Nat.not_le.2 room
  exact ⟨_, if_neg low, .cons ⟨opens, by rw [here]⟩ h⟩

private theorem State.OpenedBy.leave {s : State} {origin : Option String} {stack : List Piece}
    (h : s.OpenedBy origin stack) {p : Piece} {bracket : Bracket}
    (opens : Piece.bracketing.opens p = none)
    (closes : Piece.bracketing.closes p = some bracket) :
    (s.leave origin bracket).OpenedBy origin (Piece.bracketing.next stack p) := by
  unfold State.OpenedBy at h
  unfold State.leave Bracketing.next
  dsimp only
  rw [opens, closes]
  split
  · rename_i groups
    rw [groups] at h
    cases h
    rw [State.OpenedBy, State.emit, groups]
    exact .nil
  · rename_i group outer groups
    have all := h
    rw [groups] at h
    cases h with
    | cons first rest =>
        dsimp only
        by_cases fits : group.bracket = bracket
        · rw [if_pos fits, if_pos (fits ▸ first.1)]
          exact rest
        · have astray : Piece.bracketing.opens _ ≠ some bracket := fun same =>
            fits (Option.some.inj (first.1.symm.trans same))
          rw [if_neg fits, if_neg astray]
          exact all

private theorem State.OpenedBy.read {s : State} {origin : Option String} {stack : List Piece}
    (h : s.OpenedBy origin stack) {p : Piece} (here : p.position = s.position) (good : ¬p.IsBad)
    (room : (Piece.bracketing.next stack p).length ≤ nestingLimit) :
    ∃ s', s.read origin p.text p.lexeme = .ok s' ∧
      s'.OpenedBy origin (Piece.bracketing.next stack p) := by
  obtain ⟨lexeme, text, position⟩ := p
  cases lexeme with
  | comment closed =>
      cases closed with
      | false => exact absurd trivial good
      | true => exact ⟨_, rfl, h⟩
  | string text closed =>
      cases closed with
      | false => exact absurd trivial good
      | true => exact ⟨_, rfl, h⟩
  | refused => exact absurd trivial good
  | function name => exact h.enter here rfl _ room
  | mark c =>
      simp only [State.read]
      cases opens : opening? c with
      | some bracket => exact h.enter here opens _ room
      | none =>
          cases closes : closing? c with
          | some bracket => exact ⟨_, rfl, h.leave opens closes⟩
          | none =>
              have plain :=
                Piece.bracketing.next_plain (x := ⟨.mark c, text, position⟩) opens closes
              rw [plain]
              exact ⟨_, rfl, h⟩
  | _ => exact ⟨_, rfl, h⟩

private theorem State.OpenedBy.run {origin : Option String} {s : State} {stack : List Piece}
    (h : s.OpenedBy origin stack) {cs : List Char} {top : Piece} {outer : List Piece}
    (good : ∀ p ∈ pieces s.position cs, ¬p.IsBad)
    (room : ∀ before after, pieces s.position cs = before ++ after →
      (Piece.bracketing.scan stack before).length ≤ nestingLimit)
    (last : Piece.bracketing.scan stack (pieces s.position cs) = top :: outer) :
    ∃ bracket, Piece.bracketing.opens top = some bracket ∧
      run origin s cs = .error (.unterminatedBlock ⟨origin, top.position⟩ bracket.closing) := by
  induction cs using Lexeme.pieces_induction generalizing s stack with
  | nil =>
      rw [pieces] at last
      obtain rfl : stack = top :: outer := last
      unfold State.OpenedBy at h
      cases groups : s.groups with
      | nil =>
          rw [groups] at h
          cases h
      | cons group rest =>
          rw [groups] at h
          cases h with
          | cons first _ =>
              refine ⟨group.bracket, first.1, ?_⟩
              rw [Scan.run, groups, ← first.2]
  | cons c cs ih =>
      rw [pieces_cons] at good room last
      generalize piece_eq : Piece.mk (Lexeme.next c cs).1 (c :: cs.take (Lexeme.next c cs).2)
        s.position = p at good room last
      obtain ⟨good_p, good_rest⟩ := List.forall_mem_cons.1 good
      obtain ⟨s', read, opened⟩ :=
        h.read (p := p) (by rw [← piece_eq]) good_p (room [p] _ rfl)
      have same := position_read read
      rw [← piece_eq] at read
      let moved : State :=
        { s' with position := s'.position.after (c :: cs.take (Lexeme.next c cs).2) }
      have opened' : moved.OpenedBy origin (Piece.bracketing.next stack p) := opened
      rw [run_cons, read, ok_bind]
      refine ih opened' ?_ ?_ ?_
      · dsimp only [moved]
        rw [same]
        exact good_rest
      · dsimp only [moved]
        rw [same]
        intro before after split
        exact room (p :: before) after (congrArg (p :: ·) split)
      · dsimp only [moved]
        rw [same]
        exact last

end Scan

/-- The stack of the tokens of a source text is empty at the end, and nowhere higher than the
limit, but for the head of an address on top of it. A source text without bad pieces and without
too many groups inside each other whose pieces leave something on the stack gives an error, which
names the top of the stack and the bracket that closes it. -/
theorem Token.scan_brackets (source : String) (origin : Option String) :
    (∀ tokens, Token.scan source origin = .ok tokens →
      Token.stack tokens = [] ∧
        ∀ before after, tokens = before ++ after → Token.Shallow (Token.stack before)) ∧
    ∀ top outer, Piece.bracketing.scan [] (Lexeme.piecesOf source) = top :: outer →
      (∀ p ∈ Lexeme.piecesOf source, ¬p.IsBad) →
      (∀ before after, Lexeme.piecesOf source = before ++ after →
        (Piece.bracketing.scan [] before).length ≤ nestingLimit) →
      ∃ bracket, Piece.bracketing.opens top = some bracket ∧
        Token.scan source origin =
          .error (.unterminatedBlock ⟨origin, top.position⟩ bracket.closing) := by
  constructor
  · intro tokens scanned
    have start : Scan.State.start.Bounded := by
      refine ⟨rfl, Nat.zero_le _, ?_⟩
      intro before after split
      obtain rfl : before = [] := (List.append_eq_nil_iff.1 split.symm).1
      exact .inl (Nat.zero_le _)
    refine ⟨List.eq_nil_of_length_eq_zero ?_, start.run scanned⟩
    rw [Token.length_stack, Token.groupsThrough_of_scan scanned]
    rfl
  · intro top outer last good room
    have start : Scan.State.start.OpenedBy origin [] := .nil
    exact start.run good room last

/-- A square bracket that is astray, and a function head inside braces; neither of the two is
closed. -/
theorem Token.scan_brackets_open :
    (∃ tokens, Token.scan "a\x7b]\x7d" none = .ok tokens ∧ Token.stack tokens = [] ∧
      ∀ before after, tokens = before ++ after → Token.Shallow (Token.stack before)) ∧
    Token.scan "a\x7b]b(" none = .error (.unterminatedBlock ⟨none, ⟨1, 4⟩⟩ ')') := by
  constructor
  · obtain ⟨tokens, scanned⟩ : ∃ tokens, Token.scan "a\x7b]\x7d" none = .ok tokens :=
      exists_ok_of_isOk (by decide +kernel)
    exact ⟨tokens, scanned, (Token.scan_brackets _ none).1 tokens scanned⟩
  · have cut : Lexeme.piecesOf "a\x7b]b(" =
        [⟨.ident "a", ['a'], ⟨1, 1⟩⟩, ⟨.mark '\x7b', ['\x7b'], ⟨1, 2⟩⟩, ⟨.mark ']', [']'], ⟨1, 3⟩⟩,
          ⟨.function "b", ['b', '('], ⟨1, 4⟩⟩] := by
      decide +kernel
    have good : ∀ p ∈ Lexeme.piecesOf "a\x7b]b(", ¬p.IsBad := by
      rw [cut]
      simp [Piece.IsBad]
    have room : ∀ before after, Lexeme.piecesOf "a\x7b]b(" = before ++ after →
        (Piece.bracketing.scan [] before).length ≤ nestingLimit := by
      intro before after split
      have lengths := congrArg List.length split
      rw [cut, List.length_append] at lengths
      have bound := Piece.bracketing.length_scan_le before
      simp only [List.length_cons, List.length_nil] at lengths
      simp only [nestingLimit]
      omega
    obtain ⟨bracket, opens, fails⟩ :=
      (Token.scan_brackets "a\x7b]b(" none).2 _ _ (by rw [cut]; rfl) good room
    cases opens
    exact fails

end ViewStyle
