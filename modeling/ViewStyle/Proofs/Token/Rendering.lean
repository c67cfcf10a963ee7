/-
Scanning the text of a run of tokens gives the same run of tokens. White space and comments have
become single spaces, strings stand between double quotes, and the rest of the text is as it was.
-/

import ViewStyle.Except
import ViewStyle.Proofs.Token.Nesting
import ViewStyle.Proofs.Token.Pieces
import ViewStyle.Proofs.Token.Rereading

set_option autoImplicit false

namespace ViewStyle

open Text (Span Position)

def Piece.kind? (p : Piece) : Option Token.Kind := p.lexeme.kind? p.text

def Lexeme.IsGap : Lexeme → Prop
  | .blank => True
  | .comment true => True
  | _ => False

def layout (begun spaced : Bool) : List Piece → List Char
  | [] => []
  | p :: rest =>
      match p.kind? with
      | none => layout begun true rest
      | some kind =>
          (if begun && spaced then [' '] else []) ++ kind.text.toList ++ layout true false rest

theorem kind?_gap {p : Piece} (gap : p.lexeme.IsGap) : p.kind? = none := by
  unfold Piece.kind?
  unfold Lexeme.IsGap at gap
  split at gap
  · rename_i eq
    rw [eq]
    rfl
  · rename_i eq
    rw [eq]
    rfl
  · exact gap.elim

private theorem layout_gap {p : Piece} (gap : p.lexeme.IsGap) (begun spaced : Bool)
    (rest : List Piece) : layout begun spaced (p :: rest) = layout begun true rest := by
  rw [layout, kind?_gap gap]

private theorem layout_token {lexeme : Lexeme} {text : List Char} {kind : Token.Kind}
    (token : lexeme.kind? text = some kind) (position : Position) (begun spaced : Bool)
    (rest : List Piece) :
    layout begun spaced (⟨lexeme, text, position⟩ :: rest) =
      (if begun && spaced then [' '] else []) ++ kind.text.toList ++ layout true false rest := by
  have here : Piece.kind? ⟨lexeme, text, position⟩ = some kind := token
  rw [layout, here]

namespace Lexeme

private theorem ahead_layout_spaced (ps : List Piece) : ahead (layout true true ps) = [] := by
  induction ps with
  | nil => rfl
  | cons p ps ih =>
      rw [layout]
      split
      · exact ih
      · exact ahead_space (by decide) _

def IsPlain (lexeme : Lexeme) : Prop := lexeme.IsGap ∨ ∀ text, (lexeme.kind? text).isSome

theorem next_gap {c : Char} {cs : List Char} (gap : (next c cs).1.IsGap) :
    isSpace c = true ∨ c = '/' ∧ ['*'] <+: cs := by
  obtain binder | quote | rfl | rfl | plain := first_cases c
  · by_cases here : bound c <+: cs
    · obtain refused | ⟨rfl, -⟩ := next_of_bound binder here
      · rw [refused] at gap
        exact gap.elim
      · exact .inr ⟨rfl, here⟩
    · rw [next_of_not_bound binder here] at gap
      exact gap.elim
  · obtain rfl | rfl : c = '"' ∨ c = '\'' := by simpa [isQuote] using quote
    all_goals exact gap.elim
  · rw [next] at gap
    split at gap <;> exact gap.elim
  · rw [next] at gap
    split at gap <;> exact gap.elim
  · rw [next_eq_common plain, common] at gap
    split at gap
    · exact .inl ‹_›
    · split at gap
      · obtain ⟨_, _, number⟩ := fst_takeNumber (c :: cs)
        rw [number] at gap
        exact gap.elim
      · split at gap
        · exact gap.elim
        · split at gap
          · obtain ⟨_, word⟩ | ⟨_, word⟩ | ⟨_, word⟩ | word := fst_takeWord (c :: cs)
            all_goals
              rw [word] at gap
              exact gap.elim
          · exact gap.elim

theorem isSpace_of_kind? {c : Char} {cs text : List Char} {kind : Token.Kind}
    (token : (next c cs).1.kind? text = some kind) : isSpace c = false := by
  by_contra space
  rw [next_space (by simpa using space)] at token
  cases token

theorem quoted_cons {c : Char} (quote : isQuote c = true) (cs : List Char) : Quoted (c :: cs) := by
  have space : isSpace c = false := by
    obtain rfl | rfl : c = '"' ∨ c = '\'' := by simpa [isQuote] using quote
    all_goals decide
  refine ⟨c, cs, ?_, quote⟩
  rw [blankLength, List.takeWhile_cons_of_neg (by simp [space])]
  rfl

theorem quoted_space {c : Char} (space : isSpace c = true) {cs : List Char} :
    Quoted (c :: cs) ↔ Quoted cs := by
  simp only [Quoted, blankLength, List.takeWhile_cons_of_pos space, List.length_cons,
    List.drop_succ_cons]

theorem isQuote_of_quoted {c : Char} {cs : List Char} (space : isSpace c = false)
    (quoted : Quoted (c :: cs)) : isQuote c = true := by
  obtain ⟨d, rest, start, quote⟩ := quoted
  rw [blankLength, List.takeWhile_cons_of_neg (by simp [space])] at start
  cases start
  exact quote

variable {position : Position} {c : Char} {cs : List Char}

private theorem layout_quote (quote : isQuote c = true)
    (plain : ∀ p ∈ pieces position (c :: cs), p.lexeme.IsPlain) (spaced : Bool) :
    ∃ tail, layout true spaced (pieces position (c :: cs)) =
      (if spaced then [' '] else []) ++ '"' :: tail := by
  rw [pieces_cons] at plain ⊢
  obtain ⟨text, closed, string⟩ : ∃ text closed, (next c cs).1 = .string text closed := by
    obtain rfl | rfl : c = '"' ∨ c = '\'' := by simpa [isQuote] using quote
    all_goals exact ⟨_, _, rfl⟩
  have first := (List.forall_mem_cons.1 plain).1
  dsimp only at first
  rw [string] at first ⊢
  cases closed with
  | false =>
      rcases first with gap | token
      · exact gap.elim
      · cases token []
  | true =>
      have string : Lexeme.kind? (c :: cs.take (next c cs).2) (.string text true) =
        some (.string text) := rfl
      rw [layout_token string, text_string, Bool.true_and, List.append_assoc]
      exact ⟨_, rfl⟩

private theorem follows_layout (unescaped : '\\' ∉ cs)
    (plain : ∀ p ∈ pieces position cs, p.lexeme.IsPlain) :
    Follows (layout true false (pieces position cs)) cs := by
  induction cs using Lexeme.pieces_induction generalizing position with
  | nil =>
      rw [pieces]
      exact ⟨rfl, id⟩
  | cons c cs ih =>
      have all := plain
      rw [pieces_cons] at plain ⊢
      obtain ⟨first, rest⟩ := List.forall_mem_cons.1 plain
      obtain gap | token := first
      · rw [layout_gap gap]
        refine ⟨?_, fun quoted => ?_⟩
        · rw [ahead_layout_spaced]
          obtain space | ⟨rfl, tail, rfl⟩ := next_gap gap
          · exact (ahead_space space cs).symm
          · rfl
        · obtain space | ⟨rfl, -⟩ := next_gap gap
          · rw [next_space space] at rest ⊢
            obtain ⟨d, tail, start, quote⟩ := (quoted_space space).1 quoted
            dsimp only at rest ⊢
            rw [start] at rest ⊢
            obtain ⟨tail', written⟩ := layout_quote quote rest true
            rw [written]
            exact (quoted_space (by decide)).2 (quoted_cons (by decide) tail')
          · cases isQuote_of_quoted (by decide) quoted
      · obtain ⟨kind, kind_eq⟩ := Option.isSome_iff_exists.1 (token (c :: cs.take (next c cs).2))
        have unescaped' : '\\' ∉ cs.drop (next c cs).2 := fun h =>
          unescaped (.tail _ (List.mem_of_mem_drop h))
        have follows := ih unescaped' rest
        have read := readAs_token unescaped rfl kind_eq (follows.behind kind)
        have written := layout_token kind_eq position true false
          (pieces (position.after (c :: cs.take (next c cs).2)) (cs.drop (next c cs).2))
        refine ⟨?_, fun quoted => ?_⟩
        · rw [written]
          exact read.1
        · have space : isSpace c = false := isSpace_of_kind? kind_eq
          obtain ⟨tail, start⟩ := layout_quote (isQuote_of_quoted space quoted) all false
          rw [pieces_cons] at start
          rw [start]
          exact quoted_cons (by decide) tail

end Lexeme

namespace Scan

def State.add (s : State) (origin : Option String) (kind : Token.Kind) : Except ScanError State :=
  match kind.opened?, kind.closed? with
  | some bracket, _ => s.enter origin kind bracket
  | none, some bracket => .ok (s.leave origin bracket)
  | none, none => .ok (s.emit origin kind)

private theorem plain_markKind (c : Char) :
    (markKind c).opened? = none ∧ (markKind c).closed? = none := by
  unfold markKind
  split <;> exact ⟨rfl, rfl⟩

theorem read_eq_add {lexeme : Lexeme} {text : List Char} {kind : Token.Kind}
    (token : lexeme.kind? text = some kind) (s : State) (origin : Option String) :
    s.read origin text lexeme = s.add origin kind := by
  cases lexeme with
  | mark c =>
      cases token
      cases opening : opening? c with
      | some bracket =>
          simp only [State.read, bareKind, opening]
          rfl
      | none =>
          cases closing : closing? c with
          | some bracket =>
              simp only [State.read, bareKind, opening, closing]
              rfl
          | none =>
              simp only [State.read, bareKind, opening, closing, State.add, plain_markKind c]
  | string text closed =>
      cases closed with
      | false => cases token
      | true =>
          cases token
          rfl
  | _ =>
      cases token
      try rfl

theorem read_gap {lexeme : Lexeme} (gap : lexeme.IsGap) (s : State) (origin : Option String)
    (text : List Char) : s.read origin text lexeme = .ok { s with spaced := true } := by
  unfold Lexeme.IsGap at gap
  split at gap
  · rfl
  · rfl
  · exact gap.elim

theorem isPlain_of_read {lexeme : Lexeme} {s s' : State} {origin : Option String}
    {text : List Char} (read : s.read origin text lexeme = .ok s')
    (address : ∀ target, lexeme ≠ .address target) : lexeme.IsPlain := by
  cases lexeme with
  | blank => exact .inl trivial
  | comment closed =>
      cases closed with
      | false => cases read
      | true => exact .inl trivial
  | string text closed =>
      cases closed with
      | false => cases read
      | true => exact .inr fun _ => rfl
  | address target => exact absurd rfl (address target)
  | refused => cases read
  | _ => exact .inr fun _ => rfl

/-- The tokens of two scans from the last one on: they are the same, but only those of the first
scan keep a space before the first token of all. -/
inductive Mirrors : List Token → List Token → Prop
  | nil : Mirrors [] []
  | cons {token token' : Token} {tokens tokens' : List Token} :
      token'.kind = token.kind → token'.spaced = (token.spaced && !tokens.isEmpty) →
        Mirrors tokens tokens' → Mirrors (token :: tokens) (token' :: tokens')

theorem push_joined {token last : Token} {op : Operator} (assign : token.kind = .operator .assign)
    (spaced : token.spaced = false) (joins : joined last.kind = some op) (earlier : List Token) :
    push (last :: earlier) token = { last with kind := .operator op } :: earlier := by
  simp [push, assign, spaced, joins]

theorem push_apart {token : Token} {tokens : List Token}
    (apart : token.kind = .operator .assign → token.spaced = false →
      ∀ last ∈ tokens.head?, joined last.kind = none) : push tokens token = token :: tokens := by
  unfold push
  split
  · rename_i last earlier assign spaced
    rw [apart assign spaced last rfl]
  · rfl

private theorem push_nil (token : Token) : push [] token = [token] :=
  push_apart fun _ _ _ here => by cases here

private theorem Mirrors.push {tokens tokens' : List Token} (h : Mirrors tokens tokens')
    {token token' : Token}
    (kind : token'.kind = token.kind) (spaced : token'.spaced = (token.spaced && !tokens.isEmpty)) :
    Mirrors (push tokens token) (push tokens' token') := by
  cases h with
  | nil =>
      rw [push_nil, push_nil]
      exact .cons kind spaced .nil
  | @cons last last' tokens tokens' last_kind last_spaced rest =>
      have spaced' : token'.spaced = token.spaced := by simpa using spaced
      by_cases joins : token.kind = .operator .assign ∧ token.spaced = false ∧
          ∃ op, joined last.kind = some op
      · obtain ⟨assign, close, op, joins⟩ := joins
        rw [push_joined assign close joins,
          push_joined (kind.trans assign) (spaced'.trans close) (last_kind ▸ joins)]
        exact .cons rfl last_spaced rest
      · have apart (assign : token.kind = .operator .assign) (close : token.spaced = false) :
            joined last.kind = none :=
          Option.eq_none_iff_forall_ne_some.2 fun op here => joins ⟨assign, close, op, here⟩
        rw [push_apart fun assign close t here => by
            cases here
            exact apart assign close,
          push_apart fun assign close t here => by
            cases here
            rw [last_kind]
            exact apart (kind.symm.trans assign) (spaced'.symm.trans close)]
        exact .cons kind spaced (.cons last_kind last_spaced rest)

structure State.Mirrors (s s' : State) : Prop where
  tokens : Scan.Mirrors s.tokens s'.tokens
  groups : s'.groups.map (·.bracket) = s.groups.map (·.bracket)
  spaced : s'.spaced = (s.spaced && !s.tokens.isEmpty)

private theorem State.Mirrors.emit {s s' : State} (h : s.Mirrors s')
    (origin origin' : Option String) (kind : Token.Kind) :
    (s.emit origin kind).Mirrors (s'.emit origin' kind) where
  tokens := h.tokens.push rfl h.spaced
  groups := h.groups
  spaced := rfl

private theorem State.Mirrors.enter {s s' t : State} (h : s.Mirrors s') {origin : Option String}
    (origin' : Option String) {kind : Token.Kind} {bracket : Bracket}
    (entered : s.enter origin kind bracket = .ok t) :
    ∃ t', s'.enter origin' kind bracket = .ok t' ∧ t.Mirrors t' := by
  have length : s'.groups.length = s.groups.length := by
    simpa using congrArg List.length h.groups
  unfold State.enter at entered ⊢
  dsimp only at entered ⊢
  rw [length]
  split at entered
  · cases entered
  · rename_i room
    cases entered
    rw [if_neg room]
    have emitted := h.emit origin origin' kind
    exact ⟨_, rfl, emitted.tokens, congrArg (bracket :: ·) emitted.groups, emitted.spaced⟩

private theorem State.Mirrors.leave {s s' : State} (h : s.Mirrors s')
    (origin origin' : Option String) (bracket : Bracket) :
    (s.leave origin bracket).Mirrors (s'.leave origin' bracket) := by
  have emitted := h.emit origin origin' (.punct (.closing bracket))
  have groups := h.groups
  unfold State.leave
  dsimp only
  cases here : s.groups with
  | nil =>
      rw [here, List.map_nil, List.map_eq_nil_iff] at groups
      rw [groups]
      exact emitted
  | cons group outer =>
      rw [here, List.map_cons] at groups
      obtain ⟨group', outer', here', bracket_eq, outer_eq⟩ := List.map_eq_cons_iff.1 groups
      rw [here']
      dsimp only
      rw [bracket_eq]
      split
      · exact ⟨emitted.tokens, outer_eq, emitted.spaced⟩
      · exact emitted

private theorem State.Mirrors.add {s s' t : State} (h : s.Mirrors s') {origin : Option String}
    (origin' : Option String) {kind : Token.Kind} (added : s.add origin kind = .ok t) :
    ∃ t', s'.add origin' kind = .ok t' ∧ t.Mirrors t' := by
  unfold State.add at added ⊢
  split at added
  · exact h.enter origin' added
  · cases added
    exact ⟨_, rfl, h.leave origin origin' _⟩
  · cases added
    exact ⟨_, rfl, h.emit origin origin' kind⟩

theorem tokens_add {s t : State} {origin : Option String} {kind : Token.Kind}
    (added : s.add origin kind = .ok t) :
    t.tokens = push s.tokens ⟨kind, ⟨origin, s.position⟩, s.spaced⟩ ∧ t.spaced = false := by
  unfold State.add at added
  split at added
  · unfold State.enter at added
    dsimp only at added
    split at added
    · cases added
    · cases added
      exact ⟨rfl, rfl⟩
  · rename_i bracket _ closed
    cases added
    rw [Token.Kind.eq_of_closed? closed]
    unfold State.leave
    dsimp only
    split
    · exact ⟨rfl, rfl⟩
    · split <;> exact ⟨rfl, rfl⟩
  · cases added
    exact ⟨rfl, rfl⟩

private theorem push_ne_nil (tokens : List Token) (token : Token) : push tokens token ≠ [] := by
  unfold push
  split
  · split <;> nofun
  · nofun

end Scan

namespace Token

def chars (tokens : List Token) : List Char := (render tokens).toList

private theorem chars_snoc (tokens : List Token) (token : Token) :
    chars (tokens ++ [token]) =
      chars tokens ++ (if token.spaced && !tokens.isEmpty then [' '] else []) ++
        token.kind.text.toList := by
  cases tokens with
  | nil => simp [chars, render, renderRest]
  | cons first rest =>
      cases spaced : token.spaced <;>
        simp [chars, render, renderRest, spaced]

theorem text_joined {kind : Token.Kind} {op : Operator} (h : Scan.joined kind = some op) :
    op.text.toList = kind.text.toList ++ ['='] := by
  unfold Scan.joined at h
  split at h <;> cases h <;> rfl

private theorem chars_push (tokens : List Token) (token : Token) :
    chars (Scan.push tokens token).reverse =
      chars tokens.reverse ++ (if token.spaced && !tokens.isEmpty then [' '] else []) ++
        token.kind.text.toList := by
  have added := chars_snoc tokens.reverse token
  rw [List.isEmpty_reverse, ← List.reverse_cons] at added
  unfold Scan.push
  split
  · rename_i last earlier assign spaced
    split
    · rename_i op joins
      have before := chars_snoc earlier.reverse last
      rw [← List.reverse_cons] at before
      rw [List.reverse_cons, chars_snoc, before, spaced, assign]
      show _ ++ _ ++ op.text.toList = _
      rw [text_joined joins]
      simp
      rfl
    · exact added
  · exact added

end Token

namespace Scan

private theorem Mirrors.chars {tokens tokens' : List Token} (h : Mirrors tokens tokens') :
    Token.chars tokens'.reverse = Token.chars tokens.reverse := by
  induction h with
  | nil => rfl
  | @cons token token' tokens tokens' kind spaced rest ih =>
      have empty : tokens'.isEmpty = tokens.isEmpty := by
        cases rest <;> rfl
      rw [List.reverse_cons, List.reverse_cons, Token.chars_snoc, Token.chars_snoc, ih, kind,
        spaced, List.isEmpty_reverse, List.isEmpty_reverse, empty, Bool.and_assoc, Bool.and_self]

private theorem Mirrors.kinds {tokens tokens' : List Token} (h : Mirrors tokens tokens') :
    tokens'.map (·.kind) = tokens.map (·.kind) := by
  induction h with
  | nil => rfl
  | cons kind _ _ ih => rw [List.map_cons, List.map_cons, kind, ih]

private theorem Mirrors.flags {tokens tokens' : List Token} (h : Mirrors tokens tokens') :
    tokens'.reverse.map (·.spaced) = (tokens.reverse.map (·.spaced)).set 0 false := by
  induction h with
  | nil => rfl
  | @cons token token' tokens tokens' kind spaced rest ih =>
      rw [List.reverse_cons, List.map_append, ih, List.reverse_cons, List.map_append]
      cases tokens with
      | nil => simp [spaced]
      | cons last earlier =>
          rw [List.set_append_left _ _ (by simp)]
          simp [spaced]

theorem run_piece {origin : Option String} {s : State} {c : Char} {cs : List Char}
    {tokens : List Token} (plain : (Lexeme.next c cs).1.IsPlain)
    (run : run origin s (c :: cs) = .ok tokens) :
    let text := c :: cs.take (Lexeme.next c cs).2
    let rest := cs.drop (Lexeme.next c cs).2
    (Lexeme.next c cs).1.IsGap ∧
        Scan.run origin { s with spaced := true, position := s.position.after text } rest =
          .ok tokens ∨
      ∃ kind t, (Lexeme.next c cs).1.kind? text = some kind ∧ s.add origin kind = .ok t ∧
        Scan.run origin { t with position := s.position.after text } rest = .ok tokens := by
  rw [run_cons] at run
  obtain ⟨t, read, run⟩ := bind_eq_ok run
  rw [position_read read] at run
  rcases plain with gap | token
  · rw [read_gap gap] at read
    cases read
    exact .inl ⟨gap, run⟩
  · obtain ⟨kind, kind_eq⟩ := Option.isSome_iff_exists.1 (token (c :: cs.take (Lexeme.next c cs).2))
    rw [read_eq_add kind_eq] at read
    exact .inr ⟨kind, t, kind_eq, read, run⟩

private theorem not_isEmpty_add {s t : State} {origin : Option String} {kind : Token.Kind}
    (added : s.add origin kind = .ok t) : (!t.tokens.isEmpty) = true := by
  rw [(tokens_add added).1, List.isEmpty_eq_false_iff.2 (push_ne_nil _ _)]
  rfl

private theorem chars_run {origin : Option String} {s : State} {cs : List Char}
    {tokens : List Token} (plain : ∀ p ∈ pieces s.position cs, p.lexeme.IsPlain)
    (run : run origin s cs = .ok tokens) :
    Token.chars tokens =
      Token.chars s.tokens.reverse ++
        layout (!s.tokens.isEmpty) s.spaced (pieces s.position cs) := by
  induction cs using Lexeme.pieces_induction generalizing s with
  | nil =>
      rw [Scan.run] at run
      split at run
      · cases run
        rw [pieces, layout, List.append_nil]
      · cases run
  | cons c cs ih =>
      rw [pieces_cons] at plain ⊢
      obtain ⟨first, rest⟩ := List.forall_mem_cons.1 plain
      obtain ⟨gap, run⟩ | ⟨kind, t, kind_eq, added, run⟩ := run_piece first run
      · rw [ih rest run, layout_gap gap]
      · obtain ⟨tokens_eq, spaced⟩ := tokens_add added
        have later := ih rest run
        rw [later, layout_token kind_eq]
        dsimp only
        rw [not_isEmpty_add added, spaced, tokens_eq, Token.chars_push]
        simp only [Bool.and_comm, List.append_assoc]

theorem run_space (origin : Option String) (s : State) (gap : Bool) {d : Char}
    (inside : Lexeme.isSpace d = false) (rest : List Char) (spaced : s.spaced = false) :
    ∃ position, run origin s ((if gap then [' '] else []) ++ d :: rest) =
      run origin { s with spaced := gap, position := position } (d :: rest) := by
  cases gap with
  | false =>
      obtain ⟨position, flag, groups, tokens⟩ := s
      cases spaced
      exact ⟨position, rfl⟩
  | true =>
      have none : Lexeme.blankLength (d :: rest) = 0 := by
        rw [Lexeme.blankLength, List.takeWhile_cons_of_neg (by simp [inside])]
        rfl
      have read : Lexeme.next ' ' (d :: rest) = (.blank, 0) := by
        rw [Lexeme.next_space (by decide), none]
      refine ⟨s.position.after [' '], ?_⟩
      show run origin s (' ' :: d :: rest) = _
      rw [run_cons, read]
      rfl

private theorem run_layout {origin origin' : Option String} {s s' : State} {cs : List Char}
    {tokens : List Token} (unescaped : '\\' ∉ cs)
    (plain : ∀ p ∈ pieces s.position cs, p.lexeme.IsPlain)
    (mirrors : Mirrors s.tokens s'.tokens)
    (groups : s'.groups.map (·.bracket) = s.groups.map (·.bracket)) (spaced : s'.spaced = false)
    (run : run origin s cs = .ok tokens) :
    ∃ tokens', Scan.run origin' s' (layout (!s.tokens.isEmpty) s.spaced (pieces s.position cs)) =
      .ok tokens' ∧ Mirrors tokens.reverse tokens'.reverse := by
  induction cs using Lexeme.pieces_induction generalizing s s' with
  | nil =>
      rw [Scan.run] at run
      split at run
      · rename_i none
        cases run
        rw [none, List.map_nil, List.map_eq_nil_iff] at groups
        rw [pieces, layout, Scan.run, groups]
        exact ⟨_, rfl, by simpa using mirrors⟩
      · cases run
  | cons c cs ih =>
      have unescaped' : '\\' ∉ cs.drop (Lexeme.next c cs).2 := fun h =>
        unescaped (.tail _ (List.mem_of_mem_drop h))
      rw [pieces_cons] at plain ⊢
      obtain ⟨first, rest⟩ := List.forall_mem_cons.1 plain
      obtain ⟨gap, run⟩ | ⟨kind, t, kind_eq, added, run⟩ := run_piece first run
      · rw [layout_gap gap]
        exact @ih { s with spaced := true, position := _ } s' unescaped' rest mirrors groups spaced
          run
      · have follows := Lexeme.follows_layout unescaped' rest
        have pair : Lexeme.next c cs = ((Lexeme.next c cs).1, (Lexeme.next c cs).2) := rfl
        obtain ⟨-, d, w, text, again, kind_eq'⟩ :=
          Lexeme.readAs_token unescaped pair kind_eq (follows.behind kind)
        have inside : Lexeme.isSpace d = false := by
          rw [← congrArg Prod.fst again] at kind_eq
          exact Lexeme.isSpace_of_kind? kind_eq
        rw [layout_token kind_eq, List.append_assoc, text, List.cons_append]
        rw [text] at kind_eq'
        obtain ⟨position, moved⟩ := run_space origin' s' (!s.tokens.isEmpty && s.spaced) inside
          (w ++ layout true false (pieces (s.position.after (c :: cs.take (Lexeme.next c cs).2))
            (cs.drop (Lexeme.next c cs).2))) spaced
        have together : s.Mirrors
            { s' with spaced := !s.tokens.isEmpty && s.spaced, position := position } :=
          ⟨mirrors, groups, Bool.and_comm _ _⟩
        obtain ⟨t', added', mirrors'⟩ := together.add origin' added
        obtain ⟨-, closed⟩ := tokens_add added
        have spaced' : t'.spaced = false := by rw [mirrors'.spaced, closed, Bool.false_and]
        rw [moved, run_cons, again, List.take_left, List.drop_left, read_eq_add kind_eq', added',
          ok_bind]
        have later := @ih { t with position := _ }
          { t' with position := t'.position.after (d :: w) } unescaped' rest mirrors'.tokens
          mirrors'.groups spaced' run
        dsimp only at later
        rw [not_isEmpty_add added, closed] at later
        exact later

theorem isPlain_of_run {origin : Option String} {s : State} {cs : List Char} {tokens : List Token}
    (addresses : ∀ p ∈ pieces s.position cs, ∀ target, p.lexeme ≠ .address target)
    (run : run origin s cs = .ok tokens) : ∀ p ∈ pieces s.position cs, p.lexeme.IsPlain := by
  induction cs using Lexeme.pieces_induction generalizing s with
  | nil =>
      rw [pieces]
      exact fun p member => (List.not_mem_nil member).elim
  | cons c cs ih =>
      rw [pieces_cons] at addresses ⊢
      obtain ⟨first, rest⟩ := List.forall_mem_cons.1 addresses
      rw [run_cons] at run
      obtain ⟨t, read, run⟩ := bind_eq_ok run
      rw [position_read read] at run
      exact List.forall_mem_cons.2 ⟨isPlain_of_read read first, ih rest run⟩

end Scan

/-- The text of the tokens of a source text has the same tokens, and the same spaces between them,
so that it is its own text again. There is no backslash in the source text, and every address is
quoted. -/
theorem Token.scan_render {source : String} {origin : Option String} {tokens : List Token}
    (unescaped : '\\' ∉ source.toList)
    (quoted : ∀ p ∈ Lexeme.piecesOf source, ∀ target, p.lexeme ≠ .address target)
    (scanned : Token.scan source origin = .ok tokens) (origin' : Option String) :
    ∃ tokens', Token.scan (Token.render tokens) origin' = .ok tokens' ∧
      tokens'.map (·.kind) = tokens.map (·.kind) ∧
      tokens'.map (·.spaced) = (tokens.map (·.spaced)).set 0 false ∧
      Token.render tokens' = Token.render tokens := by
  have plain := Scan.isPlain_of_run (s := .start) quoted scanned
  have text : (Token.render tokens).toList = layout false false (Lexeme.piecesOf source) :=
    Scan.chars_run (s := .start) plain scanned
  obtain ⟨tokens', again, mirrors⟩ :=
    @Scan.run_layout origin origin' .start .start _ _ unescaped plain .nil rfl rfl scanned
  refine ⟨tokens', ?_, ?_, ?_, ?_⟩
  · rw [Token.scan, text]
    exact again
  · simpa using mirrors.kinds
  · simpa using mirrors.flags
  · have chars := mirrors.chars
    rw [List.reverse_reverse, List.reverse_reverse] at chars
    exact String.toList_injective chars

/-- A comment becomes a space, a string changes its quotes, and the operator stays whole. -/
theorem Token.scan_render_comment :
    ∃ tokens tokens', Token.scan " a<=/**/'\x22'-b " none = .ok tokens ∧
      Token.render tokens = "a<= \x22\\\x22\x22-b" ∧
      Token.scan (Token.render tokens) none = .ok tokens' ∧
      tokens'.map (·.kind) = tokens.map (·.kind) ∧
      tokens'.map (·.spaced) = (tokens.map (·.spaced)).set 0 false ∧
      Token.render tokens' = Token.render tokens := by
  obtain ⟨tokens, scanned, text⟩ : ∃ tokens,
      Token.scan " a<=/**/'\x22'-b " none = .ok tokens ∧
        Token.render tokens = "a<= \x22\\\x22\x22-b" :=
    exists_ok_of_any (by decide +kernel)
  have cut : Lexeme.piecesOf " a<=/**/'\x22'-b " =
      [⟨.blank, [' '], ⟨1, 1⟩⟩, ⟨.ident "a", ['a'], ⟨1, 2⟩⟩, ⟨.mark '<', ['<'], ⟨1, 3⟩⟩,
        ⟨.mark '=', ['='], ⟨1, 4⟩⟩, ⟨.comment true, ['/', '*', '*', '/'], ⟨1, 5⟩⟩,
        ⟨.string "\x22" true, ['\'', '"', '\''], ⟨1, 9⟩⟩, ⟨.ident "-b", ['-', 'b'], ⟨1, 12⟩⟩,
        ⟨.blank, [' '], ⟨1, 14⟩⟩] := by
    decide +kernel
  have quoted :
      ∀ p ∈ Lexeme.piecesOf " a<=/**/'\x22'-b ", ∀ target, p.lexeme ≠ .address target := by
    rw [cut]
    simp
  exact ⟨tokens, _, scanned, text, (Token.scan_render (by decide) quoted scanned none).choose_spec⟩

end ViewStyle
