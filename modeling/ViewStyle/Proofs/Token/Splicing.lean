/-
Tokens that were cut out of source texts and put together in another order. Their text is scanned
as these tokens if every lexeme stays what it is in front of what is behind it now. A lexeme of a
source text does in front of all texts that can stand in the place of the one behind it there.
-/

import Mathlib.Data.List.Chain
import ViewStyle.Proofs.Token.Brackets
import ViewStyle.Proofs.Token.Rendering

set_option autoImplicit false

namespace ViewStyle

open Text (Span Position)

namespace Token

/-- What of a token shows in a text. -/
structure Face where
  kind : Kind
  spaced : Bool

def face (token : Token) : Face := ⟨token.kind, token.spaced⟩

def Kind.front? : Kind → Option Kind
  | .operator .lessEqual => some (.operator .less)
  | .operator .greaterEqual => some (.operator .greater)
  | .operator .equal => some (.operator .assign)
  | .operator .notEqual => some (.punct .bang)
  | _ => none

def Kind.start (kind : Kind) : Kind := kind.front?.getD kind

def Face.lexed (f : Face) : List Face :=
  match f.kind.front? with
  | some front => [⟨front, f.spaced⟩, ⟨.operator .assign, false⟩]
  | none => [f]

def lexed (tokens : List Token) : List Face := tokens.flatMap fun token => token.face.lexed

@[simp] theorem lexed_cons (token : Token) (rest : List Token) :
    lexed (token :: rest) = token.face.lexed ++ lexed rest :=
  List.flatMap_cons

@[simp] theorem lexed_append (tokens rest : List Token) :
    lexed (tokens ++ rest) = lexed tokens ++ lexed rest :=
  List.flatMap_append

private theorem lexed_eq_flatMap (tokens : List Token) :
    lexed tokens = (tokens.map face).flatMap Face.lexed := by
  rw [List.flatMap_map]
  rfl

theorem Face.lexed_of_none {f : Face} (h : f.kind.front? = none) : f.lexed = [f] := by
  rw [lexed, h]

theorem Face.lexed_of_some {f : Face} {front : Kind} (h : f.kind.front? = some front) :
    f.lexed = [⟨front, f.spaced⟩, ⟨.operator .assign, false⟩] := by
  rw [lexed, h]

def Face.text (f : Face) : List Char := (if f.spaced then [' '] else []) ++ f.kind.text.toList

def written (faces : List Face) : List Char := faces.flatMap Face.text

@[simp] theorem written_cons (f : Face) (rest : List Face) :
    written (f :: rest) = f.text ++ written rest :=
  List.flatMap_cons

@[simp] theorem written_append (faces rest : List Face) :
    written (faces ++ rest) = written faces ++ written rest :=
  List.flatMap_append

private theorem Kind.front?_joined {kind : Kind} {op : Operator} (h : Scan.joined kind = some op) :
    Kind.front? (.operator op) = some kind ∧ kind.front? = none := by
  unfold Scan.joined at h
  split at h <;> cases h <;> exact ⟨rfl, rfl⟩

private theorem Kind.joined_front? {kind front : Kind} (h : kind.front? = some front) :
    ∃ op, kind = .operator op ∧ Scan.joined front = some op := by
  unfold Kind.front? at h
  split at h <;> cases h <;> exact ⟨_, rfl, rfl⟩

private theorem Kind.front?_of_kind? {lexeme : Lexeme} {text : List Char} {kind : Kind}
    (h : lexeme.kind? text = some kind) : kind.front? = none := by
  cases lexeme with
  | mark c =>
      cases h
      unfold Scan.bareKind
      split
      · rfl
      · rfl
      · unfold Scan.markKind
        split <;> rfl
  | string text closed =>
      cases closed <;> cases h
      rfl
  | _ => cases h <;> rfl

theorem Face.written_lexed (f : Face) : written f.lexed = f.text := by
  cases front : f.kind.front? with
  | none => simp [Face.lexed_of_none front, written]
  | some kind =>
      obtain ⟨op, op_eq, joins⟩ := Kind.joined_front? front
      have assign : Operator.assign.text.toList = ['='] := rfl
      rw [Face.lexed_of_some front]
      simp [written, Face.text, op_eq, Kind.text, text_joined joins, assign]

theorem written_lexed (tokens : List Token) :
    written (lexed tokens) = written (tokens.map face) := by
  induction tokens with
  | nil => rfl
  | cons token rest ih =>
      rw [lexed_cons, written_append, Face.written_lexed, ih, List.map_cons, written_cons]

/-! ### Reading in front of a text -/

def Kind.Reads (kind : Kind) (y : List Char) : Prop :=
  ∃ d w lexeme, kind.text.toList = d :: w ∧ Lexeme.next d (w ++ y) = (lexeme, w.length) ∧
    lexeme.kind? (d :: w) = some kind

/-- Each of some lexemes is read as it is in front of the next ones and another text. -/
def Legible : List Face → List Char → Prop
  | [], _ => True
  | f :: rest, y => f.kind.Reads (written rest ++ y) ∧ Legible rest y

@[simp] theorem legible_append {faces rest : List Face} {y : List Char} :
    Legible (faces ++ rest) y ↔ Legible faces (written rest ++ y) ∧ Legible rest y := by
  induction faces with
  | nil => simp [Legible]
  | cons f faces ih => simp [Legible, ih, and_assoc]

/-- A lexeme in a source text, between the texts `x` and `x'`: it is read as it is in front of all
texts that can stand in the place of `x'`, and together they can stand in the place of `x`. -/
def Face.Fits (f : Face) (x x' : List Char) : Prop :=
  ∀ y, Lexeme.Behind f.kind y x' → f.kind.Reads y ∧ Lexeme.Follows (f.text ++ y) x

/-- Lexemes that stand in a source text one behind the other. -/
def Stands : List Face → List Char → List Char → Prop
  | [], x, x' => x = x'
  | f :: rest, x, x'' => ∃ x', f.Fits x x' ∧ Stands rest x' x''

theorem stands_append {faces rest : List Face} {x x'' : List Char} :
    Stands (faces ++ rest) x x'' ↔ ∃ x', Stands faces x x' ∧ Stands rest x' x'' := by
  induction faces generalizing x with
  | nil => simp [Stands]
  | cons f faces ih =>
      simp only [List.cons_append, Stands, ih]
      constructor
      · rintro ⟨x₁, fits, x', stands, stands'⟩
        exact ⟨x', ⟨x₁, fits, stands⟩, stands'⟩
      · rintro ⟨x', ⟨x₁, fits, stands⟩, stands'⟩
        exact ⟨x₁, fits, x', stands, stands'⟩

theorem Stands.legible {faces : List Face} {x x' y : List Char} (h : Stands faces x x')
    (follows : Lexeme.Follows y x') :
    Legible faces y ∧ Lexeme.Follows (written faces ++ y) x := by
  induction faces generalizing x with
  | nil =>
      cases h
      exact ⟨trivial, follows⟩
  | cons f rest ih =>
      obtain ⟨x₁, fits, stands⟩ := h
      obtain ⟨legible, follows'⟩ := ih stands
      obtain ⟨reads, follows''⟩ := fits _ (follows'.behind f.kind)
      rw [written_cons, List.append_assoc]
      exact ⟨⟨reads, legible⟩, follows''⟩

end Token

namespace Lexeme

open Token (Face Stands)

def faces (spaced : Bool) : List Piece → List Face
  | [] => []
  | p :: rest =>
      match p.kind? with
      | none => faces true rest
      | some kind => ⟨kind, spaced⟩ :: faces false rest

private theorem faces_gap {p : Piece} (gap : p.lexeme.IsGap) (spaced : Bool) (rest : List Piece) :
    faces spaced (p :: rest) = faces true rest := by
  rw [faces, kind?_gap gap]

private theorem faces_token {lexeme : Lexeme} {text : List Char} {kind : Token.Kind}
    (token : lexeme.kind? text = some kind) (position : Position) (spaced : Bool)
    (rest : List Piece) :
    faces spaced (⟨lexeme, text, position⟩ :: rest) = ⟨kind, spaced⟩ :: faces false rest := by
  have here : Piece.kind? ⟨lexeme, text, position⟩ = some kind := token
  rw [faces, here]

def Reaches (spaced : Bool) (x cs : List Char) : Prop :=
  if spaced then ahead x = [] ∧ (Quoted x → Quoted cs) else x = cs

variable {c : Char} {cs : List Char}

private theorem quoted_of_gap (gap : (next c cs).1.IsGap) (quoted : Quoted (c :: cs)) :
    Quoted (cs.drop (next c cs).2) := by
  obtain space | ⟨rfl, -⟩ := next_gap gap
  · obtain ⟨d, tail, start, quote⟩ := (quoted_space space).1 quoted
    rw [next_space space]
    dsimp only
    rw [start]
    exact quoted_cons quote tail
  · cases isQuote_of_quoted (by decide) quoted

private theorem Reaches.gap {spaced : Bool} {x : List Char} (h : Reaches spaced x (c :: cs))
    (gap : (next c cs).1.IsGap) : Reaches true x (cs.drop (next c cs).2) := by
  cases spaced with
  | true => exact ⟨h.1, fun quoted => quoted_of_gap gap (h.2 quoted)⟩
  | false =>
      obtain rfl : x = c :: cs := h
      refine ⟨?_, quoted_of_gap gap⟩
      obtain space | ⟨rfl, tail, rfl⟩ := next_gap gap
      · exact ahead_space space cs
      · rfl

private theorem quoted_text {kind : Token.Kind} (quote : isQuote c = true)
    (token : (next c cs).1.kind? (c :: cs.take (next c cs).2) = some kind) (spaced : Bool)
    (y : List Char) : Quoted (Face.text ⟨kind, spaced⟩ ++ y) := by
  obtain ⟨text, closed, string⟩ : ∃ text closed, (next c cs).1 = .string text closed := by
    obtain rfl | rfl : c = '"' ∨ c = '\'' := by simpa [isQuote] using quote
    all_goals exact ⟨_, _, rfl⟩
  rw [string] at token
  cases closed with
  | false => cases token
  | true =>
      cases token
      have inside : Quoted ('"' :: (Token.escapeQuotes text.toList ++ ['"'] ++ y)) :=
        quoted_cons (by decide) _
      cases spaced with
      | false => simpa [Face.text, text_string] using inside
      | true =>
          have behind := (quoted_space (c := ' ') (by decide)).2 inside
          simpa [Face.text, text_string] using behind

private theorem fits_next {kind : Token.Kind} (unescaped : '\\' ∉ c :: cs)
    (token : (next c cs).1.kind? (c :: cs.take (next c cs).2) = some kind) {spaced : Bool}
    {x : List Char} (reaches : Reaches spaced x (c :: cs)) :
    Face.Fits ⟨kind, spaced⟩ x (cs.drop (next c cs).2) := by
  intro y behind
  have pair : next c cs = ((next c cs).1, (next c cs).2) := rfl
  obtain ⟨seen, d, w, text, again, token'⟩ := readAs_token unescaped pair token behind
  rw [text] at token'
  have space : isSpace c = false := isSpace_of_kind? token
  refine ⟨⟨d, w, _, text, again, token'⟩, ?_, fun quoted => ?_⟩
  · cases spaced with
    | true => exact (ahead_space (by decide) _).trans reaches.1.symm
    | false =>
        obtain rfl : x = c :: cs := reaches
        exact seen
  · have quoted' : Quoted (c :: cs) := by
      cases spaced with
      | true => exact reaches.2 quoted
      | false => exact (show x = c :: cs from reaches) ▸ quoted
    exact quoted_text (isQuote_of_quoted space quoted') token spaced y

private theorem exists_stands {position : Position} (unescaped : '\\' ∉ cs)
    (plain : ∀ p ∈ pieces position cs, p.lexeme.IsPlain) {spaced : Bool} {x : List Char}
    (reaches : Reaches spaced x cs) : ∃ x', Stands (faces spaced (pieces position cs)) x x' := by
  induction cs using pieces_induction generalizing position spaced x with
  | nil =>
      rw [pieces]
      exact ⟨x, rfl⟩
  | cons c cs ih =>
      have unescaped' : '\\' ∉ cs.drop (next c cs).2 := fun h =>
        unescaped (.tail _ (List.mem_of_mem_drop h))
      rw [pieces_cons] at plain ⊢
      obtain ⟨first, rest⟩ := List.forall_mem_cons.1 plain
      obtain gap | token := first
      · rw [faces_gap gap]
        exact ih unescaped' rest (reaches.gap gap)
      · obtain ⟨kind, kind_eq⟩ := Option.isSome_iff_exists.1 (token (c :: cs.take (next c cs).2))
        obtain ⟨x', stands⟩ := ih unescaped' rest (show Reaches false _ _ from rfl)
        rw [faces_token kind_eq]
        exact ⟨x', _, fits_next unescaped kind_eq reaches, stands⟩

end Lexeme

def Token.Face.Unjoined (a b : Face) : Prop :=
  b.kind.start = .operator .assign → b.spaced = false → Scan.joined a.kind = none

def Token.Unjoined (a b : Token) : Prop := a.face.Unjoined b.face

namespace Scan

open Token (face lexed Unjoined)

private theorem push_joined_or_apart {token : Token} (single : token.kind.front? = none)
    (tokens : List Token) :
    (∃ last earlier op, tokens = last :: earlier ∧ joined last.kind = some op ∧
      token.face = ⟨.operator .assign, false⟩ ∧
        push tokens token = { last with kind := .operator op } :: earlier) ∨
      push tokens token = token :: tokens ∧ ∀ last ∈ tokens.head?, Unjoined last token := by
  have start : token.kind.start = token.kind := by rw [Token.Kind.start, single, Option.getD_none]
  by_cases joins : token.kind = .operator .assign ∧ token.spaced = false ∧
      ∃ last ∈ tokens.head?, ∃ op, joined last.kind = some op
  · obtain ⟨assign, close, last, head, op, joins⟩ := joins
    obtain ⟨earlier, rfl⟩ := List.head?_eq_some_iff.1 head
    exact .inl ⟨last, earlier, op, rfl, joins, by rw [face, assign, close],
      push_joined assign close joins earlier⟩
  · have apart : ∀ last ∈ tokens.head?, Unjoined last token := by
      intro last head assign close
      exact Option.eq_none_iff_forall_ne_some.2 fun op here =>
        joins ⟨start.symm.trans assign, close, last, head, op, here⟩
    exact .inr ⟨push_apart fun assign close last head =>
      apart last head (start.trans assign) close, apart⟩

private theorem lexed_push {token : Token} (single : token.kind.front? = none)
    (tokens : List Token) :
    lexed (push tokens token).reverse = lexed tokens.reverse ++ [token.face] := by
  have alone {token : Token} (single : token.kind.front? = none) : lexed [token] = [token.face] :=
    (List.append_nil _).trans (Token.Face.lexed_of_none single)
  obtain ⟨last, earlier, op, rfl, joins, assign, pushed⟩ | ⟨pushed, -⟩ :=
    push_joined_or_apart single tokens
  · obtain ⟨front, single'⟩ := Token.Kind.front?_joined joins
    have whole : lexed [{ last with kind := .operator op }] =
        [last.face, ⟨.operator .assign, false⟩] :=
      (List.append_nil _).trans (Token.Face.lexed_of_some front)
    rw [pushed, List.reverse_cons, List.reverse_cons, Token.lexed_append, Token.lexed_append, whole,
      alone single', assign, List.append_assoc]
    rfl
  · rw [pushed, List.reverse_cons, Token.lexed_append, alone single]

private theorem chain_push {token : Token} (single : token.kind.front? = none) {tokens : List Token}
    (h : tokens.IsChain fun b a => Unjoined a b) :
    (push tokens token).IsChain fun b a => Unjoined a b := by
  obtain ⟨last, earlier, op, rfl, joins, -, pushed⟩ | ⟨pushed, apart⟩ :=
    push_joined_or_apart single tokens
  · obtain ⟨first, rest⟩ := List.isChain_cons.1 h
    obtain ⟨front, single'⟩ := Token.Kind.front?_joined joins
    rw [pushed]
    refine List.isChain_cons.2 ⟨fun a head => ?_, rest⟩
    have start : last.kind.start = (Token.Kind.operator op).start := by
      rw [Token.Kind.start, single', Token.Kind.start, front]
      rfl
    intro assign close
    exact first a head (start.trans assign) close
  · rw [pushed]
    exact List.isChain_cons.2 ⟨apart, h⟩

private theorem lexed_run {origin : Option String} {s : State} {cs : List Char}
    {tokens : List Token} (plain : ∀ p ∈ pieces s.position cs, p.lexeme.IsPlain)
    (run : run origin s cs = .ok tokens) (chain : s.tokens.IsChain fun b a => Unjoined a b) :
    lexed tokens = lexed s.tokens.reverse ++ Lexeme.faces s.spaced (pieces s.position cs) ∧
      tokens.IsChain Unjoined := by
  induction cs using Lexeme.pieces_induction generalizing s with
  | nil =>
      rw [Scan.run] at run
      split at run
      · cases run
        rw [pieces, Lexeme.faces, List.append_nil]
        exact ⟨rfl, List.isChain_reverse.2 chain⟩
      · cases run
  | cons c cs ih =>
      rw [pieces_cons] at plain ⊢
      obtain ⟨first, rest⟩ := List.forall_mem_cons.1 plain
      obtain ⟨gap, run⟩ | ⟨kind, t, kind_eq, added, run⟩ := run_piece first run
      · rw [Lexeme.faces_gap gap]
        exact @ih { s with spaced := true, position := _ } rest run chain
      · obtain ⟨tokens_eq, spaced⟩ := tokens_add added
        have single : kind.front? = none := Token.Kind.front?_of_kind? kind_eq
        have chain' : t.tokens.IsChain fun b a => Unjoined a b := by
          rw [tokens_eq]
          exact chain_push single chain
        obtain ⟨later, unjoined⟩ := @ih { t with position := _ } rest run chain'
        refine ⟨?_, unjoined⟩
        rw [later, Lexeme.faces_token kind_eq]
        dsimp only
        rw [tokens_eq, spaced, lexed_push single, List.append_assoc]
        rfl

end Scan

/-- Tokens that show like those of a source text without backslashes and unquoted addresses stand in
a text, and no two of them can become one operator. -/
theorem Token.exists_stands_of_scan {source : String} {origin : Option String}
    {tokens tokens' : List Token} (unescaped : '\\' ∉ source.toList)
    (quoted : ∀ p ∈ Lexeme.piecesOf source, ∀ target, p.lexeme ≠ .address target)
    (scanned : Token.scan source origin = .ok tokens)
    (same : tokens'.map face = tokens.map face) :
    (∃ x x', Stands (lexed tokens') x x') ∧ tokens'.IsChain Unjoined := by
  have plain := Scan.isPlain_of_run (s := .start) quoted scanned
  obtain ⟨lexed_eq, chain⟩ := Scan.lexed_run (s := .start) plain scanned .nil
  obtain ⟨x', stands⟩ :=
    Lexeme.exists_stands unescaped plain (show Lexeme.Reaches false source.toList _ from rfl)
  rw [lexed_eq_flatMap, same, ← lexed_eq_flatMap, lexed_eq]
  refine ⟨⟨_, x', stands⟩, (List.isChain_map face).1 ?_⟩
  rw [same]
  exact (List.isChain_map face).2 chain

/-! ### Scanning what was put together -/

/-- There is room for every group that is opened, and all of them are closed at the end. -/
def Token.Closes : List Bracket → List Token → Prop
  | groups, [] => groups = []
  | groups, token :: rest =>
      (token.kind.opens = true → groups.length < nestingLimit) ∧
        Closes (groupsAfter token.kind groups) rest

instance Token.decidableCloses :
    (groups : List Bracket) → (tokens : List Token) → Decidable (Token.Closes groups tokens)
  | groups, [] => inferInstanceAs (Decidable (groups = []))
  | groups, token :: rest =>
      have := Token.decidableCloses (Token.groupsAfter token.kind groups) rest
      inferInstanceAs (Decidable (_ ∧ _))

namespace Scan

open Token (Closes Face Legible face groupsAfter lexed written Unjoined)

private theorem groups_add {s t : State} {origin : Option String} {kind : Token.Kind}
    (added : s.add origin kind = .ok t) :
    t.groups.map (·.bracket) = groupsAfter kind (s.groups.map (·.bracket)) := by
  unfold State.add at added
  split at added
  · rename_i bracket opened
    unfold State.enter at added
    dsimp only at added
    split at added
    · cases added
    · cases added
      rw [Token.groupsAfter_opening opened]
      rfl
  · rename_i bracket opened closed
    cases added
    unfold State.leave
    dsimp only
    cases groups : s.groups with
    | nil => simp [groupsAfter, opened, closed, State.emit, groups]
    | cons group outer =>
        by_cases fits : group.bracket = bracket
        · simp [groupsAfter, opened, closed, fits]
        · simp [groupsAfter, opened, closed, fits, State.emit, groups]
  · rename_i opened closed
    cases added
    simp [groupsAfter, opened, closed, State.emit]

private theorem add_cases (s : State) (origin : Option String) (kind : Token.Kind) :
    (kind.opens = true ∧ nestingLimit ≤ s.groups.length ∧ ∃ e, s.add origin kind = .error e) ∨
      (kind.opens = true → s.groups.length < nestingLimit) ∧ ∃ t, s.add origin kind = .ok t := by
  cases opened : kind.opened? with
  | none =>
      have opens : kind.opens = false := Token.Kind.opened?_eq_none.1 opened
      refine .inr ⟨fun here => absurd here (by simp [opens]), ?_⟩
      unfold State.add
      rw [opened]
      cases kind.closed? <;> exact ⟨_, rfl⟩
  | some bracket =>
      have enters : s.add origin kind = s.enter origin kind bracket := by
        unfold State.add
        rw [opened]
      rw [enters, State.enter]
      dsimp only
      by_cases full : nestingLimit ≤ s.groups.length
      · rw [if_pos full]
        exact .inl ⟨Token.Kind.opens_of_opened? opened, full, _, rfl⟩
      · rw [if_neg full]
        exact .inr ⟨fun _ => Nat.lt_of_not_le full, _, rfl⟩

structure State.Shows (s : State) (done : List Token) (groups : List Bracket) : Prop where
  tokens : s.tokens.map face = done.reverse.map face
  groups : s.groups.map (·.bracket) = groups
  spaced : s.spaced = false

private theorem State.Shows.length {s : State} {done : List Token} {groups : List Bracket}
    (h : s.Shows done groups) : s.groups.length = groups.length := by
  rw [← h.groups, List.length_map]

private theorem State.Shows.exists_last {s : State} {done : List Token} {groups : List Bracket}
    (h : s.Shows done groups) {last : Token} (head : last ∈ s.tokens.head?) :
    ∃ last' ∈ done.getLast?, last'.kind = last.kind := by
  have heads := congrArg List.head? h.tokens
  rw [List.head?_map, List.head?_map, List.head?_reverse, Option.mem_def.1 head] at heads
  obtain ⟨last', member, same⟩ := Option.map_eq_some_iff.1 heads.symm
  exact ⟨last', member, congrArg Face.kind same⟩

private theorem run_face (origin : Option String) {s : State} {f : Face} {y : List Char}
    (spaced : s.spaced = false) (reads : f.kind.Reads y) :
    ∃ position,
      (∀ e, State.add { s with spaced := f.spaced, position := position } origin f.kind = .error e →
        run origin s (f.text ++ y) = .error e) ∧
      ∀ t, State.add { s with spaced := f.spaced, position := position } origin f.kind = .ok t →
        ∃ position', run origin s (f.text ++ y) =
          run origin { t with position := position' } y := by
  obtain ⟨d, w, lexeme, text, again, token⟩ := reads
  have token' : (Lexeme.next d (w ++ y)).1.kind? (d :: w) = some f.kind := by rwa [again]
  have inside : Lexeme.isSpace d = false := Lexeme.isSpace_of_kind? token'
  obtain ⟨position, moved⟩ := run_space origin s f.spaced inside (w ++ y) spaced
  rw [Face.text, text, List.append_assoc, List.cons_append]
  refine ⟨position, fun e fails => ?_, fun t added => ⟨t.position.after (d :: w), ?_⟩⟩
  · rw [moved, run_cons, again, List.take_left, List.drop_left, read_eq_add token, fails]
    rfl
  · rw [moved, run_cons, again, List.take_left, List.drop_left, read_eq_add token, added, ok_bind]

private theorem add_plain {kind : Token.Kind} (plain : kind.opened? = none ∧ kind.closed? = none)
    (s : State) (origin : Option String) : s.add origin kind = .ok (s.emit origin kind) := by
  unfold State.add
  rw [plain.1, plain.2]

section

variable {s : State} {done : List Token} {groups : List Bracket} {token : Token}

private theorem State.Shows.push_start (shows : s.Shows done groups)
    (unjoined : ∀ last ∈ done.getLast?, Unjoined last token) {start : Token.Kind}
    (starts : token.kind.start = start) (span : Span) :
    push s.tokens ⟨start, span, token.spaced⟩ = ⟨start, span, token.spaced⟩ :: s.tokens := by
  refine push_apart fun assign close last head => ?_
  obtain ⟨last', member, same⟩ := shows.exists_last head
  rw [← same]
  exact unjoined last' member (starts.trans assign) close

private theorem run_single (origin : Option String) (shows : s.Shows done groups) {rest : List Char}
    (legible : Legible token.face.lexed rest)
    (unjoined : ∀ last ∈ done.getLast?, Unjoined last token) (single : token.kind.front? = none) :
    (token.kind.opens = true ∧ nestingLimit ≤ groups.length ∧
        ∃ e, run origin s (token.face.text ++ rest) = .error e) ∨
      (token.kind.opens = true → groups.length < nestingLimit) ∧
        ∃ s' : State, s'.Shows (done ++ [token]) (groupsAfter token.kind groups) ∧
          run origin s (token.face.text ++ rest) = run origin s' rest := by
  have length := shows.length
  have start : token.kind.start = token.kind := by
    rw [Token.Kind.start, single, Option.getD_none]
  rw [Face.lexed_of_none single] at legible
  obtain ⟨position, fails, goes_on⟩ :=
    run_face (f := token.face) (y := rest) origin shows.spaced legible.1
  obtain ⟨opens, full, e, error⟩ | ⟨room, t, added⟩ :=
    add_cases { s with spaced := token.spaced, position := position } origin token.kind
  · exact .inl ⟨opens, length ▸ full, e, fails e error⟩
  · obtain ⟨tokens_eq, close⟩ := tokens_add added
    obtain ⟨position', moved⟩ := goes_on t added
    have tokens : t.tokens.map face = (done ++ [token]).reverse.map face := by
      rw [tokens_eq, shows.push_start unjoined start, List.map_cons, shows.tokens,
        List.reverse_append]
      rfl
    exact .inr ⟨fun opens => length ▸ room opens, { t with position := position' },
      ⟨tokens, (groups_add added).trans (congrArg _ shows.groups), close⟩, moved⟩

private theorem run_operator (origin : Option String) (shows : s.Shows done groups)
    {rest : List Char} (legible : Legible token.face.lexed rest)
    (unjoined : ∀ last ∈ done.getLast?, Unjoined last token) {kind : Token.Kind}
    (front : token.kind.front? = some kind) :
    ∃ s' : State, s'.Shows (done ++ [token]) groups ∧
      run origin s (token.face.text ++ rest) = run origin s' rest := by
  obtain ⟨op, op_eq, joins⟩ := Token.Kind.joined_front? front
  have start : token.kind.start = kind := by
    rw [Token.Kind.start, front, Option.getD_some]
  have split := Face.lexed_of_some (f := token.face) front
  have text : token.face.text ++ rest =
      Face.text ⟨kind, token.spaced⟩ ++ (Face.text ⟨.operator .assign, false⟩ ++ rest) := by
    rw [← Face.written_lexed, split, written, List.flatMap_cons, List.append_assoc]
    simp [face]
  rw [split] at legible
  obtain ⟨reads, reads', -⟩ := legible
  have reads₁ : kind.Reads (Face.text ⟨.operator .assign, false⟩ ++ rest) := by
    simpa [written] using reads
  obtain ⟨position, -, goes_on⟩ :=
    run_face (f := ⟨kind, token.spaced⟩) origin shows.spaced reads₁
  obtain ⟨position', moved⟩ := goes_on _ (add_plain (plain_of_joined joins) _ origin)
  obtain ⟨position'', -, goes_on'⟩ := run_face (y := rest) origin
    (s := { State.emit { s with spaced := token.spaced, position := position } origin kind with
      position := position' })
    (f := ⟨.operator .assign, false⟩) rfl reads'
  obtain ⟨last, moved'⟩ := goes_on' _ (add_plain ⟨rfl, rfl⟩ _ origin)
  refine ⟨_, ⟨?_, ?_, rfl⟩, (congrArg _ text).trans (moved.trans moved')⟩
  · show (push (push s.tokens ⟨kind, ⟨origin, position⟩, token.spaced⟩)
      ⟨.operator .assign, _, false⟩).map face = _
    rw [shows.push_start unjoined start, push_joined rfl rfl joins, List.map_cons, shows.tokens,
      List.reverse_append, ← op_eq]
    rfl
  · exact shows.groups

private theorem run_token (origin : Option String) (shows : s.Shows done groups) {rest : List Char}
    (legible : Legible token.face.lexed rest)
    (unjoined : ∀ last ∈ done.getLast?, Unjoined last token) :
    (token.kind.opens = true ∧ nestingLimit ≤ groups.length ∧
        ∃ e, run origin s (token.face.text ++ rest) = .error e) ∨
      (token.kind.opens = true → groups.length < nestingLimit) ∧
        ∃ s' : State, s'.Shows (done ++ [token]) (groupsAfter token.kind groups) ∧
          run origin s (token.face.text ++ rest) = run origin s' rest := by
  cases front : token.kind.front? with
  | none => exact run_single origin shows legible unjoined front
  | some kind =>
      obtain ⟨op, op_eq, -⟩ := Token.Kind.joined_front? front
      have plain : token.kind.opens = false ∧ groupsAfter token.kind groups = groups := by
        rw [op_eq]
        exact ⟨rfl, rfl⟩
      rw [plain.1, plain.2]
      exact .inr ⟨fun opens => absurd opens Bool.false_ne_true,
        run_operator origin shows legible unjoined front⟩

end

private theorem run_written (origin : Option String) {tokens : List Token} {s : State}
    {done : List Token} {groups : List Bracket} (shows : s.Shows done groups)
    (legible : Legible (lexed tokens) []) (unjoined : (done ++ tokens).IsChain Unjoined) :
    ((∃ read, run origin s (written (tokens.map face)) = .ok read) ↔ Closes groups tokens) ∧
      ∀ read, run origin s (written (tokens.map face)) = .ok read →
        read.map face = (done ++ tokens).map face := by
  induction tokens generalizing s done groups with
  | nil =>
      have groups_eq := shows.groups
      rw [List.map_nil, written, List.flatMap_nil, run]
      cases open_groups : s.groups with
      | nil =>
          rw [open_groups] at groups_eq
          refine ⟨⟨fun _ => groups_eq.symm, fun _ => ⟨_, rfl⟩⟩, ?_⟩
          rintro _ ⟨⟩
          rw [List.map_reverse, shows.tokens, List.append_nil, List.map_reverse,
            List.reverse_reverse]
      | cons group outer =>
          rw [open_groups] at groups_eq
          have more : groups ≠ [] := by
            rw [← groups_eq]
            exact List.cons_ne_nil _ _
          refine ⟨⟨?_, fun none => absurd none more⟩, ?_⟩
          · rintro ⟨_, ⟨⟩⟩
          · rintro _ ⟨⟩
  | cons token rest ih =>
      rw [Token.lexed_cons, Token.legible_append, Token.written_lexed, List.append_nil] at legible
      rw [List.map_cons, Token.written_cons]
      obtain ⟨front, behind, next⟩ := List.isChain_append.1 unjoined
      rw [List.append_cons] at unjoined
      obtain ⟨opens, full, e, fails⟩ | ⟨room, s', shows', moved⟩ :=
        run_token origin shows legible.1 fun last member => next last member token rfl
      · rw [fails]
        refine ⟨⟨?_, fun closes => absurd (closes.1 opens) (Nat.not_lt.2 full)⟩, ?_⟩
        · rintro ⟨_, ⟨⟩⟩
        · rintro _ ⟨⟩
      · obtain ⟨closes, read⟩ := ih shows' legible.2 unjoined
        rw [moved, closes, List.append_cons]
        exact ⟨⟨fun h => ⟨room, h⟩, fun h => h.2⟩, read⟩

end Scan

namespace Token

private theorem toList_renderRest (tokens : List Token) :
    (renderRest tokens).toList = written (tokens.map face) := by
  induction tokens with
  | nil => rfl
  | cons token rest ih =>
      rw [List.map_cons, written_cons, ← ih]
      cases spaced : token.spaced <;> simp [renderRest, face, Face.text, spaced]

private theorem render_congr {tokens tokens' : List Token}
    (h : tokens.map face = tokens'.map face) : render tokens = render tokens' := by
  cases tokens with
  | nil => rw [List.map_eq_nil_iff.1 h.symm]
  | cons first rest =>
      cases tokens' with
      | nil => cases h
      | cons first' rest' =>
          obtain ⟨first_eq, rest_eq⟩ := List.cons.inj h
          have kind : first.kind = first'.kind := congrArg Face.kind first_eq
          have behind : renderRest rest = renderRest rest' := by
            rw [← String.toList_inj, toList_renderRest, toList_renderRest, rest_eq]
          rw [render, render, kind, behind]

theorem legible_lexed_iff (kind : Kind) (spaced spaced' : Bool) (y : List Char) :
    Legible (Face.lexed ⟨kind, spaced⟩) y ↔ Legible (Face.lexed ⟨kind, spaced'⟩) y := by
  cases front : kind.front? with
  | none =>
      rw [Face.lexed_of_none (f := ⟨kind, spaced⟩) front,
        Face.lexed_of_none (f := ⟨kind, spaced'⟩) front]
      exact Iff.rfl
  | some start =>
      rw [Face.lexed_of_some (f := ⟨kind, spaced⟩) front,
        Face.lexed_of_some (f := ⟨kind, spaced'⟩) front]
      exact Iff.rfl

theorem scan_render_unspaced {first : Token} {rest : List Token} (unspaced : first.spaced = false)
    (legible : Legible (lexed (first :: rest)) []) (unjoined : (first :: rest).IsChain Unjoined)
    (origin : Option String) :
    ((∃ read, Token.scan (render (first :: rest)) origin = .ok read) ↔ Closes [] (first :: rest)) ∧
      ∀ read, Token.scan (render (first :: rest)) origin = .ok read →
        read.map face = (first :: rest).map face := by
  have text : (render (first :: rest)).toList = written ((first :: rest).map face) := by
    have bare : first.face.text = first.kind.text.toList := by
      rw [Face.text, face, unspaced]
      rfl
    rw [render, String.toList_append, toList_renderRest, List.map_cons, written_cons, bare]
  rw [Token.scan, text]
  have shows : Scan.State.start.Shows [] [] := ⟨rfl, rfl, rfl⟩
  exact Scan.run_written origin shows legible unjoined

/-- There is no space in front of the first token in the text. -/
theorem scan_render_iff {tokens : List Token} (legible : Legible (lexed tokens) [])
    (unjoined : tokens.IsChain Unjoined) (origin : Option String) :
    ((∃ read, Token.scan (render tokens) origin = .ok read) ↔ Closes [] tokens) ∧
      ∀ read, Token.scan (render tokens) origin = .ok read →
        read.map (·.kind) = tokens.map (·.kind) ∧ render read = render tokens := by
  cases tokens with
  | nil =>
      have scanned : Token.scan (render []) origin = .ok [] := by
        rw [Token.scan, render, String.toList_empty, Scan.run]
        rfl
      rw [scanned]
      refine ⟨⟨fun _ => rfl, fun _ => ⟨_, rfl⟩⟩, ?_⟩
      rintro _ ⟨⟩
      exact ⟨rfl, rfl⟩
  | cons first rest =>
      have legible' : Legible (lexed ({ first with spaced := false } :: rest)) [] := by
        rw [lexed_cons, legible_append] at legible ⊢
        exact ⟨(legible_lexed_iff _ _ _ _).1 legible.1, legible.2⟩
      have unjoined' : ({ first with spaced := false } :: rest).IsChain Unjoined := by
        obtain ⟨next, behind⟩ := List.isChain_cons.1 unjoined
        exact List.isChain_cons.2 ⟨next, behind⟩
      obtain ⟨closes, faces⟩ := scan_render_unspaced rfl legible' unjoined' origin
      refine ⟨closes, fun read scanned => ?_⟩
      have same := faces read scanned
      refine ⟨?_, (render_congr same).trans rfl⟩
      have kinds := congrArg (List.map Face.kind) same
      rwa [List.map_map, List.map_map] at kinds

end Token

end ViewStyle
