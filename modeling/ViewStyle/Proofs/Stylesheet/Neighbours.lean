/-
Values with the tokens of variables in the place of references. The text of such a value need not be
scanned as these tokens: a word becomes another one next to a word. It is where every reference
stands apart from its neighbours, in the value and in the definitions that it uses.
-/

import ViewStyle.Proofs.Stylesheet.Scoping
import ViewStyle.Proofs.Stylesheet.Written
import ViewStyle.Proofs.Token.Splicing

set_option autoImplicit false

namespace ViewStyle

open Builder (EndsValue State)
open Text (Span)

def Piece.isAddress (p : Piece) : Bool :=
  match p.lexeme with
  | .address _ => true
  | _ => false

namespace Token

def Kind.isReference : Kind → Bool
  | .atWord _ => true
  | _ => false

def Apart (a b : Token) : Prop :=
  b.spaced = true ∨
    (b.kind.isReference = true → a.kind.isFirm = true) ∧
      (a.kind.isReference = true → b.kind.separates = true)

instance (a b : Token) : Decidable (Apart a b) := inferInstanceAs (Decidable (_ ∨ _))

/-- A source text without backslashes in which all addresses are quoted. -/
structure PlainSource (source : String) : Prop where
  unescaped : '\\' ∉ source.toList
  quoted : ∀ p ∈ Lexeme.piecesOf source, p.isAddress = false

instance (source : String) : Decidable (PlainSource source) :=
  decidable_of_iff
    ('\\' ∉ source.toList ∧ ∀ p ∈ Lexeme.piecesOf source, p.isAddress = false)
    ⟨fun h => ⟨h.1, h.2⟩, fun h => ⟨h.unescaped, h.quoted⟩⟩

private theorem PlainSource.no_address {source : String} (h : PlainSource source) :
    ∀ p ∈ Lexeme.piecesOf source, ∀ target, p.lexeme ≠ .address target := by
  intro p member target address
  have quoted := h.quoted p member
  rw [Piece.isAddress, address] at quoted
  cases quoted

private theorem lexed_of_reference {token : Token} (h : token.kind.isReference = true) :
    token.face.lexed = [token.face] := by
  refine Face.lexed_of_none (f := token.face) ?_
  unfold Kind.isReference at h
  split at h
  · rename_i name kind
    show token.kind.front? = none
    rw [kind]
    rfl
  · cases h

private theorem not_quoted_cons {c : Char} {cs : List Char} (space : Lexeme.isSpace c = false)
    (quote : Lexeme.isQuote c = false) : ¬Lexeme.Quoted (c :: cs) := fun quoted =>
  Bool.false_ne_true (quote.symm.trans (Lexeme.isQuote_of_quoted space quoted))

private theorem Face.not_quoted {f : Face} {c : Char} {cs : List Char}
    (text : f.kind.text.toList = c :: cs) (space : Lexeme.isSpace c = false)
    (quote : Lexeme.isQuote c = false) (y : List Char) : ¬Lexeme.Quoted (f.text ++ y) := by
  have inside : ¬Lexeme.Quoted (c :: (cs ++ y)) := not_quoted_cons space quote
  rw [Face.text, text]
  cases f.spaced with
  | false => exact inside
  | true => exact mt (Lexeme.quoted_space (by decide)).1 inside

private theorem Face.not_quoted_reference {f : Face} (h : f.kind.isReference = true)
    (y : List Char) : ¬Lexeme.Quoted (f.text ++ y) := by
  unfold Kind.isReference at h
  split at h
  · rename_i name kind
    have text : f.kind.text.toList = '@' :: name.toList := by
      rw [kind]
      simp [Kind.text]
    exact Face.not_quoted text (by decide) (by decide) y
  · cases h

private theorem Face.ahead_text {f : Face} (h : f.spaced = true ∨ f.kind.separates = true)
    (y : List Char) : Lexeme.ahead (f.text ++ y) = [] := by
  cases spaced : f.spaced with
  | true =>
      rw [Face.text, spaced]
      exact Lexeme.ahead_space (by decide) _
  | false =>
      have separates : f.kind.separates = true := h.resolve_left (by simp [spaced])
      have bare : f.text = f.kind.text.toList := by
        rw [Face.text, spaced]
        rfl
      rw [bare]
      unfold Kind.separates at separates
      split at separates
      · rename_i text kind
        rw [kind, Lexeme.text_string]
        exact Lexeme.ahead_quote (by decide) _
      · cases separates
      · rename_i bracket round kind
        rw [kind, Scan.text_punct]
        cases bracket with
        | round => exact absurd rfl round
        | brace => rfl
        | square => rfl
      · rename_i bracket kind
        rw [kind, Scan.text_punct]
        cases bracket <;> rfl
      all_goals first
        | rename_i kind
          rw [kind]
          rfl
        | cases separates

private theorem Kind.of_separates {kind : Kind} (h : kind.separates = true) :
    kind.front? = none ∧ Scan.joined kind = none ∧ kind.start ≠ .operator .assign ∧
      kind.isReference = false := by
  unfold Kind.separates at h
  split at h <;> first
    | exact ⟨rfl, rfl, nofun, rfl⟩
    | cases h

private theorem Kind.of_isFirm {kind : Kind} (h : kind.isFirm = true) :
    kind.front? = none ∧ Scan.joined kind = none := by
  rw [Kind.isFirm, Bool.or_eq_true] at h
  rcases h with separates | opens
  · exact ⟨(Kind.of_separates separates).1, (Kind.of_separates separates).2.1⟩
  · unfold Kind.opens at opens
    split at opens <;> first
      | exact ⟨rfl, rfl⟩
      | cases opens

private theorem Face.Fits.self {f : Face} {x x' : List Char} (h : f.Fits x x') :
    Lexeme.Follows (f.text ++ x') x :=
  (h x' ⟨fun _ => rfl, id⟩).2

private theorem legible_respaced {reference : Token} {tokens : List Token} {y : List Char}
    (h : Legible (lexed tokens) y) : Legible (lexed (Builder.respaced reference tokens)) y := by
  cases tokens with
  | nil => exact h
  | cons first rest =>
      rw [Builder.respaced, lexed_cons, legible_append]
      rw [lexed_cons, legible_append] at h
      exact ⟨(legible_lexed_iff _ _ _ _).1 h.1, h.2⟩

private theorem chain_respaced {reference : Token} {tokens : List Token}
    (h : tokens.IsChain Unjoined) : (Builder.respaced reference tokens).IsChain Unjoined := by
  cases tokens with
  | nil => exact h
  | cons first rest =>
      obtain ⟨next, behind⟩ := List.isChain_cons.1 h
      exact List.isChain_cons.2 ⟨next, behind⟩

end Token

namespace Draft

open Lexeme (Follows Quoted ahead)
open Token (Apart Legible Stands Unjoined face lexed written)

/-- Some tokens as they stand in a text, from `x` on, in front of the end of a value. -/
structure Placed (tokens : List Token) (x : List Char) : Prop where
  stands : ∃ x', Stands (lexed tokens) x x' ∧ ahead x' = [] ∧ ¬Quoted x'
  unjoined : tokens.IsChain Unjoined
  apart : tokens.IsChain Apart

private theorem Placed.tail {token : Token} {rest : List Token} {x : List Char}
    (h : Placed (token :: rest) x) :
    (∃ x', Stands token.face.lexed x x' ∧ Placed rest x') ∧
      ∀ next ∈ rest.head?, Unjoined token next ∧ Apart token next := by
  obtain ⟨⟨x'', stands, ends⟩, unjoined, apart⟩ := h
  rw [Token.lexed_cons, Token.stands_append] at stands
  obtain ⟨x', here, there⟩ := stands
  obtain ⟨unjoined_next, unjoined⟩ := List.isChain_cons.1 unjoined
  obtain ⟨apart_next, apart⟩ := List.isChain_cons.1 apart
  exact ⟨⟨x', here, ⟨x'', there, ends⟩, unjoined, apart⟩,
    fun next head => ⟨unjoined_next next head, apart_next next head⟩⟩

private theorem Placed.exists_fits {token : Token} {rest : List Token} {x : List Char}
    (h : Placed (token :: rest) x) (reference : token.kind.isReference = true) :
    (∃ x', token.face.Fits x x' ∧ Placed rest x') ∧ ¬Quoted x := by
  obtain ⟨⟨x', stands, placed⟩, -⟩ := h.tail
  rw [Token.lexed_of_reference reference] at stands
  obtain ⟨x'', fits, rfl⟩ := stands
  exact ⟨⟨x'', fits, placed⟩, fun quoted =>
    Token.Face.not_quoted_reference reference x'' (fits.self.quoted quoted)⟩

/-- The tokens that others stand for are read one by one too, and together they can stand in the
place of those, unless the first of these is a reference right behind another token. -/
structure Sound (tokens out : List Token) (x : List Char) : Prop where
  legible : ∀ y, ahead y = [] → Legible (lexed out) y
  follows : ∀ y, ahead y = [] →
    (∀ token ∈ tokens.head?, token.kind.isReference = true → token.spaced = true) →
      Follows (written (lexed out) ++ y) x
  unjoined : out.IsChain Unjoined
  first : ∀ token ∈ tokens.head?, ∃ token' ∈ out.head?, token'.spaced = token.spaced ∧
    (token.kind.isReference = false → token'.kind = token.kind)
  none : tokens = [] → out = []

private theorem Sound.nil {x : List Char} (placed : Placed [] x) : Sound [] [] x where
  legible _ _ := trivial
  follows y ends _ := by
    obtain ⟨x', rfl, seen, not_quoted⟩ := placed.stands
    exact ⟨ends.trans seen.symm, fun quoted => absurd quoted not_quoted⟩
  unjoined := .nil
  first _ head := by cases head
  none _ := rfl

private theorem Placed.reads {token : Token} {rest out : List Token} {x : List Char}
    (placed : Placed (token :: rest) x) (sound : ∀ x', Placed rest x' → Sound rest out x')
    {y : List Char} (ends : ahead y = []) :
    Legible token.face.lexed (written (lexed out) ++ y) ∧
      Follows (written token.face.lexed ++ (written (lexed out) ++ y)) x := by
  obtain ⟨⟨x', stands, placed'⟩, next⟩ := placed.tail
  by_cases bare : ∀ next ∈ rest.head?, next.kind.isReference = true → next.spaced = true
  · exact stands.legible ((sound x' placed').follows y ends bare)
  · -- A reference right behind the token, which does not go on with anything.
    simp only [not_forall] at bare
    obtain ⟨reference, head, is_reference, close⟩ := bare
    obtain ⟨others, rfl⟩ := List.head?_eq_some_iff.1 head
    have firm : token.kind.isFirm = true :=
      ((next reference head).2.resolve_left close).1 is_reference
    obtain ⟨-, not_quoted⟩ := placed'.exists_fits is_reference
    rw [Token.Face.lexed_of_none (f := token.face) (Token.Kind.of_isFirm firm).1] at stands ⊢
    obtain ⟨x'', fits, rfl⟩ := stands
    obtain ⟨reads, follows⟩ := fits (written (lexed out) ++ y)
      ⟨fun loose => absurd (loose.symm.trans firm) Bool.false_ne_true,
        fun quoted => absurd quoted not_quoted⟩
    rw [Token.written_cons, List.append_assoc]
    exact ⟨⟨reads, trivial⟩, follows⟩

private theorem Sound.unjoined_front {token : Token} {rest out : List Token} {x : List Char}
    (sound : Sound rest out x) (next : ∀ u ∈ rest.head?, Unjoined token u ∧ Apart token u) :
    ∀ token' ∈ out.head?, Unjoined token token' := by
  intro token' head
  cases rest with
  | nil =>
      rw [sound.none rfl] at head
      cases head
  | cons u others =>
      obtain ⟨unjoined, apart⟩ := next u rfl
      obtain ⟨u', head', spaced, same⟩ := sound.first u rfl
      cases head.symm.trans head'
      cases reference : u.kind.isReference with
      | false =>
          have alike : token'.face = u.face := by rw [face, face, same reference, spaced]
          show token.face.Unjoined token'.face
          rw [alike]
          exact unjoined
      | true =>
          intro _ close
          have loose : ¬u.spaced = true := by simpa using spaced.symm.trans close
          have firm := (apart.resolve_left loose).1 reference
          exact (Token.Kind.of_isFirm firm).2

private theorem Sound.plain {token : Token} {rest out : List Token} {x : List Char}
    (placed : Placed (token :: rest) x)
    (sound : ∀ x', Placed rest x' → Sound rest out x') :
    Sound (token :: rest) (token :: out) x := by
  obtain ⟨⟨x', -, placed'⟩, next⟩ := placed.tail
  have behind := sound x' placed'
  refine ⟨fun y ends => ?_, fun y ends _ => ?_,
    List.isChain_cons.2 ⟨behind.unjoined_front next, behind.unjoined⟩, fun t head => ?_, nofun⟩
  · rw [Token.lexed_cons, Token.legible_append]
    exact ⟨(placed.reads sound ends).1, behind.legible y ends⟩
  · rw [Token.lexed_cons, Token.written_append, List.append_assoc]
    exact (placed.reads sound ends).2
  · cases head
    exact ⟨token, rfl, rfl, fun _ => rfl⟩

private theorem Sound.clear_front {token : Token} {rest out : List Token} {x : List Char}
    (sound : Sound rest out x) (reference : token.kind.isReference = true)
    (next : ∀ u ∈ rest.head?, Apart token u) :
    ∀ token' ∈ out.head?, token'.spaced = true ∨ token'.kind.separates = true := by
  intro token' here
  cases rest with
  | nil =>
      rw [sound.none rfl] at here
      cases here
  | cons u behind =>
      obtain ⟨u', here', spaced, same⟩ := sound.first u rfl
      cases here.symm.trans here'
      rcases next u rfl with close | apart
      · exact .inl (spaced.trans close)
      · have separates := apart.2 reference
        rw [same (Token.Kind.of_separates separates).2.2.2]
        exact .inr separates

private theorem ahead_of_clear {out : List Token}
    (clear : ∀ token ∈ out.head?, token.spaced = true ∨ token.kind.separates = true)
    {y : List Char} (ends : ahead y = []) : ahead (written (lexed out) ++ y) = [] := by
  cases out with
  | nil => exact ends
  | cons token rest =>
      rw [Token.lexed_cons, Token.written_append, Token.Face.written_lexed, List.append_assoc]
      exact Token.Face.ahead_text (clear token rfl) _

private theorem Sound.exists_cons {tokens out : List Token} {x : List Char}
    (sound : Sound tokens out x) (nonempty : tokens ≠ []) :
    ∃ head others, out = head :: others := by
  obtain ⟨start, behind, rfl⟩ := List.exists_cons_of_ne_nil nonempty
  obtain ⟨head, here, -⟩ := sound.first start rfl
  obtain ⟨others, rfl⟩ := List.head?_eq_some_iff.1 here
  exact ⟨head, others, rfl⟩

private theorem Sound.reference {token : Token} {rest out value meaning : List Token}
    {x x' : List Char} (reference : token.kind.isReference = true) (nonempty : value ≠ [])
    (placed : Placed (token :: rest) x) (meant : Sound value meaning x')
    (sound : ∀ x', Placed rest x' → Sound rest out x') :
    Sound (token :: rest) (Builder.respaced token meaning ++ out) x := by
  obtain ⟨⟨x₁, fits, placed'⟩, not_quoted⟩ := placed.exists_fits reference
  obtain ⟨-, next⟩ := placed.tail
  have behind := sound x₁ placed'
  have clear := behind.clear_front reference fun u head => (next u head).2
  obtain ⟨head, others, rfl⟩ := meant.exists_cons nonempty
  have spaced_head : Builder.respaced token (head :: others) =
      { head with spaced := token.spaced } :: others := rfl
  refine ⟨fun y ends => ?_, fun y _ spaced => ?_, ?_, fun t here => ?_, nofun⟩
  · rw [Token.lexed_append, Token.legible_append]
    exact ⟨Token.legible_respaced (meant.legible _ (ahead_of_clear clear ends)),
      behind.legible y ends⟩
  · have spaced : token.spaced = true := spaced token rfl reference
    rw [spaced_head, List.cons_append, Token.lexed_cons, Token.written_append,
      Token.Face.written_lexed, List.append_assoc]
    refine ⟨?_, fun quoted => absurd quoted not_quoted⟩
    rw [Token.Face.ahead_text (.inl spaced), ← fits.self.seen, Token.Face.ahead_text (.inl spaced)]
  · refine (Token.chain_respaced meant.unjoined).append behind.unjoined fun last _ token' here => ?_
    intro assign close
    rcases clear token' here with spaced | separates
    · exact absurd (close.symm.trans spaced) Bool.false_ne_true
    · exact absurd assign (Token.Kind.of_separates separates).2.2.1
  · cases here
    exact ⟨_, rfl, rfl, fun plain => absurd (plain.symm.trans reference) Bool.false_ne_true⟩

/-- What tokens stand for is read as they are, if that holds of the definitions above. -/
theorem sound_of_means {before : List Clause} {tokens out : List Token}
    (means : Means before tokens out)
    (definitions : ∀ name value, .define name value ∈ before → value ≠ [] ∧ ∃ x, Placed value x)
    {x : List Char} (placed : Placed tokens x) : Sound tokens out x := by
  induction means generalizing x with
  | nil => exact .nil placed
  | plain _ _ ih => exact .plain placed fun x' placed' => ih definitions placed'
  | @reference before above name value meaning token rest out kind latest meant means ih_meant ih =>
      obtain ⟨below, split, -⟩ := latest
      obtain ⟨nonempty, x', placed_value⟩ := definitions name value (by simp [split])
      have meant_sound := ih_meant (fun name' value' member =>
        definitions name' value' (by simp [split, member])) placed_value
      exact .reference (by rw [kind]; rfl) nonempty placed meant_sound fun x' placed' =>
        ih definitions placed'

private theorem forall₂_of_map_eq {β : Type} {f : Token → β} {tokens tokens' : List Token}
    (h : tokens.map f = tokens'.map f) : List.Forall₂ (fun t t' => f t = f t') tokens tokens' := by
  rwa [← List.forall₂_eq_eq_eq, List.forall₂_map_left_iff, List.forall₂_map_right_iff] at h

theorem alike_of_faces {tokens tokens' : List Token} (h : tokens.map face = tokens'.map face) :
    Alike tokens tokens' := by
  refine (forall₂_of_map_eq h).imp fun ⟨kind, span, spaced⟩ ⟨kind', span', spaced'⟩ same => ?_
  cases same
  exact .intro kind span span' spaced

private theorem forall₂_sameKind {tokens tokens' : List Token}
    (h : tokens.map (·.kind) = tokens'.map (·.kind)) :
    List.Forall₂ Token.SameKind tokens tokens' := by
  refine (forall₂_of_map_eq h).imp fun ⟨kind, span, spaced⟩ ⟨kind', span', spaced'⟩ same => ?_
  cases same
  exact .intro kind span span' spaced spaced'

theorem Sound.literal {tokens out : List Token} {x : List Char} (h : Sound tokens out x)
    (origin : Option String) :
    ((∃ read, Token.scan (Token.render out) origin = .ok read) ↔ Token.Closes [] out) ∧
      ∀ read, Token.scan (Token.render out) origin = .ok read →
        Literal.ofTokens read = Literal.ofTokens out := by
  obtain ⟨closes, same⟩ := Token.scan_render_iff (h.legible [] rfl) h.unjoined origin
  refine ⟨closes, fun read scanned => ?_⟩
  obtain ⟨kinds, text⟩ := same read scanned
  exact Literal.ofTokens_congr (forall₂_sameKind kinds) text

/-! ### Values in a source text -/

def Ended (tokens : List Token) : Prop :=
  ∃ important mark rest, tokens = mark ++ rest ∧ Sheet.WrittenMark important mark ∧ EndsValue rest

def Excerpt (value : List Token) : Prop :=
  ∃ source origin tokens before after, Token.PlainSource source ∧
    Token.scan source origin = .ok tokens ∧
      (before ++ (value ++ after)).map face = tokens.map face ∧ Ended after

private theorem head_of_important {word : String} (spells : Token.spells "important" word = true) :
    ∃ c rest, word.toList = c :: rest ∧ c ≠ '-' := by
  have lower : word.toList.map Char.toLower = "important".toList := by
    have same : word.toLower = "important" := beq_iff_eq.1 spells
    rw [← same]
    exact String.toList_map.symm
  cases text : word.toList with
  | nil =>
      rw [text] at lower
      cases lower
  | cons c rest =>
      refine ⟨c, rest, rfl, ?_⟩
      rintro rfl
      rw [text] at lower
      exact absurd (List.cons.inj lower).1 (by decide)

private theorem ahead_of_ended {tokens : List Token} (h : Ended tokens) (y : List Char) :
    ahead (written (lexed tokens) ++ y) = [] ∧ ¬Quoted (written (lexed tokens) ++ y) := by
  obtain ⟨important, mark, rest, rfl, written_mark, last, behind, rfl, kind⟩ := h
  rw [Token.written_lexed]
  cases written_mark with
  | absent =>
      rw [List.nil_append, List.map_cons, Token.written_cons, List.append_assoc]
      have separates : last.kind.separates = true ∧
          (last.kind.text.toList = [';'] ∨ last.kind.text.toList = ['\x7d']) := by
        rcases kind with kind | kind
        · rw [kind]
          exact ⟨rfl, .inl rfl⟩
        · rw [kind]
          exact ⟨rfl, .inr rfl⟩
      refine ⟨Token.Face.ahead_text (.inr separates.1) _, ?_⟩
      rcases separates.2 with text | text
      · exact Token.Face.not_quoted (f := last.face) text (by decide) (by decide) _
      · exact Token.Face.not_quoted (f := last.face) text (by decide) (by decide) _
  | important word span span' spaced spaced' spells =>
      obtain ⟨c, letters, text, hyphen⟩ := head_of_important spells
      rw [List.cons_append, List.map_cons, Token.written_cons, List.append_assoc]
      have bang : (face ⟨.punct .bang, span, spaced⟩).kind.text.toList = ['!'] :=
        Scan.text_punct .bang
      refine ⟨?_, Token.Face.not_quoted bang (by decide) (by decide) _⟩
      cases spaced with
      | true => exact Lexeme.ahead_space (by decide) _
      | false =>
          rw [Token.Face.text, bang]
          refine Lexeme.ahead_bang fun opening => ?_
          rw [List.cons_append, List.map_cons, Token.written_cons, Token.Face.text,
            show (face ⟨.ident word, span', spaced'⟩).kind.text.toList = c :: letters from text]
            at opening
          cases spaced' with
          | true => exact absurd (List.cons_prefix_cons.1 opening).1 (by decide)
          | false => exact hyphen (List.cons_prefix_cons.1 opening).1.symm

theorem exists_placed {value : List Token} (excerpt : Excerpt value)
    (apart : value.IsChain Apart) : ∃ x, Placed value x := by
  obtain ⟨source, origin, tokens, before, after, plain, scanned, same, ended⟩ := excerpt
  obtain ⟨⟨start, tail, stands⟩, unjoined⟩ :=
    Token.exists_stands_of_scan plain.unescaped plain.no_address scanned same
  rw [Token.lexed_append, Token.lexed_append, Token.stands_append] at stands
  obtain ⟨x, -, stands⟩ := stands
  obtain ⟨x', here, there⟩ := Token.stands_append.1 stands
  obtain ⟨-, follows⟩ := there.legible (y := tail) ⟨rfl, id⟩
  obtain ⟨seen, not_quoted⟩ := ahead_of_ended ended tail
  have unjoined' : value.IsChain Unjoined :=
    (List.isChain_append.1 (List.isChain_append.1 unjoined).2.1).1
  exact ⟨x, ⟨x', here, follows.seen.symm.trans seen, fun quoted =>
    not_quoted (follows.quoted quoted)⟩, unjoined', apart⟩

/-- The tokens that a clause reads a value from. -/
def Clause.values : Clause → List (List Token)
  | .define _ value => [value]
  | .declare _ value _ => [value]
  | _ => []

def Within (value tokens : List Token) : Prop :=
  ∃ before after, tokens = before ++ (value ++ after) ∧ Ended after

private theorem Ended.append {tokens : List Token} (h : Ended tokens) (rest : List Token) :
    Ended (tokens ++ rest) := by
  obtain ⟨important, mark, behind, rfl, written, token, others, rfl, kind⟩ := h
  exact ⟨important, mark, token :: others ++ rest, by simp, written, token, others ++ rest, rfl,
    kind⟩

private theorem Within.append {value tokens : List Token} (h : Within value tokens)
    (front rest : List Token) : Within value (front ++ tokens ++ rest) := by
  obtain ⟨before, after, rfl, ended⟩ := h
  exact ⟨front ++ before, after ++ rest, by simp, ended.append rest⟩

private theorem Within.behind {value tokens : List Token} (h : Within value tokens)
    (front : List Token) : Within value (front ++ tokens) := by
  have both := h.append front []
  rwa [List.append_nil] at both

private theorem within_of_mark (value : List Token) {mark rest : List Token} {important : Bool}
    (written : Sheet.WrittenMark important mark) (ends : EndsValue rest) (front : List Token) :
    Within value (front ++ (value ++ mark ++ rest)) :=
  ⟨front, mark ++ rest, by simp, important, mark, rest, rfl, written, ends⟩

private theorem exists_mark (tokens : List Token) :
    ∃ mark, tokens = (Builder.takeImportance tokens).1 ++ mark ∧
      Sheet.WrittenMark (Builder.takeImportance tokens).2 mark := by
  unfold Builder.takeImportance
  split
  · rename_i word span spaced span' spaced' value reversed
    split
    · rename_i spells
      refine ⟨[⟨.punct .bang, span', spaced'⟩, ⟨.ident word, span, spaced⟩], ?_,
        .important word span' span spaced' spaced spells⟩
      rw [← List.reverse_reverse tokens, reversed]
      simp
    · exact ⟨[], (List.append_nil tokens).symm, .absent⟩
  · exact ⟨[], (List.append_nil tokens).symm, .absent⟩

private theorem within_body {body : Body} {tokens : List Token}
    (written : body.Written spelling tokens) (brace : Span) (close : Bool) :
    ∀ c ∈ body.clauses, ∀ value ∈ c.values,
      Within value (tokens ++ [⟨.punct (.closing .brace), brace, close⟩]) := by
  induction written generalizing brace close with
  | done => exact nofun
  | stray span spaced _ ih =>
      exact fun c member value values => (ih brace close c member value values).behind [_]
  | @declare property next tokens rest written _ separated ih =>
      refine List.forall_mem_cons.2 ⟨fun value member => ?_, fun c member value values => ?_⟩
      · cases written with
        | @intro key span spaced _ =>
            obtain ⟨mark, split, written_mark⟩ := exists_mark property.value.tokens
            have value_eq : value = (Builder.takeImportance property.value.tokens).1 :=
              List.mem_singleton.1 member
            have within := within_of_mark (Builder.takeImportance property.value.tokens).1
              written_mark (Builder.endsValue_of_separated separated brace close [])
              (key ++ [⟨.punct .colon, span, spaced⟩])
            rw [← split, ← value_eq] at within
            simpa using within
      · rw [List.append_assoc]
        exact (ih brace close c member value values).behind _
  | @nest restriction inside next narrowed within rest span span' span'' spaced spaced' spaced'' _ _
      _ _ ih_inside ih =>
      let opening : Token := ⟨.punct (.opening .brace), span', spaced'⟩
      let final : Token := ⟨.punct (.closing .brace), span'', spaced''⟩
      let closing : Token := ⟨.punct (.closing .brace), brace, close⟩
      refine List.forall_mem_cons.2 ⟨nofun, List.forall_mem_append.2
        ⟨fun c member value values => ?_, List.forall_mem_cons.2 ⟨nofun, ?_⟩⟩⟩
      · have here := (ih_inside span'' spaced'' c member value values).append
          (⟨.punct .ampersand, span, spaced⟩ :: narrowed ++ [opening]) (rest ++ [closing])
        simpa [opening, final, closing] using here
      · intro c member value values
        have there := (ih brace close c member value values).behind
          (⟨.punct .ampersand, span, spaced⟩ :: narrowed ++ opening :: within ++ [final])
        simpa [opening, final] using there

private theorem within_definitions {definitions : List (String × Phrase)} {tokens : List Token}
    (written : Outline.WrittenDefinitions Phrase.tokens definitions tokens) (brace : Span)
    (close : Bool) : ∀ d ∈ definitions,
      Within d.2.tokens (tokens ++ [⟨.punct (.closing .brace), brace, close⟩]) := by
  induction written with
  | nil => exact nofun
  | stray span spaced _ ih => exact fun d member => (ih d member).behind [_]
  | define name value sign span spaced _ _ separated ih =>
      refine List.forall_mem_cons.2 ⟨?_, fun d member => ?_⟩
      · have within := within_of_mark value.tokens .absent
          (Builder.endsValue_of_separated separated brace close [])
          [⟨.atWord name, span, spaced⟩, sign]
        simpa using within
      · have there := (ih d member).behind (⟨.atWord name, span, spaced⟩ :: sign :: value.tokens)
        simpa using there

private theorem within_clauses {blocks : List Block} {tokens : List Token}
    (written : Written blocks tokens) :
    ∀ c ∈ clauses blocks, ∀ value ∈ c.values, Within value tokens := by
  induction written with
  | nil => exact nofun
  | stray span spaced _ ih =>
      exact fun c member value values => (ih c member value values).behind [_]
  | @block block blocks tokens rest written _ ih =>
      refine List.forall_mem_append.2 ⟨fun c member value values => ?_, fun c member value values =>
        (ih c member value values).behind tokens⟩
      have here : Within value tokens := by
        cases written with
        | @globals word definitions inside span span' span'' spaced spaced' spaced'' _ written =>
            obtain ⟨d, listed, rfl⟩ := List.mem_map.1 member
            cases List.mem_singleton.1 values
            exact (within_definitions written _ _ d listed).behind [_, _]
        | @rules first others body heads inside span span' spaced spaced' _ _ written =>
            rcases List.mem_cons.1 member with rfl | member
            · cases values
            · rcases List.mem_append.1 member with member | member
              · have inner := (within_body written span' spaced' c member value values).behind
                  (heads ++ [⟨.punct (.opening .brace), span, spaced⟩])
                simpa using inner
              · cases List.mem_singleton.1 member
                cases values
      exact here.append [] rest

theorem excerpt_of_scan {source : String} {origin : Option String} {tokens : List Token}
    (plain : Token.PlainSource source) (scanned : Token.scan source origin = .ok tokens)
    {blocks : List Block} (written : Written blocks tokens) :
    ∀ c ∈ clauses blocks, ∀ value ∈ c.values, Excerpt value := by
  intro c member value values
  obtain ⟨before, after, rfl, ended⟩ := within_clauses written c member value values
  exact ⟨source, origin, _, before, after, plain, scanned, rfl, ended⟩

end Draft

end ViewStyle
