/-
Where every token of a source text begins. The text is cut into gaps and into extracts, each with
the tokens that are written there: one, or the three of an unquoted address. A token has the place
of its extract, which is counted from the start of the text, and no two extracts have the same.
-/

import ViewStyle.Proofs.Token.Boundaries
import ViewStyle.Proofs.Token.Rendering

set_option autoImplicit false

namespace ViewStyle

open Text (Position lineEnds lastLine width)
open Lexeme (isSpace atName atHash atNumber isQuote takeName takeWord takeString takeNumber
  takeComment next)

inductive Gap : List Char → Prop
  | blank {text : List Char} : (∀ c ∈ text, isSpace c = true) → Gap text
  | comment {body : List Char} : takeComment body = (true, body.length) → Gap ('/' :: '*' :: body)

/-- The whole text of tokens of some kinds, in front of `after`. It includes the sign or quote that a
word or string starts with, the bracket of a function, and both marks of an operator. -/
inductive Writes : List Char → List Char → List Token.Kind → Prop
  | ident {text after : List Char} {name : String} : atName (text ++ after) = true →
      takeWord (text ++ after) = (.ident name, text.length) → Writes text after [.ident name]
  | atWord {word after name : List Char} : atName (word ++ after) = true →
      takeName (word ++ after) = (name, word.length) →
      Writes ('@' :: word) after [.atWord (String.ofList name)]
  | hash {word after name : List Char} : atHash (word ++ after) = true →
      takeName (word ++ after) = (name, word.length) →
      Writes ('#' :: word) after [.hash (String.ofList name)]
  | string {quote : Char} {body after value : List Char} : isQuote quote = true →
      takeString quote (body ++ after) = (value, true, body.length) →
      Writes (quote :: body) after [.string (String.ofList value)]
  | number {text after : List Char} {value : Float} {unit : Option String} :
      atNumber (text ++ after) = true →
      takeNumber (text ++ after) = (.number value unit, text.length) →
      Writes text after [.number value unit (String.ofList text)]
  | function {text after : List Char} {name : String} : atName (text ++ after) = true →
      takeWord (text ++ after) = (.function name, text.length) → Writes text after [.function name]
  | operator {c : Char} {cs after : List Char} (op : Operator) : op.text.toList = c :: cs →
      next c (cs ++ after) = (.mark c, 0) → Writes (c :: cs) after [.operator op]
  | punct {after : List Char} (mark : Punct) : next mark.char after = (.mark mark.char, 0) →
      Writes [mark.char] after [.punct mark]
  | address {text after : List Char} {target : String} : atName (text ++ after) = true →
      takeWord (text ++ after) = (.address target, text.length) →
      Writes text after [.function "url", .string target, .punct (.closing .round)]

/-- Some tokens and the part of a source text that they are read from. -/
structure Extract where
  before : List Char
  text : List Char
  after : List Char
  tokens : List Token

namespace Extract

/-- The place where an extract begins. -/
def start (e : Extract) : Position := ⟨1 + lineEnds e.before, 1 + width (lastLine e.before)⟩

/-- The tokens are those of the text and have its place. -/
structure Exact (source : List Char) (origin : Option String) (e : Extract) : Prop where
  part : e.before ++ e.text ++ e.after = source
  writes : Writes e.text e.after (e.tokens.map (·.kind))
  located : ∀ t ∈ e.tokens, t.span = ⟨origin, e.start⟩

/-- A text is made of some extracts, in this order, and of gaps. -/
inductive Laid : List Extract → List Char → Prop
  | nil : Laid [] []
  | gap {es : List Extract} {before text : List Char} : Laid es before → Gap text →
      Laid es (before ++ text)
  | snoc {es : List Extract} {e : Extract} : Laid es e.before →
      Laid (es ++ [e]) (e.before ++ e.text)

private theorem start_eq (e : Extract) : e.start = Position.start.after e.before :=
  (Position.after_start e.before).symm

private theorem Laid.init {es : List Extract} {e : Extract} {whole : List Char}
    (h : Laid (es ++ [e]) whole) : Laid es e.before := by
  generalize all : es ++ [e] = extracts at h
  induction h with
  | nil => simp at all
  | gap _ _ ih => exact ih all
  | snoc laid _ =>
      obtain ⟨rfl, last⟩ := List.append_inj' all rfl
      cases last
      exact laid

private theorem Laid.isPrefix {es : List Extract} {whole : List Char} (h : Laid es whole) :
    ∀ e ∈ es, e.before ++ e.text <+: whole := by
  induction h with
  | nil => nofun
  | gap _ _ ih => exact fun e member => (ih e member).trans (List.prefix_append _ _)
  | snoc _ ih =>
      rw [List.forall_mem_append, List.forall_mem_singleton]
      exact ⟨fun e member => (ih e member).trans (List.prefix_append _ _), List.prefix_rfl⟩

end Extract

namespace Lexeme

private theorem endsLine_of_isSpace {c : Char} (h : isSpace c = false) :
    Text.endsLine c = false := by
  simp only [isSpace, Bool.or_eq_false_iff] at h
  exact h.2

private theorem endsLine_of_passes {c : Char} (h : passes c = true) : Text.endsLine c = false :=
  endsLine_of_isSpace (isSpace_of_passes h)

private theorem endsLine_of_mark {c : Char} {cs : List Char} (read : next c cs = (.mark c, 0)) :
    Text.endsLine c = false := by
  have token : (next c cs).1.kind? [c] = some (Scan.bareKind c) := by
    rw [read]
    rfl
  exact endsLine_of_isSpace (isSpace_of_kind? token)

private theorem takeComment_take {cs : List Char} (closed : (takeComment cs).1 = true) :
    takeComment (cs.take (takeComment cs).2) = takeComment cs := by
  fun_induction takeComment cs with
  | case1 => cases closed
  | case2 => rfl
  | case3 c cs other closed' n read ih =>
      rw [read] at ih
      have again := ih closed
      dsimp only at again ⊢
      rw [List.take_succ_cons, takeComment.eq_3, again]
      rintro rest rfl start
      obtain ⟨tail, rfl⟩ : '/' :: rest <+: cs := start ▸ List.take_prefix n cs
      exact other (rest ++ tail) rfl rfl

private theorem gap_next {c : Char} {cs : List Char} (gap : (next c cs).1.IsGap) :
    Gap (c :: cs.take (next c cs).2) := by
  obtain space | ⟨rfl, rest, rfl⟩ := next_gap gap
  · have taken : cs.take (blankLength cs) = cs.takeWhile isSpace :=
      (List.prefix_iff_eq_take.1 (List.takeWhile_prefix isSpace)).symm
    rw [next_space space]
    dsimp only
    rw [taken]
    exact .blank (List.forall_mem_cons.2 ⟨space, fun d => List.mem_takeWhile_imp⟩)
  · have read : next '/' ('*' :: rest) =
        (.comment (takeComment rest).1, (takeComment rest).2 + 1) := rfl
    rw [List.singleton_append, read] at gap ⊢
    cases closed : (takeComment rest).1 with
    | true =>
        have length := List.length_take_of_le (whole_takeComment closed).le
        refine .comment ?_
        rw [takeComment_take closed, length, ← closed]
    | false =>
        rw [closed] at gap
        exact gap.elim

private theorem writes_bareKind {c : Char} {after : List Char}
    (read : next c after = (.mark c, 0)) : Writes [c] after [Scan.bareKind c] := by
  unfold Scan.bareKind
  split
  · rename_i bracket opening
    obtain rfl := Scan.char_of_opening? opening
    exact .punct (.opening bracket) read
  · rename_i bracket _ closing
    obtain rfl := Scan.char_of_closing? closing
    exact .punct (.closing bracket) read
  · unfold Scan.markKind
    split
    · exact .operator .less rfl read
    · exact .operator .greater rfl read
    · exact .operator .assign rfl read
    · exact .operator .plus rfl read
    · exact .operator .minus rfl read
    · exact .operator .star rfl read
    · exact .operator .slash rfl read
    · exact .punct .semicolon read
    · exact .punct .colon read
    · exact .punct .comma read
    · exact .punct .dot read
    · exact .punct .bang read
    · exact .punct .ampersand read
    · exact .punct (.other _) read

private theorem reread {α : Type} (f : List Char → α × Nat) {c : Char} {cs : List Char}
    (pos : 0 < (f (c :: cs)).2) (le : (f (c :: cs)).2 - 1 ≤ cs.length) :
    f (c :: cs.take ((f (c :: cs)).2 - 1) ++ cs.drop ((f (c :: cs)).2 - 1)) =
      ((f (c :: cs)).1, (c :: cs.take ((f (c :: cs)).2 - 1)).length) := by
  rw [List.cons_append, List.take_append_drop, List.length_cons, List.length_take_of_le le,
    Nat.sub_add_cancel pos]

private theorem writes_next {c : Char} {cs : List Char} {kind : Token.Kind}
    (le : (next c cs).2 ≤ cs.length)
    (token : (next c cs).1.kind? (c :: cs.take (next c cs).2) = some kind) :
    Writes (c :: cs.take (next c cs).2) (cs.drop (next c cs).2) [kind] := by
  have form := form_next c cs
  generalize read : next c cs = taken at form token le ⊢
  obtain ⟨lexeme, n⟩ := taken
  have length : (cs.take n).length = n := List.length_take_of_le le
  cases form with
  | blank => cases token
  | comment => cases token
  | string quote =>
      cases closed : (takeString c cs).2.1 with
      | true =>
          rw [closed] at token
          cases token
          refine .string quote ?_
          rw [List.take_append_drop, length, ← closed]
      | false =>
          rw [closed] at token
          cases token
  | hash mark hash =>
      subst mark
      cases token
      refine .hash ?_ ?_
      · rwa [List.take_append_drop]
      · rw [List.take_append_drop, length]
  | atWord mark name =>
      subst mark
      cases token
      refine .atWord ?_ ?_
      · rwa [List.take_append_drop]
      · rw [List.take_append_drop, length]
  | number number =>
      have again := reread takeNumber (takeNumber_pos number) le
      obtain ⟨value, unit, first⟩ := fst_takeNumber (c :: cs)
      rw [first] at token again
      cases token
      refine .number ?_ again
      rwa [List.cons_append, List.take_append_drop]
  | word name number arrow =>
      have again := reread takeWord (takeWord_pos name) le
      have start : atName (c :: cs.take ((takeWord (c :: cs)).2 - 1) ++
          cs.drop ((takeWord (c :: cs)).2 - 1)) = true := by
        rwa [List.cons_append, List.take_append_drop]
      obtain ⟨name, word⟩ | ⟨name, word⟩ | ⟨target, word⟩ | word := fst_takeWord (c :: cs)
      all_goals
        rw [word] at token again
        cases token
      · exact .ident start again
      · exact .function start again
  | mark inside =>
      cases token
      exact writes_bareKind read
  | refused => cases token

private theorem writes_address {c : Char} {cs : List Char} {target : String}
    (le : (next c cs).2 ≤ cs.length) (address : (next c cs).1 = .address target) :
    Writes (c :: cs.take (next c cs).2) (cs.drop (next c cs).2)
      [.function "url", .string target, .punct (.closing .round)] := by
  have form := form_next c cs
  generalize (next c cs).1 = lexeme at form address
  generalize (next c cs).2 = n at form le ⊢
  cases form with
  | word name number arrow =>
      have again := reread takeWord (takeWord_pos name) le
      rw [address] at again
      refine .address ?_ again
      rwa [List.cons_append, List.take_append_drop]
  | number number =>
      obtain ⟨value, unit, first⟩ := fst_takeNumber (c :: cs)
      cases first.symm.trans address
  | _ => cases address

end Lexeme

private theorem Writes.starts {text after : List Char} {kinds : List Token.Kind}
    (h : Writes text after kinds) : ∃ c cs, text = c :: cs ∧ Text.endsLine c = false := by
  have word {text after : List Char} {lexeme : Lexeme} (start : atName (text ++ after) = true)
      (read : takeWord (text ++ after) = (lexeme, text.length)) :
      ∃ c cs, text = c :: cs ∧ Text.endsLine c = false := by
    have pos := Lexeme.takeWord_pos start
    rw [read] at pos
    obtain ⟨c, cs, rfl⟩ := List.exists_cons_of_length_pos pos
    exact ⟨c, cs, rfl, Lexeme.endsLine_of_passes (Lexeme.passes_of_atName start)⟩
  cases h with
  | ident start read => exact word start read
  | atWord => exact ⟨_, _, rfl, rfl⟩
  | hash => exact ⟨_, _, rfl, rfl⟩
  | string quote =>
      obtain rfl | rfl := by simpa [isQuote] using quote
      · exact ⟨_, _, rfl, rfl⟩
      · exact ⟨_, _, rfl, rfl⟩
  | number start read =>
      cases text with
      | nil =>
          cases after with
          | nil => cases start
          | cons c cs =>
              have pos := Lexeme.takeNumber_pos start
              rw [List.nil_append] at read
              rw [read] at pos
              exact absurd pos (Nat.lt_irrefl 0)
      | cons c cs => exact ⟨c, cs, rfl, Lexeme.endsLine_of_passes (Lexeme.passes_of_atNumber start)⟩
  | function start read => exact word start read
  | operator op text read => exact ⟨_, _, rfl, Lexeme.endsLine_of_mark read⟩
  | punct mark read => exact ⟨_, _, rfl, Lexeme.endsLine_of_mark read⟩
  | address start read => exact word start read

private theorem Writes.ne_nil {text after : List Char} {kinds : List Token.Kind}
    (h : Writes text after kinds) : kinds ≠ [] := by
  cases h <;> nofun

private theorem Writes.of_joined {text after : List Char} {kinds : List Token.Kind}
    {kind : Token.Kind} {op : Operator} (h : Writes text after kinds)
    (last : kinds.getLast? = some kind) (joins : Scan.joined kind = some op) : kinds = [kind] ∧
      ∃ c, text = [c] ∧ op.text.toList = [c, '='] ∧ next c after = (.mark c, 0) := by
  cases h with
  | operator op' text read =>
      cases last
      cases op' <;> cases joins <;> cases text <;> exact ⟨rfl, _, rfl, rfl, read⟩
  | punct mark read =>
      cases last
      cases mark <;> cases joins
      exact ⟨rfl, _, rfl, rfl, read⟩
  | _ =>
      cases last
      cases joins

private theorem Extract.Laid.pairwise {es : List Extract} {source whole : List Char}
    {origin : Option String} (h : Laid es whole) (exact : ∀ e ∈ es, e.Exact source origin) :
    es.Pairwise fun e e' => e.start.Before e'.start := by
  induction h with
  | nil => exact .nil
  | gap _ _ ih => exact ih exact
  | @snoc es e laid ih =>
      rw [List.forall_mem_append] at exact
      refine List.pairwise_append.2 ⟨ih exact.1, List.pairwise_singleton _ _, ?_⟩
      intro e₁ member e₂ last
      obtain rfl := List.mem_singleton.1 last
      obtain ⟨rest, before⟩ := laid.isPrefix e₁ member
      obtain ⟨c, cs, text, inside⟩ := (exact.1 e₁ member).writes.starts
      have whole : e₁.before.getLast? = some '\r' → (c :: (cs ++ rest)).head? ≠ some '\n' := by
        rintro - head
        cases head
        cases inside
      rw [e₁.start_eq, e₂.start_eq, ← before, text, List.append_assoc, List.cons_append,
        Position.after_append whole]
      exact Position.before_after inside _

namespace Scan

/-- Some extracts hold the tokens of a scan that has passed some text. Without a gap behind it, the
last one ends where the scan is. -/
structure Cut (source : List Char) (origin : Option String) (s : State) (passed : List Char)
    (es : List Extract) : Prop where
  position : s.position = Position.start.after passed
  laid : Extract.Laid es passed
  tokens : s.tokens.reverse = es.flatMap (·.tokens)
  exact : ∀ e ∈ es, e.Exact source origin
  touches : s.spaced = false → ∀ e ∈ es.getLast?, e.before ++ e.text = passed

variable {source : List Char} {origin : Option String} {s t : State} {passed text rest : List Char}
  {es : List Extract}

private theorem Cut.gap (h : Cut source origin s passed es) (gap : Gap text)
    (position : t.position = Position.start.after (passed ++ text)) (tokens : t.tokens = s.tokens)
    (spaced : t.spaced = true) : Cut source origin t (passed ++ text) es where
  position := position
  laid := h.laid.gap gap
  tokens := tokens ▸ h.tokens
  exact := h.exact
  touches := fun touches => absurd (spaced.symm.trans touches) (by decide)

private theorem Cut.snoc (h : Cut source origin s passed es) (new : List Token)
    (writes : Writes text rest (new.map (·.kind)))
    (located : ∀ token ∈ new, token.span = ⟨origin, s.position⟩)
    (whole : passed ++ text ++ rest = source)
    (position : t.position = Position.start.after (passed ++ text))
    (tokens : t.tokens = new.reverse ++ s.tokens) :
    Cut source origin t (passed ++ text) (es ++ [⟨passed, text, rest, new⟩]) where
  position := position
  laid := h.laid.snoc
  tokens := by
    rw [tokens, List.reverse_append, List.reverse_reverse, h.tokens]
    simp
  exact := by
    rw [List.forall_mem_append, List.forall_mem_singleton]
    refine ⟨h.exact, whole, writes, fun token member => ?_⟩
    rw [located token member, h.position, Extract.start_eq]
  touches := by
    simp

private theorem Cut.join (h : Cut source origin s passed es) {last : Token} {earlier : List Token}
    {op : Operator} (before : s.tokens = last :: earlier) (joins : joined last.kind = some op)
    (spaced : s.spaced = false) (whole : passed ++ ['='] ++ rest = source)
    (position : t.position = Position.start.after (passed ++ ['=']))
    (tokens : t.tokens = { last with kind := .operator op } :: earlier) :
    ∃ es', Cut source origin t (passed ++ ['=']) es' := by
  -- The token before it is the last one of the last extract, and the only one there.
  have held := h.tokens
  rw [before, List.reverse_cons] at held
  obtain rfl | ⟨init, e, rfl⟩ := es.eq_nil_or_concat'
  · simp at held
  rw [List.flatMap_append, List.flatMap_singleton] at held
  have exact := h.exact
  rw [List.forall_mem_append, List.forall_mem_singleton] at exact
  obtain ⟨others, this⟩ := exact
  have nonempty : e.tokens ≠ [] := fun none => this.writes.ne_nil (by rw [none, List.map_nil])
  have ends : e.tokens.getLast? = some last := by
    rw [← List.getLast?_append_of_ne_nil _ nonempty, ← held]
    simp
  obtain ⟨alone, c, text, joined, mark⟩ :=
    this.writes.of_joined (by rw [List.getLast?_map, ends]; rfl) joins
  obtain ⟨token, single, -⟩ := List.map_eq_singleton_iff.1 alone
  rw [single] at ends held
  obtain rfl : last = token := (Option.some.inj ends).symm
  obtain ⟨earlier_eq, -⟩ := List.append_inj' held rfl
  have touches : e.before ++ e.text = passed := h.touches spaced e (by simp)
  have behind : e.after = '=' :: rest := by
    have split := this.part.trans whole.symm
    rw [touches, List.append_assoc] at split
    exact List.append_cancel_left split
  rw [behind] at mark
  have all : passed ++ ['='] = e.before ++ [c, '='] := by
    rw [← touches, text, List.append_assoc]
    rfl
  refine ⟨init ++ [⟨e.before, [c, '='], rest, [{ last with kind := .operator op }]⟩],
    position, ?_, ?_, ?_, ?_⟩
  · rw [all]
    exact .snoc h.laid.init
  · rw [tokens, List.reverse_cons, earlier_eq]
    simp
  · rw [List.forall_mem_append, List.forall_mem_singleton]
    refine ⟨others, all ▸ whole, .operator op joined mark, ?_⟩
    rw [List.forall_mem_singleton]
    exact this.located last (by simp [single])
  · intro _ e' last
    rw [List.getLast?_concat] at last
    cases last
    exact all.symm

private theorem Cut.push (h : Cut source origin s passed es) {kind : Token.Kind}
    (writes : Writes text rest [kind]) (whole : passed ++ text ++ rest = source)
    (position : t.position = Position.start.after (passed ++ text))
    (tokens : t.tokens = push s.tokens ⟨kind, ⟨origin, s.position⟩, s.spaced⟩) :
    ∃ es', Cut source origin t (passed ++ text) es' := by
  by_cases joins : kind = .operator .assign ∧ s.spaced = false ∧
      ∃ last ∈ s.tokens.head?, (joined last.kind).isSome
  · obtain ⟨rfl, spaced, last, first, joins⟩ := joins
    obtain ⟨earlier, before⟩ := List.head?_eq_some_iff.1 first
    obtain ⟨op, joins⟩ := Option.isSome_iff_exists.1 joins
    rw [before, push_joined rfl spaced joins] at tokens
    obtain rfl : text = ['='] := by
      cases writes with
      | operator _ written _ => exact written.symm
    exact h.join before joins spaced whole position tokens
  · rw [push_apart] at tokens
    · refine ⟨_, h.snoc [⟨kind, ⟨origin, s.position⟩, s.spaced⟩] writes ?_ whole position tokens⟩
      simp
    · intro assign spaced last first
      by_contra some
      exact joins ⟨assign, spaced, last, first, Option.isSome_iff_ne_none.2 some⟩

private theorem Cut.read (h : Cut source origin s passed es) {c : Char} {cs : List Char}
    (whole : passed ++ c :: cs = source)
    (unbroken : passed.getLast? = some '\r' → (c :: cs).head? ≠ some '\n')
    (read : s.read origin (c :: cs.take (Lexeme.next c cs).2) (Lexeme.next c cs).1 = .ok t) :
    ∃ es', Cut source origin
      { t with position := t.position.after (c :: cs.take (Lexeme.next c cs).2) }
      (passed ++ c :: cs.take (Lexeme.next c cs).2) es' := by
  have le := Nat.le_of_succ_le_succ (whole_of_read read).le
  have split : passed ++ c :: cs.take (Lexeme.next c cs).2 ++ cs.drop (Lexeme.next c cs).2 =
      source := by
    rw [List.append_assoc, List.cons_append, List.take_append_drop, whole]
  have position : t.position.after (c :: cs.take (Lexeme.next c cs).2) =
      Position.start.after (passed ++ c :: cs.take (Lexeme.next c cs).2) := by
    have whole : passed.getLast? = some '\r' →
        (c :: cs.take (Lexeme.next c cs).2).head? ≠ some '\n' := unbroken
    rw [position_read read, h.position, Position.after_append whole]
  by_cases address : ∃ target, (Lexeme.next c cs).1 = .address target
  · obtain ⟨target, address⟩ := address
    have writes := Lexeme.writes_address le address
    rw [address] at read
    cases read
    refine ⟨_, h.snoc [⟨.function "url", ⟨origin, s.position⟩, s.spaced⟩,
      ⟨.string target, ⟨origin, s.position⟩, false⟩,
      ⟨.punct (.closing .round), ⟨origin, s.position⟩, false⟩] writes ?_ split position ?_⟩
    · simp
    · rfl
  · obtain gap | token := isPlain_of_read read (not_exists.1 address)
    · have gap' := Lexeme.gap_next gap
      rw [read_gap gap] at read
      cases read
      exact ⟨es, h.gap gap' position rfl rfl⟩
    · obtain ⟨kind, kind_eq⟩ :=
        Option.isSome_iff_exists.1 (token (c :: cs.take (Lexeme.next c cs).2))
      rw [read_eq_add kind_eq] at read
      exact h.push (Lexeme.writes_next le kind_eq) split position (tokens_add read).1

private theorem Cut.run {cs : List Char} {tokens : List Token} (h : Cut source origin s passed es)
    (whole : passed ++ cs = source)
    (unbroken : passed.getLast? = some '\r' → cs.head? ≠ some '\n')
    (scanned : run origin s cs = .ok tokens) :
    ∃ es', Extract.Laid es' source ∧ tokens = es'.flatMap (·.tokens) ∧
      ∀ e ∈ es', e.Exact source origin := by
  induction cs using Lexeme.pieces_induction generalizing s passed es with
  | nil =>
      rw [List.append_nil] at whole
      subst whole
      rw [Scan.run] at scanned
      split at scanned
      · cases scanned
        exact ⟨es, h.laid, h.tokens, h.exact⟩
      · cases scanned
  | cons c cs ih =>
      rw [run_cons] at scanned
      obtain ⟨t, read, rest⟩ := bind_eq_ok scanned
      obtain ⟨es', cut⟩ := h.read whole unbroken read
      refine ih cut ?_ ?_ rest
      · rw [List.append_assoc, List.cons_append, List.take_append_drop, whole]
      · rw [List.getLast?_append_of_ne_nil _ (List.cons_ne_nil _ _)]
        exact (whole_of_read read).unbroken

end Scan

/-- The tokens of a source text are those of its extracts, which have only gaps between them. Each
has the place where its extract begins, and every extract begins before the next ones. -/
theorem Token.scan_extracts {source : String} {origin : Option String} {tokens : List Token}
    (scanned : Token.scan source origin = .ok tokens) :
    ∃ es, Extract.Laid es source.toList ∧ tokens = es.flatMap (·.tokens) ∧
      (∀ e ∈ es, e.Exact source.toList origin) ∧
      es.Pairwise fun e e' => e.start.Before e'.start := by
  have cut : Scan.Cut source.toList origin .start [] [] :=
    ⟨rfl, .nil, rfl, nofun, fun _ => nofun⟩
  obtain ⟨es, laid, held, exact⟩ := cut.run rfl nofun scanned
  exact ⟨es, laid, held, exact, laid.pairwise exact⟩

/-- An address has one place for all its tokens, and an operator that of its first character. They
stand behind a comment with a line end and a character of two units. -/
theorem Token.scan_extracts_lines : ∃ tokens es,
    Token.scan "a\r\n/*\n*/😀 <= url( b )\x0c'x'" none = .ok tokens ∧
      tokens.map (·.span.position) =
        [⟨1, 1⟩, ⟨3, 3⟩, ⟨3, 6⟩, ⟨3, 9⟩, ⟨3, 9⟩, ⟨3, 9⟩, ⟨4, 1⟩] ∧
      Extract.Laid es "a\r\n/*\n*/😀 <= url( b )\x0c'x'".toList ∧
      tokens = es.flatMap (·.tokens) ∧ es.Pairwise fun e e' => e.start.Before e'.start := by
  obtain ⟨tokens, scanned, places⟩ : ∃ tokens,
      Token.scan "a\r\n/*\n*/😀 <= url( b )\x0c'x'" none = .ok tokens ∧
        tokens.map (·.span.position) =
          [⟨1, 1⟩, ⟨3, 3⟩, ⟨3, 6⟩, ⟨3, 9⟩, ⟨3, 9⟩, ⟨3, 9⟩, ⟨4, 1⟩] :=
    exists_ok_of_any (by decide +kernel)
  obtain ⟨es, laid, held, -, ordered⟩ := Token.scan_extracts scanned
  exact ⟨tokens, es, scanned, places, laid, held, ordered⟩

end ViewStyle
