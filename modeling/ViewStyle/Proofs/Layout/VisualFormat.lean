/-
Visual formats in stylesheets. The string of a format is written down again between double quotes,
where its own quotes and its backslashes are escaped, and the plugin takes off no more than the outer
quotes. The views that it finds are the same ones as in the string, because an escape is never part
of a word.
-/

import ViewStyle.Proofs.Stylesheet.RawText

set_option autoImplicit false

namespace ViewStyle

namespace Token

private theorem escapeQuotes_cons_of_special {c : Char} (h : c = '"' ∨ c = '\\') (cs : List Char) :
    escapeQuotes (c :: cs) = '\\' :: c :: escapeQuotes cs := by
  simp [escapeQuotes, h]

private theorem escapeQuotes_cons_of_plain {c : Char} (h : ¬(c = '"' ∨ c = '\\')) (cs : List Char) :
    escapeQuotes (c :: cs) = c :: escapeQuotes cs := by
  simp [escapeQuotes, h]

private theorem length_le_escapeQuotes (cs : List Char) : cs.length ≤ (escapeQuotes cs).length := by
  induction cs with
  | nil => exact Nat.le_refl 0
  | cons c cs ih =>
      by_cases special : c = '"' ∨ c = '\\'
      · rw [escapeQuotes_cons_of_special special]
        exact Nat.succ_le_succ (Nat.le_succ_of_le ih)
      · rw [escapeQuotes_cons_of_plain special]
        exact Nat.succ_le_succ ih

private theorem escapeQuotes_eq_self_iff {cs : List Char} :
    escapeQuotes cs = cs ↔ '"' ∉ cs ∧ '\\' ∉ cs := by
  induction cs with
  | nil => simp [escapeQuotes]
  | cons c cs ih =>
      by_cases special : c = '"' ∨ c = '\\'
      · rw [escapeQuotes_cons_of_special special]
        constructor
        · intro same
          have longer := congrArg List.length same
          have bound := length_le_escapeQuotes cs
          simp only [List.length_cons] at longer
          omega
        · rintro ⟨quotes, slashes⟩
          rcases special with rfl | rfl
          · exact absurd List.mem_cons_self quotes
          · exact absurd List.mem_cons_self slashes
      · rw [escapeQuotes_cons_of_plain special, List.cons.injEq]
        simp only [true_and, ih, List.mem_cons, not_or]
        have quote : '"' ≠ c := fun same => special (.inl same.symm)
        have slash : '\\' ≠ c := fun same => special (.inr same.symm)
        exact ⟨fun h => ⟨⟨quote, h.1⟩, slash, h.2⟩, fun h => ⟨h.1.2, h.2.2⟩⟩

end Token

namespace Layout

def reference? (word : List Char) : Option String :=
  match word.dropWhile (· != '_') with
  | underscore :: c :: cs => some (String.ofList (underscore :: c :: cs))
  | _ => none

/-- The references of a format from left to right. Its words are the runs of word characters. -/
def references (format : List Char) : List String :=
  (format.splitOnP (!Text.isWord ·)).filterMap reference?

private theorem splitOnP_eq_takeWhile {α : Type} (p : α → Bool) (l : List α) :
    l.splitOnP (!p ·) =
      l.takeWhile p :: ((l.dropWhile p).tail?.elim [] (List.splitOnP (!p ·))) := by
  induction l with
  | nil => rfl
  | cons a l ih =>
      rw [List.splitOnP_cons_eq_if_modifyHead]
      cases h : p a
      · simp [h]
      · simp [h, ih]

@[simp]
private theorem references_nil : references [] = [] := by
  simp [references, reference?]

private theorem references_cons {c : Char} (other : c ≠ '_') (cs : List Char) :
    references (c :: cs) = references cs := by
  unfold references
  rw [List.splitOnP_cons_eq_if_modifyHead]
  split
  · rfl
  · obtain ⟨word, words, split⟩ := List.exists_cons_of_ne_nil
      (List.splitOnP_ne_nil (!Text.isWord ·) cs)
    have same : reference? (c :: word) = reference? word := by
      rw [reference?, List.dropWhile_cons_of_pos (by simpa using other), reference?]
    rw [split, List.modifyHead_cons, List.filterMap_cons, List.filterMap_cons, same]

private theorem references_dropWhile (cs : List Char) :
    references (cs.dropWhile Text.isWord) =
      ((cs.dropWhile Text.isWord).tail?.elim [] (List.splitOnP (!Text.isWord ·))).filterMap
        reference? := by
  cases behind : cs.dropWhile Text.isWord with
  | nil => simp
  | cons c rest =>
      have other : c ≠ '_' := by
        rintro rfl
        have stops := List.head?_dropWhile_not Text.isWord cs
        rw [behind] at stops
        exact Bool.noConfusion stops
      rw [references_cons other]
      rfl

private theorem reference?_underscore (word : List Char) :
    reference? ('_' :: word) =
      if word.isEmpty then none else some (String.ofList ('_' :: word)) := by
  cases word <;> rfl

private theorem references_underscore (cs : List Char) :
    references ('_' :: cs) =
      (reference? ('_' :: cs.takeWhile Text.isWord)).toList ++
        references (cs.dropWhile Text.isWord) := by
  have word : Text.isWord '_' = true := rfl
  rw [references_dropWhile, references, splitOnP_eq_takeWhile, List.takeWhile_cons_of_pos word,
    List.dropWhile_cons_of_pos word, List.filterMap_cons]
  cases reference? ('_' :: cs.takeWhile Text.isWord) <;> rfl

private theorem eraseDups_filter {α : Type} [BEq α] [LawfulBEq α] (p : α → Bool) :
    ∀ l : List α, (l.filter p).eraseDups = l.eraseDups.filter p
  | [] => rfl
  | a :: l => by
      have smaller : (l.filter fun b => !b == a).length < l.length + 1 :=
        Nat.lt_succ_of_le (List.length_filter_le _ _)
      rw [List.eraseDups_cons, List.filter_cons, List.filter_cons, ← eraseDups_filter p]
      split
      · rw [List.eraseDups_cons, List.filter_filter, List.filter_filter]
        simp only [Bool.and_comm]
      · rename_i fails
        refine congrArg List.eraseDups ?_
        rw [List.filter_filter]
        refine List.filter_congr fun b _ => ?_
        by_cases same : b = a <;> simp [same, fails]
termination_by l => l.length

/-- The keys of a format are its references without repetition, the view itself apart. -/
theorem viewKeys_eq (cs : List Char) :
    viewKeys cs = (references cs).eraseDups.filter (· != selfKey) := by
  rw [← eraseDups_filter]
  fun_induction viewKeys cs with
  | case1 => rfl
  | case2 cs key smaller others skipped ih =>
      have none_here : (reference? ('_' :: cs.takeWhile Text.isWord)).toList.filter
          (· != selfKey) = [] := by
        rw [reference?_underscore]
        cases empty : (cs.takeWhile Text.isWord).isEmpty
        · have itself : key = selfKey := by simpa [empty] using skipped
          simp [key, itself]
        · rfl
      rw [references_underscore, List.filter_append, none_here]
      exact ih
  | case3 cs key smaller others listed ih =>
      obtain ⟨nonempty, other⟩ := Bool.or_eq_false_iff.1 (Bool.eq_false_iff.2 listed)
      have differs : (key != selfKey) = true := by
        rw [bne, other]
        rfl
      have here : (reference? ('_' :: cs.takeWhile Text.isWord)).toList.filter
          (· != selfKey) = [key] := by
        rw [reference?_underscore, nonempty]
        exact List.filter_cons_of_pos differs
      rw [references_underscore, List.filter_append, here, List.singleton_append,
        List.eraseDups_cons, eraseDups_filter, ← ih]
      rfl
  | case4 c cs other ih =>
      rw [references_cons other, ih]

private theorem references_append_cons {c : Char} (outside : Text.isWord c = false)
    (front back : List Char) :
    references (front ++ c :: back) = references front ++ references back := by
  have separates : (!Text.isWord c) = true := by rw [outside]; rfl
  rw [references, List.splitOnP_append_cons front back separates, List.filterMap_append]
  rfl

private theorem references_append_escapeQuotes (front cs : List Char) :
    references (front ++ Token.escapeQuotes cs) = references (front ++ cs) := by
  induction cs generalizing front with
  | nil => rfl
  | cons c cs ih =>
      by_cases special : c = '"' ∨ c = '\\'
      · have outside : Text.isWord c = false := by
          rcases special with rfl | rfl <;> rfl
        have behind : references (c :: Token.escapeQuotes cs) = references cs :=
          (references_append_cons outside [] _).trans (ih [])
        rw [Token.escapeQuotes_cons_of_special special, references_append_cons rfl, behind,
          references_append_cons outside]
      · rw [Token.escapeQuotes_cons_of_plain special]
        simpa using ih (front ++ [c])

private theorem viewKeys_escapeQuotes (cs : List Char) :
    viewKeys (Token.escapeQuotes cs) = viewKeys cs := by
  have same : references (Token.escapeQuotes cs) = references cs :=
    references_append_escapeQuotes [] cs
  rw [viewKeys_eq, viewKeys_eq, same]

private theorem trimStart_append {blanks : List Char} (blank : ∀ c ∈ blanks, Text.isBlank c = true)
    {c : Char} (shown : Text.isBlank c = false) (cs : List Char) :
    Text.trimStart (blanks ++ c :: cs) = c :: cs := by
  rw [Text.trimStart, List.dropWhile_append_of_pos blank, List.dropWhile_cons_of_neg (by simp [shown])]

private theorem trim_quoted {front back : List Char} (blank : ∀ c ∈ front, Text.isBlank c = true)
    (blank' : ∀ c ∈ back, Text.isBlank c = true) (format : List Char) :
    Text.trim (front ++ '"' :: (format ++ '"' :: back)) = '"' :: (format ++ ['"']) := by
  have reversed : ('"' :: (format ++ '"' :: back)).reverse =
      back.reverse ++ '"' :: ('"' :: format).reverse := by simp
  rw [Text.trim, trimStart_append blank rfl, reversed,
    trimStart_append (fun c member => blank' c (List.mem_reverse.1 member)) rfl]
  simp

private theorem readVisual_quoted {front back : List Char}
    (blank : ∀ c ∈ front, Text.isBlank c = true) (blank' : ∀ c ∈ back, Text.isBlank c = true)
    (format : List Char) :
    readVisual (front ++ '"' :: (format ++ '"' :: back)) =
      .ok (.visual (String.ofList format) (viewKeys format)) := by
  have inner : unquote? '"' ('"' :: (format ++ ['"'])) = some format := by
    simp [unquote?]
  rw [readVisual, trim_quoted blank blank', inner]
  rfl

private theorem argument?_call (function : String) (argument : List Char) :
    argument? function (function.toList ++ '(' :: (argument ++ [')'])) = some argument := by
  have same : function.toList ++ '(' :: (argument ++ [')']) =
      (function.toList ++ ['(']) ++ (argument ++ [')']) := by simp
  rw [same, argument?, if_pos (List.isPrefixOf_iff_prefix.2 (List.prefix_append _ _)),
    List.drop_left]
  simp

def gap (token : Token) : List Char := if token.spaced then [' '] else []

private theorem isBlank_of_mem_gap {token : Token} : ∀ c ∈ gap token, Text.isBlank c = true := by
  unfold gap
  split
  · exact List.forall_mem_singleton.2 rfl
  · exact fun c member => nomatch member

/-- The tokens of a visual format: the name of the function with its bracket, a string, and the
closing bracket. -/
def IsVisual (text : String) (tokens : List Token) : Prop :=
  tokens.map (·.kind) =
    [.function "constraint-vfl", .string text, .punct (.closing .round)]

private theorem IsVisual.toList_render {text : String} {tokens : List Token}
    (h : IsVisual text tokens) :
    ∃ string closing, (Token.render tokens).toList = "constraint-vfl".toList ++
      '(' :: ((gap string ++ '"' :: (Token.escapeQuotes text.toList ++ '"' :: gap closing)) ++
        [')']) := by
  obtain ⟨function, rest, rfl, kind, h⟩ := List.map_eq_cons_iff.1 h
  obtain ⟨string, rest, rfl, kind', h⟩ := List.map_eq_cons_iff.1 h
  obtain ⟨closing, rest, rfl, kind'', h⟩ := List.map_eq_cons_iff.1 h
  cases List.map_eq_nil_iff.1 h
  refine ⟨string, closing, ?_⟩
  cases spaced : string.spaced <;> cases spaced' : closing.spaced <;>
    simp [Token.render, Token.renderRest, Token.Kind.text, gap, kind, kind', kind'', spaced,
      spaced', Punct.char, Bracket.closing]

private theorem IsVisual.read {text : String} {tokens : List Token} (h : IsVisual text tokens) :
    isCall (Token.render tokens) = true ∧
      Template.read (Token.render tokens) =
        .ok (.visual (String.ofList (Token.escapeQuotes text.toList)) (viewKeys text.toList)) := by
  obtain ⟨string, closing, written⟩ := h.toList_render
  constructor
  · have starts : "constraint-vfl(".isPrefixOf (Token.render tokens) = true := by
      refine String.startsWith_string_iff.2 ?_
      rw [written, List.append_cons]
      exact List.prefix_append _ _
    rw [isCall, starts, Bool.or_true]
  · rw [Template.read, written, argument?_call]
    dsimp only
    rw [readVisual_quoted isBlank_of_mem_gap isBlank_of_mem_gap, viewKeys_escapeQuotes]

end Layout

namespace Draft

open Layout (IsVisual references selfKey subviewOfKey)

private theorem Evaluated.compute_visual {tokens read : List Token} {v : Value}
    (h : Evaluated .builtins tokens v) (raw : v.raw = Token.render read) {text : String}
    (visual : IsVisual text read) (environment : Environment) (element : Element) :
    v.compute ⟨environment, some element⟩ =
      .ok (.constraints [.visual (String.ofList (Token.escapeQuotes text.toList))
        (selfKey :: (references text.toList).eraseDups.filter fun key =>
          key != selfKey && element.hasProperty (subviewOfKey key))]) := by
  obtain ⟨s, s', important, evaluated⟩ := h
  obtain ⟨claimed, template⟩ := visual.read
  rw [(readFrom_value evaluated).1.raw] at raw
  have claimant : Registry.builtins.claimant? (Token.render tokens) = some .constraint := by
    rw [raw]
    exact List.find?_cons_of_pos claimed
  unfold Builder.State.value at evaluated
  dsimp only at evaluated
  rw [claimant] at evaluated
  dsimp only [Plugin.constraint] at evaluated
  rw [raw, template] at evaluated
  cases evaluated
  simp only [Value.compute, Layout.Template.resolve, Layout.viewKeys_eq, List.filter_filter,
    Bool.and_comm]

end Draft

namespace Builder

open Layout (IsVisual references selfKey subviewOfKey)
open Text (Span)

theorem exists_evaluated_of_build {registry : Registry} {serial : Nat} {tokens : List Token} {s : State}
    {blocks : List Draft.Block} (accepted : build registry serial tokens = .ok s)
    (written : Draft.Written blocks tokens) {v : Value} (holds : s.sheet.Holds v) :
    ∃ above c below value meaning, Draft.clauses blocks = above ++ c :: below ∧
      value ∈ c.values ∧ Draft.Means above value meaning ∧ Draft.Evaluated registry meaning v := by
  obtain ⟨resolved, resolves, performs⟩ := exists_performed_of_build accepted written
  have from_clause : ∃ c' ∈ resolved, ∃ meaning ∈ c'.values, Draft.Evaluated registry meaning v := by
    rcases Draft.exists_evaluated_of_holds performs holds with start | found
    · rcases start with ⟨e, none, -⟩ | ⟨d, none, -⟩ <;> cases none
    · exact found
  obtain ⟨c', member, meaning, values', evaluated⟩ := from_clause
  obtain ⟨above, c, below, split, resolved_here⟩ := resolves.exists_resolves member
  obtain ⟨value, values, means⟩ := resolved_here.exists_means.2 meaning values'
  exact ⟨above, c, below, value, meaning, split, values, means, evaluated⟩

/-- Every value of a stylesheet has the text of the tokens that it means. If these call a visual format
with one string, then the value is a single constraint for every view. Its format is the string with
a backslash in front of every quote and every backslash, so that it is the string itself only if
there are none; and it sees the view and the references of the string that the view has, each once,
in the order in which they come up. -/
theorem compute_of_visual {serial : Nat} {tokens : List Token} {s : State}
    {blocks : List Draft.Block} (accepted : build .builtins serial tokens = .ok s)
    (written : Draft.Written blocks tokens) {v : Value} (holds : s.sheet.Holds v) :
    (∃ above c below value meaning, Draft.clauses blocks = above ++ c :: below ∧
      value ∈ c.values ∧ Draft.Means above value meaning ∧ v.raw = Token.render meaning) ∧
      ∀ read text, v.raw = Token.render read → IsVisual text read → ∃ format,
        (∀ environment element, v.compute ⟨environment, some element⟩ =
          .ok (.constraints [.visual format
            (selfKey :: (references text.toList).eraseDups.filter fun key =>
              key != selfKey && element.hasProperty (subviewOfKey key))])) ∧
          format.toList = Token.escapeQuotes text.toList ∧
            (format = text ↔ '"' ∉ text.toList ∧ '\\' ∉ text.toList) := by
  obtain ⟨above, c, below, value, meaning, split, values, means, evaluated⟩ :=
    exists_evaluated_of_build accepted written holds
  have raw : v.raw = Token.render meaning := by
    obtain ⟨_, _, _, evaluated⟩ := evaluated
    exact (readFrom_value evaluated).1.raw
  refine ⟨⟨above, c, below, value, meaning, split, values, means, raw⟩, ?_⟩
  intro read text here visual
  refine ⟨String.ofList (Token.escapeQuotes text.toList), evaluated.compute_visual here visual,
    String.toList_ofList, ?_⟩
  rw [← Token.escapeQuotes_eq_self_iff, ← String.toList_inj, String.toList_ofList]

private theorem exists_holds_of_raws {s : Stylesheet} {raws : List String}
    (h : (s.rules.entries.flatMap fun e => e.declared.entries.map (·.2.value.raw)) = raws)
    {raw : String} (member : raw ∈ raws) : ∃ v, s.Holds v ∧ v.raw = raw := by
  rw [← h] at member
  obtain ⟨e, entry, inside⟩ := List.mem_flatMap.1 member
  obtain ⟨d, declared, rfl⟩ := List.mem_map.1 inside
  exact ⟨d.2.value, .inl ⟨e, entry, d, declared, rfl⟩, rfl⟩

/-- A format that refers to one view twice, and to another one that is not there. -/
theorem compute_of_visual_twice : ∃ (tokens : List Token) (s : State) (v : Value),
    Token.scan ".A\x7bt: constraint-vfl('H:|-[_a]-[_b]-[_a]-|')\x7d" none = .ok tokens ∧
      build .builtins 0 tokens = .ok s ∧ s.sheet.Holds v ∧
      v.raw = "constraint-vfl(\x22H:|-[_a]-[_b]-[_a]-|\x22)" ∧
      ∀ environment, v.compute ⟨environment, some ⟨"V", (· == "a"), fun _ => none⟩⟩ =
        .ok (.constraints [.visual "H:|-[_a]-[_b]-[_a]-|" ["__self", "_a"]]) := by
  let place (column : Nat) : Span := ⟨none, ⟨1, column⟩⟩
  let call : List Token := [⟨.function "constraint-vfl", place 7, true⟩,
    ⟨.string "H:|-[_a]-[_b]-[_a]-|", place 22, false⟩, ⟨.punct (.closing .round), place 44, false⟩]
  let t : Draft.Property := ⟨"t", [], ⟨call, by decide +kernel⟩, List.not_mem_nil⟩
  let blocks : List Draft.Block := [.rules ⟨.className "A", ⟨[], none⟩⟩ [] (.declare t .done)]
  obtain ⟨tokens, scanned, written⟩ : ∃ tokens,
      Token.scan ".A\x7bt: constraint-vfl('H:|-[_a]-[_b]-[_a]-|')\x7d" none = .ok tokens ∧
        Draft.Written blocks tokens :=
    ⟨_, by decide +kernel, .block
      (.rules (place 3) (place 45) false false (by decide)
        (.last (.intro (.dot "A" (place 1) (place 2) false) (.intro .nil .absent)))
        (.declare
          (@Draft.Property.Written.intro t [⟨.ident "t", place 4, false⟩] (place 5) false rfl)
          .done (.inl rfl))) .nil⟩
  obtain ⟨s, effect, raws⟩ : ∃ s,
      blocks.foldlM (Outline.Block.effect (Draft.semantics .builtins)) (.start 0) = some s ∧
      (s.sheet.rules.entries.flatMap fun e => e.declared.entries.map (·.2.value.raw)) =
        ["constraint-vfl(\x22H:|-[_a]-[_b]-[_a]-|\x22)"] :=
    Option.map_eq_some_iff.1 (by decide +kernel)
  have accepted : build .builtins 0 tokens = .ok s :=
    (build_eq_ok_iff_effect written).2 effect
  obtain ⟨v, holds, raw⟩ := exists_holds_of_raws raws List.mem_cons_self
  obtain ⟨-, visual⟩ := compute_of_visual accepted written holds
  have written_so : v.raw = Token.render call := raw.trans (by decide +kernel)
  obtain ⟨format, computed, -, same⟩ := visual call _ written_so rfl
  have format_eq : format = "H:|-[_a]-[_b]-[_a]-|" := same.2 (by decide +kernel)
  have views : (references "H:|-[_a]-[_b]-[_a]-|".toList).eraseDups.filter (fun key =>
      key != selfKey && (subviewOfKey key == "a")) = ["_a"] := by decide +kernel
  refine ⟨tokens, s, v, scanned, accepted, holds, raw, fun environment => ?_⟩
  rw [computed, format_eq, views]
  rfl

/-- The quotes of a string in single quotes: the format that is computed has backslashes. -/
theorem compute_visual_escapes : ∃ (tokens read : List Token) (s : State) (v : Value),
    Token.scan ".A \x7b t: constraint-vfl('H:|-[_a]-(\x22x\x22)-|'); \x7d" none = .ok tokens ∧
      build .builtins 0 tokens = .ok s ∧ s.sheet.Holds v ∧ v.raw = Token.render read ∧
      IsVisual "H:|-[_a]-(\x22x\x22)-|" read ∧
      ∀ environment element, ∃ views, v.compute ⟨environment, some element⟩ =
        .ok (.constraints [.visual "H:|-[_a]-(\x5c\x22x\x5c\x22)-|" views]) := by
  let place (column : Nat) : Span := ⟨none, ⟨1, column⟩⟩
  let read : List Token := [⟨.function "constraint-vfl", place 9, true⟩,
    ⟨.string "H:|-[_a]-(\x22x\x22)-|", place 24, false⟩,
    ⟨.punct (.closing .round), place 45, false⟩]
  have computed : ((Token.scan ".A \x7b t: constraint-vfl('H:|-[_a]-(\x22x\x22)-|'); \x7d"
      none).toOption.bind fun tokens => (build .builtins 0 tokens).toOption.map fun s =>
        s.sheet.rules.entries.flatMap fun e => e.declared.entries.map (·.2.value.raw)) =
      some [Token.render read] := by
    decide +kernel
  obtain ⟨tokens, scanned, h⟩ := Option.bind_eq_some_iff.1 computed
  obtain ⟨s, accepted, raws⟩ := Option.map_eq_some_iff.1 h
  have built := eq_ok_of_toOption accepted
  obtain ⟨v, holds, raw⟩ := exists_holds_of_raws raws List.mem_cons_self
  obtain ⟨blocks, written⟩ := exists_written_of_build built
  obtain ⟨above, c, below, value, meaning, -, -, -, evaluated⟩ :=
    exists_evaluated_of_build built written holds
  exact ⟨tokens, read, s, v, eq_ok_of_toOption scanned, built, holds, raw, rfl,
    fun environment element => ⟨_, evaluated.compute_visual raw rfl environment element⟩⟩

end Builder

end ViewStyle
