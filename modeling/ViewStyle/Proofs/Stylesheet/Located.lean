/-
Where the faults of a stylesheet show. An error of the grammar carries a place, and that is the
place of a token of the entry text or of a file that was loaded; so it names the right text.
-/

import ViewStyle.Proofs.Condition.Located
import ViewStyle.Proofs.Stylesheet.Loading
import ViewStyle.Proofs.Token.Rendering
import ViewStyle.Stylesheet.Source

set_option autoImplicit false

namespace ViewStyle

open Text (Span)
open Token (AllAt allAt_nil)

def ReadError.At (P : Span → Prop) (e : ReadError) : Prop := ∃ span, e.span = some span ∧ P span

variable {P : Span → Prop}

private theorem located_ofCondition {tokens : List Token} (within : AllAt P tokens) {span : Span}
    (here : P span) :
    Yields (fun e => (ReadError.ofCondition e (some span)).At P) (fun _ => True)
      (Condition.ofTokens tokens) := by
  by_cases nothing : tokens = []
  · -- The only error without a place of its own: it shows at the bracket.
    subst nothing
    exact ⟨span, rfl, here⟩
  · have located := Expr.located_ofTokens nothing within
    unfold Condition.ofTokens
    cases read : Expr.ofTokens tokens with
    | ok e => trivial
    | error e =>
        rw [read] at located
        obtain ⟨span', at_span, place⟩ := located
        exact ⟨span', by rw [ReadError.ofCondition, at_span]; rfl, place⟩

namespace Builder

def State.Sited (P : Span → Prop) (s : State) : Prop :=
  ∀ definition ∈ s.definitions, definition.2 ≠ [] ∧ AllAt P definition.2

private theorem mem_of_lookup {name : String} {definitions : List (String × List Token)}
    {tokens : List Token} (found : definitions.lookup name = some tokens) :
    (name, tokens) ∈ definitions := by
  obtain ⟨earlier, later, rfl, -⟩ := List.lookup_eq_some_iff.1 found
  exact List.mem_append_right earlier List.mem_cons_self

private theorem respaced_ne_nil (reference : Token) {tokens : List Token}
    (some_token : tokens ≠ []) : respaced reference tokens ≠ [] := by
  obtain ⟨first, rest, rfl⟩ := List.exists_cons_of_ne_nil some_token
  exact List.cons_ne_nil _ _

private theorem allAt_respaced (reference : Token) {tokens : List Token} (within : AllAt P tokens) :
    AllAt P (respaced reference tokens) := by
  cases tokens with
  | nil => exact within
  | cons first rest =>
      obtain ⟨here, others⟩ := List.forall_mem_cons.1 within
      exact List.forall_mem_cons.2 ⟨here, others⟩

private theorem located_substitute {s : State} (sited : s.Sited P) {tokens : List Token}
    (within : AllAt P tokens) :
    Yields (ReadError.At P) (fun result => AllAt P result ∧ (tokens ≠ [] → result ≠ []))
      (s.substitute tokens) := by
  induction tokens with
  | nil => exact ⟨allAt_nil, fun absurd => absurd⟩
  | cons token rest ih =>
      obtain ⟨here, others⟩ := List.forall_mem_cons.1 within
      unfold State.substitute
      split
      · rename_i name _
        cases found : s.definitions.lookup name with
        | none => exact ⟨token.span, rfl, here⟩
        | some definition =>
            obtain ⟨some_token, sited⟩ := sited _ (mem_of_lookup found)
            refine (ih others).bind fun result read => ?_
            obtain ⟨after, _⟩ := read
            refine ⟨List.forall_mem_append.2 ⟨allAt_respaced token sited, after⟩, fun _ => ?_⟩
            exact List.append_ne_nil_of_left_ne_nil (respaced_ne_nil token some_token) _
      · refine (ih others).bind fun result read => ?_
        obtain ⟨after, _⟩ := read
        exact ⟨List.forall_mem_cons.2 ⟨here, after⟩, fun _ => List.cons_ne_nil _ _⟩

private theorem located_value {s : State} (sited : s.Sited P) (registry : Registry)
    {tokens : List Token} (some_token : tokens ≠ []) (within : AllAt P tokens) (important : Bool) :
    Yields (ReadError.At P) (fun result => result.2.Sited P)
      (s.value registry tokens important) := by
  unfold State.value
  dsimp only
  split
  · exact sited
  · split
    · obtain ⟨first, rest, rfl⟩ := List.exists_cons_of_ne_nil some_token
      exact ⟨first.span, rfl, within first List.mem_cons_self⟩
    · exact sited

private theorem allAt_skipSemicolon {tokens : List Token} (within : AllAt P tokens) :
    AllAt P (skipSemicolon tokens) := by
  unfold skipSemicolon
  split
  · exact within.tail
  · exact within

private theorem allAt_takeImportance {tokens : List Token} (within : AllAt P tokens) :
    AllAt P (takeImportance tokens).1 := by
  unfold takeImportance
  split
  · split
    · rename_i value reversed _
      intro token member
      refine within token (List.mem_reverse.1 ?_)
      rw [reversed]
      exact List.mem_cons_of_mem _ (List.mem_cons_of_mem _ (List.mem_reverse.1 member))
    · exact within
  · exact within

section

variable {final : Span} (here : P final)

include here

private theorem located_unexpected {α : Type} {Q : α → Prop} (expected : Expectation)
    {tokens : List Token} (within : AllAt P tokens) :
    Yields (ReadError.At P) Q (unexpected (some final) expected tokens) := by
  cases tokens with
  | nil => exact ⟨final, rfl, here⟩
  | cons token rest => exact ⟨token.span, rfl, within token List.mem_cons_self⟩

private theorem located_takeBrace (expected : Expectation) {tokens : List Token}
    (within : AllAt P tokens) :
    Yields (ReadError.At P) (AllAt P) (takeBrace (some final) expected tokens) := by
  unfold takeBrace
  split
  · exact within.tail
  · exact located_unexpected here expected within

private theorem located_takeGroup (depth : Nat) {tokens : List Token} (within : AllAt P tokens) :
    Yields (ReadError.At P) (fun taken => AllAt P taken.1 ∧ AllAt P taken.2)
      (takeGroup (some final) depth tokens) := by
  induction tokens generalizing depth with
  | nil => exact located_unexpected here _ within
  | cons token rest ih =>
      obtain ⟨first, others⟩ := List.forall_mem_cons.1 within
      unfold takeGroup
      split
      · exact ⟨allAt_nil, others⟩
      · refine (ih _ others).bind fun taken read => ?_
        obtain ⟨group, after⟩ := read
        exact ⟨List.forall_mem_cons.2 ⟨first, group⟩, after⟩

private theorem located_takeValue (depth : Nat) {tokens : List Token} (within : AllAt P tokens) :
    Yields (ReadError.At P) (fun taken => AllAt P taken.1 ∧ AllAt P taken.2)
      (takeValue (some final) depth tokens) := by
  induction tokens generalizing depth with
  | nil => exact located_unexpected here _ within
  | cons token rest ih =>
      obtain ⟨first, others⟩ := List.forall_mem_cons.1 within
      unfold takeValue
      dsimp only
      split
      · exact ⟨allAt_nil, within⟩
      · exact ⟨allAt_nil, within⟩
      · exact ⟨token.span, rfl, first⟩
      · exact ⟨token.span, rfl, first⟩
      · refine (ih _ others).bind fun taken read => ?_
        obtain ⟨value, after⟩ := read
        exact ⟨List.forall_mem_cons.2 ⟨first, value⟩, after⟩

private theorem located_takeConditions {s : State} (sited : s.Sited P)
    (condition : Option Condition) {tokens : List Token} (within : AllAt P tokens) :
    Yields (ReadError.At P) (fun taken => AllAt P taken.2)
      (takeConditions (some final) s condition tokens) := by
  fun_induction takeConditions (some final) s condition tokens with
  | case1 condition span spaced rest e failed =>
      exact (located_takeGroup here 0 within.tail).of_error failed
  | case2 condition span spaced rest group rest' read _ e failed =>
      have group_within := ((located_takeGroup here 0 within.tail).of_ok read).1
      exact (located_substitute sited group_within).of_error failed
  | case3 condition span spaced rest group rest' read _ group' substituted e failed =>
      have group_within := ((located_takeGroup here 0 within.tail).of_ok read).1
      have group'_within := ((located_substitute sited group_within).of_ok substituted).1
      exact (located_ofCondition group'_within (within _ List.mem_cons_self)).of_error failed
  | case4 condition span spaced rest group rest' read _ group' substituted next _ ih =>
      exact ih ((located_takeGroup here 0 within.tail).of_ok read).2
  | case5 condition tokens => exact within

private theorem located_takeQualifier {tokens : List Token} (within : AllAt P tokens) :
    Yields (ReadError.At P) (fun taken => AllAt P taken.2)
      (takeQualifier (some final) tokens) := by
  unfold takeQualifier
  split
  · split
    · exact ⟨final, rfl, here⟩
    · split
      · exact within.tail.tail
      · exact ⟨_, rfl, within.tail _ List.mem_cons_self⟩
  · exact within

private theorem located_takeRefinement {s : State} (sited : s.Sited P) {tokens : List Token}
    (within : AllAt P tokens) :
    Yields (ReadError.At P) (fun taken => AllAt P taken.2)
      (takeRefinement (some final) s tokens) :=
  (located_takeConditions here sited none within).bind fun _ middle =>
    (located_takeQualifier here middle).bind fun _ after => after

private theorem located_takeTarget {tokens : List Token} (within : AllAt P tokens) :
    Yields (ReadError.At P) (fun taken => AllAt P taken.2) (takeTarget (some final) tokens) := by
  unfold takeTarget
  split
  · exact located_unexpected here _ within
  · split
    · exact within.tail.tail
    · exact ⟨_, rfl, within _ List.mem_cons_self⟩
  · exact within.tail
  · exact within.tail
  · exact located_unexpected here _ within

private theorem located_takeSelector {s : State} (sited : s.Sited P) {tokens : List Token}
    (within : AllAt P tokens) :
    Yields (ReadError.At P) (fun taken => AllAt P taken.2)
      (takeSelector (some final) s tokens) :=
  (located_takeTarget here within).bind fun _ middle =>
    (located_takeRefinement here sited middle).bind fun _ after => after

private theorem located_takeSelectors {s : State} (sited : s.Sited P) {tokens : List Token}
    (within : AllAt P tokens) :
    Yields (ReadError.At P) (fun taken => AllAt P taken.2)
      (takeSelectors (some final) s tokens) := by
  fun_induction takeSelectors (some final) s tokens with
  | case1 tokens e failed => exact (located_takeSelector here sited within).of_error failed
  | case2 tokens selector span spaced rest read _ e failed ih =>
      exact (ih ((located_takeSelector here sited within).of_ok read).tail).of_error failed
  | case3 tokens selector span spaced rest read _ others rest' read' ih =>
      have after := (ih ((located_takeSelector here sited within).of_ok read).tail).of_ok read'
      exact after
  | case4 tokens selector rest _ read =>
      exact (located_takeSelector here sited within).of_ok read

private theorem located_takeKey (key : List Char) {tokens : List Token} (within : AllAt P tokens) :
    Yields (ReadError.At P) (fun taken => AllAt P taken.2)
      (takeKey (some final) key tokens) := by
  induction tokens generalizing key with
  | nil => exact located_unexpected here _ within
  | cons token rest ih =>
      unfold takeKey
      split
      · exact ih _ within.tail
      · exact ih _ within.tail
      · exact within.tail
      · exact located_unexpected here _ within

private theorem located_declaration (registry : Registry) {s : State} (sited : s.Sited P)
    (selectors : List Selector) {tokens : List Token} (within : AllAt P tokens) :
    Yields (ReadError.At P) (fun read => read.1.Sited P ∧ AllAt P read.2)
      (declaration (some final) registry s selectors tokens) := by
  refine (located_takeKey here [] within).bind fun key after_key => ?_
  refine (located_takeValue here 0 after_key).bind fun taken read => ?_
  obtain ⟨value, after⟩ := read
  have written := allAt_takeImportance value
  dsimp only
  split
  · exact located_unexpected here _ after
  · rename_i some_token
    refine (located_substitute sited written).bind fun tokens read => ?_
    obtain ⟨value, nonempty⟩ := read
    refine (located_value sited registry (nonempty (by simpa using some_token)) value _).bind
      fun result sited' => ?_
    exact ⟨sited', allAt_skipSemicolon after⟩

private theorem located_takeAssignment {tokens : List Token} (within : AllAt P tokens) :
    Yields (ReadError.At P) (AllAt P) (takeAssignment (some final) tokens) := by
  unfold takeAssignment
  split
  · exact within.tail
  · exact within.tail
  · exact located_unexpected here _ within

private theorem located_definition (registry : Registry) {s : State} (sited : s.Sited P)
    (name : String) {tokens : List Token} (within : AllAt P tokens) :
    Yields (ReadError.At P) (fun read => read.1.Sited P ∧ AllAt P read.2)
      (definition (some final) registry s name tokens) := by
  refine (located_takeAssignment here within).bind fun tokens after_sign => ?_
  refine (located_takeValue here 0 after_sign).bind fun taken read => ?_
  obtain ⟨written, after⟩ := read
  dsimp only
  split
  · exact located_unexpected here _ after
  · rename_i some_token
    refine (located_substitute sited written).bind fun tokens read => ?_
    obtain ⟨value, nonempty⟩ := read
    have replaces := nonempty (by simpa using some_token)
    refine (located_value sited registry replaces value false).bind fun result sited' => ?_
    exact ⟨List.forall_mem_cons.2 ⟨⟨replaces, value⟩, sited'⟩, allAt_skipSemicolon after⟩

omit here in
private theorem located_refineAll (selectors : List Selector) (r : Refinement) {span : Span}
    (place : P span) : Yields (ReadError.At P) (fun _ => True) (refineAll selectors r span) := by
  unfold refineAll
  induction selectors with
  | nil => trivial
  | cons selector selectors ih =>
      rw [List.mapM_cons]
      refine Yields.bind (Q := fun _ => True) ?_ fun _ _ => ih.bind fun _ _ => trivial
      split
      · trivial
      · exact ⟨span, rfl, place⟩

def Progress.Sited (P : Span → Prop) (p : Progress) : Prop := p.state.Sited P ∧ AllAt P p.rest

private theorem located_topLevel {s : State} (sited : s.Sited P) {token : Token} {rest : List Token}
    (within : AllAt P (token :: rest)) :
    Yields (ReadError.At P) (Progress.Sited P) (topLevel (some final) s token rest) := by
  unfold topLevel
  split
  · exact ⟨sited, within.tail⟩
  · split
    · exact (located_takeBrace here _ within.tail).bind fun _ after => ⟨sited, after⟩
    · exact ⟨token.span, rfl, within token List.mem_cons_self⟩
  · refine (located_takeSelectors here sited within).bind fun _ middle => ?_
    exact (located_takeBrace here _ middle).bind fun _ after => ⟨sited, after⟩

private theorem located_inGlobals (registry : Registry) {s : State} (sited : s.Sited P)
    (outer : List Scope) {token : Token} {rest : List Token} (within : AllAt P (token :: rest)) :
    Yields (ReadError.At P) (Progress.Sited P)
      (inGlobals (some final) registry s outer token rest) := by
  unfold inGlobals
  split
  · exact ⟨sited, within.tail⟩
  · exact ⟨sited, within.tail⟩
  · exact (located_definition here registry sited _ within.tail).bind fun _ after => after
  · exact ⟨token.span, rfl, within token List.mem_cons_self⟩

private theorem located_inRules (registry : Registry) {s : State} (sited : s.Sited P)
    (selectors : List Selector) (outer : List Scope) {token : Token} {rest : List Token}
    (within : AllAt P (token :: rest)) :
    Yields (ReadError.At P) (Progress.Sited P)
      (inRules (some final) registry s selectors outer token rest) := by
  unfold inRules
  split
  · exact ⟨sited, within.tail⟩
  · exact ⟨sited, within.tail⟩
  · refine (located_takeRefinement here sited within.tail).bind fun refinement middle => ?_
    refine (located_takeBrace here _ middle).bind fun rest after => ?_
    exact (located_refineAll selectors _ (within token List.mem_cons_self)).bind
      fun _ _ => ⟨sited, after⟩
  · exact (located_declaration here registry sited selectors within).bind fun _ after => after

private theorem located_statement (registry : Registry) {s : State} (sited : s.Sited P)
    (scopes : List Scope) {token : Token} {rest : List Token} (within : AllAt P (token :: rest)) :
    Yields (ReadError.At P) (Progress.Sited P)
      (statement (some final) registry s scopes token rest) := by
  unfold statement
  split
  · exact located_topLevel here sited within
  · exact located_inGlobals here registry sited _ within
  · exact located_inRules here registry sited _ _ within

private theorem located_run (registry : Registry) {s : State} (sited : s.Sited P)
    (scopes : List Scope) {tokens : List Token} (within : AllAt P tokens) :
    Yields (ReadError.At P) (fun _ => True) (run (some final) registry s scopes tokens) := by
  fun_induction run (some final) registry s scopes tokens with
  | case1 s => trivial
  | case2 s scope outer => exact located_unexpected here _ within
  | case3 s scopes token rest e failed =>
      exact (located_statement here registry sited scopes within).of_error failed
  | case4 s scopes token rest p read _ ih =>
      obtain ⟨sited', after⟩ := (located_statement here registry sited scopes within).of_ok read
      exact ih sited' after

end

private theorem located_build (registry : Registry) (serial : Nat) {tokens : List Token}
    (within : AllAt P tokens) :
    Yields (ReadError.At P) (fun _ => True) (build registry serial tokens) := by
  have sited : (State.start serial).Sited P := nofun
  by_cases nothing : tokens = []
  · subst nothing
    rw [build, run]
    trivial
  · rw [build, List.getLast?_eq_some_getLast nothing]
    exact located_run (within _ (List.getLast_mem nothing)) registry sited [] within

end Builder

namespace Scan

private theorem allAt_push {tokens : List Token} (h : AllAt P tokens) {token : Token}
    (here : P token.span) : AllAt P (push tokens token) := by
  unfold push
  split
  · split
    · exact List.forall_mem_cons.2 (List.forall_mem_cons.1 h)
    · exact List.forall_mem_cons.2 ⟨here, h⟩
  · exact List.forall_mem_cons.2 ⟨here, h⟩

private theorem allAt_read {s s' : State} {origin : Option String} {text : List Char}
    {lexeme : Lexeme} (places : ∀ position, P ⟨origin, position⟩) (h : AllAt P s.tokens)
    (read : s.read origin text lexeme = .ok s') : AllAt P s'.tokens := by
  by_cases address : ∃ target, lexeme = .address target
  · obtain ⟨target, rfl⟩ := address
    cases read
    have emitted {s : State} (h : AllAt P s.tokens) (kind : Token.Kind) :
        AllAt P (s.emit origin kind).tokens := allAt_push h (places s.position)
    exact emitted (emitted (emitted h _) _) _
  · obtain gap | token := isPlain_of_read read fun target same => address ⟨target, same⟩
    · rw [read_gap gap] at read
      cases read
      exact h
    · obtain ⟨kind, kind_eq⟩ := Option.isSome_iff_exists.1 (token text)
      rw [read_eq_add kind_eq] at read
      rw [(tokens_add read).1]
      exact allAt_push h (places _)

private theorem allAt_run {origin : Option String} (places : ∀ position, P ⟨origin, position⟩)
    {s : State} (h : AllAt P s.tokens) {cs : List Char} {tokens : List Token}
    (run : run origin s cs = .ok tokens) : AllAt P tokens := by
  fun_induction Scan.run origin s cs with
  | case1 s groups =>
      cases run
      exact fun token member => h token (List.mem_reverse.1 member)
  | case2 => cases run
  | case3 => cases run
  | case4 s c cs lexeme n read_eq text s' read ih =>
      have kept := allAt_read places h read
      exact ih kept run

end Scan

private theorem Token.origin_of_scan {source : String} {origin : Option String}
    {tokens : List Token} (scanned : Token.scan source origin = .ok tokens) :
    AllAt (·.origin = origin) tokens := by
  exact Scan.allAt_run (fun _ => rfl) allAt_nil scanned

def SheetError.At (P : Span → Prop) : SheetError → Prop
  | .lex _ => True
  | .parse e => e.At P
  | .load _ => True

namespace Import

def Task.At (P : Span → Prop) (opened : List String) (budget : Nat) : Task → Prop
  | .file (some span) _ => P span
  | .file none _ => opened = [] ∧ 0 < budget
  | .tokens _ _ list => AllAt P list

private theorem located_target {directive : Token} {tokens : List Token}
    (within : AllAt P (directive :: tokens)) :
    Yields (ReadError.At P) (fun _ => True) (target directive tokens) := by
  obtain ⟨here, others⟩ := List.forall_mem_cons.1 within
  unfold target
  split
  · exact ⟨directive.span, rfl, here⟩
  · rename_i token rest
    have after : AllAt P rest := AllAt.tail others
    dsimp only
    split
    · split
      · trivial
      · trivial
      · exact ⟨_, rfl, after _ List.mem_cons_self⟩
    · split
      · trivial
      · trivial
      · exact ⟨_, rfl, after _ List.mem_cons_self⟩
    · exact ⟨token.span, rfl, others token List.mem_cons_self⟩

private theorem Targets.allAt {after rest : List Token} {name : String}
    (h : Targets after name rest) (within : AllAt P after) : AllAt P rest := by
  cases h with
  | last => exact within.tail
  | semicolon => exact within.tail.tail

private theorem allAt_placeAt (directive : Token) {tokens : List Token} (within : AllAt P tokens) :
    AllAt P (placeAt directive tokens) := by
  cases tokens with
  | nil => exact within
  | cons first rest => exact List.forall_mem_cons.2 (List.forall_mem_cons.1 within)

variable {source : FileSource}

private theorem Runs.located {opened : List String} {task : Task} {budget : Nat}
    {result : Expansion} {log : List FileName} (h : Runs source opened task budget result log)
    (files : ∀ file ∈ log, ∀ tokens, tokens? source file = some tokens → AllAt P tokens)
    (given : task.At P opened budget) :
    Yields (SheetError.At P) (fun expanded => AllAt P expanded.1) result := by
  -- The entry alone has no place. It is not being read yet, and the budget is not spent.
  induction h with
  | @again opened span _ _ again =>
      cases span with
      | none =>
          rw [given.1] at again
          cases again
      | some span => exact ⟨span, rfl, given⟩
  | @spent _ span _ _ =>
      cases span with
      | none => exact absurd given.2 (Nat.lt_irrefl 0)
      | some span => exact ⟨span, rfl, given⟩
  | missing => trivial
  | garbled => trivial
  | @opens _ _ file _ _ tokens _ _ _ loaded scanned _ ih =>
      obtain ⟨here, below⟩ := List.forall_mem_cons.1 files
      refine ih below (here tokens ?_)
      rw [tokens?, loaded]
      simp [scanned, Except.toOption]
  | done => exact allAt_nil
  | @other _ _ _ _ token _ result _ _ _ ih =>
      obtain ⟨here, others⟩ := List.forall_mem_cons.1 given
      have rest := ih files others
      cases result with
      | error e => exact rest
      | ok expanded => exact List.forall_mem_cons.2 ⟨here, rest⟩
  | @nested _ _ _ _ token _ _ _ => exact ⟨token.span, rfl, given token List.mem_cons_self⟩
  | broken _ failed => exact (located_target given).of_error failed
  | fails here targets _ ih => exact ih files (given _ List.mem_cons_self)
  | @inserts _ _ _ _ _ token _ _ imported result _ _ here targets _ _ ih_file ih =>
      obtain ⟨first, second⟩ := List.forall_mem_append.1 files
      have file := ih_file first (given _ List.mem_cons_self)
      have rest := ih second (targets.allAt (AllAt.tail given))
      cases result with
      | error e => exact rest
      | ok expanded => exact List.forall_mem_append.2 ⟨allAt_placeAt token file, rest⟩

end Import

namespace Reader

/-- The place of a token of the entry text, which has no name, or of a file that was asked for. -/
inductive Shown (source : FileSource) (entry : List Token) (log : List FileName) (span : Span) :
    Prop
  | entry (token : Token) (member : token ∈ entry) (place : token.span = span)
      (origin : span.origin = none)
  | file (file : FileName) (asked : file ∈ log) (tokens : List Token)
      (loaded : Import.tokens? source file = some tokens) (token : Token)
      (member : token ∈ tokens) (place : token.span = span) (origin : span.origin = some file.text)

private theorem shown_file {source : FileSource} {entry : List Token} {log : List FileName}
    {file : FileName} (asked : file ∈ log) {tokens : List Token}
    (loaded : Import.tokens? source file = some tokens) :
    AllAt (Shown source entry log) tokens := by
  intro token member
  obtain ⟨text, -, scanned⟩ := Import.exists_text_of_tokens? loaded
  exact .file file asked tokens loaded token member rfl (Token.origin_of_scan scanned token member)

private theorem located_of_runs (r : Reader) {entry : List Token} {task : Import.Task}
    {result : Import.Expansion} {log : List FileName}
    (run : Import.Runs r.source [] task fileLimit result log)
    (given : task.At (Shown r.source entry log) [] fileLimit) {e : ReadError}
    (failed : (result.map (·.1) >>= r.build) = .error (.parse e)) :
    e.At (Shown r.source entry log) := by
  have expanded := run.located (fun file asked tokens => shown_file asked) given
  cases result with
  | error e' =>
      cases failed
      exact expanded
  | ok result =>
      have built := Builder.located_build r.registry r.serial expanded
      have failed : r.build result.1 = .error (.parse e) := failed
      unfold build at failed
      split at failed
      · rename_i e' stopped
        cases failed
        exact built.of_error stopped
      · cases failed

/-- An error of the grammar has a place. It is the place of a token of the entry text, or of a file
that was asked for on the way, and it names that text. -/
theorem parse_located (r : Reader) (e : ReadError) :
    (∀ extension text, r.ofText extension text = .error (.parse e) →
      ∃ entry result log, Token.scan text none = .ok entry ∧
        Import.Runs r.source [] (.tokens extension 0 entry) fileLimit result log ∧
        ∃ span, e.span = some span ∧ Shown r.source entry log span) ∧
      ∀ file, r.ofFile file = .error (.parse e) →
        ∃ result log, Import.Runs r.source [] (.file none file) fileLimit result log ∧
          ∃ span, e.span = some span ∧ Shown r.source [] log span := by
  constructor
  · intro extension text failed
    unfold ofText Import.ofText at failed
    cases scanned : Token.scan text none with
    | error e' =>
        rw [scanned] at failed
        cases failed
    | ok entry =>
        rw [scanned] at failed
        obtain ⟨log, run⟩ := Import.exists_runs r.source (Nat.le_refl fileLimit) []
          (.tokens extension 0 entry)
        have given : AllAt (Shown r.source entry log) entry := fun token member =>
          .entry token member rfl (Token.origin_of_scan scanned token member)
        exact ⟨entry, _, log, rfl, run, r.located_of_runs run given failed⟩
  · intro file failed
    obtain ⟨log, run⟩ := Import.exists_runs r.source (Nat.le_refl fileLimit) [] (.file none file)
    exact ⟨_, log, run, r.located_of_runs run ⟨rfl, by decide⟩ failed⟩

/-- A condition without tokens in an imported file: the error shows at the bracket before them. -/
theorem parse_located_empty :
    let bundles := Bundles.empty.add "app" "b.less" ".A[] \x7b \x7d"
    let source : FileSource := fun file => bundles.load file (.bundle "app")
    let r : Reader := ⟨[], source, 0⟩
    ∃ e, e.span = some ⟨some "b.less", ⟨1, 3⟩⟩ ∧ r.ofText "less" "@import b;" = .error (.parse e) ∧
      (∃ entry result log, Token.scan "@import b;" none = .ok entry ∧
        Import.Runs r.source [] (.tokens "less" 0 entry) fileLimit result log ∧
        ∃ span, e.span = some span ∧ Shown r.source entry log span) ∧
      r.ofFile ⟨"b", "less"⟩ = .error (.parse e) ∧
        ∃ result log, Import.Runs r.source [] (.file none ⟨"b", "less"⟩) fileLimit result log ∧
          ∃ span, e.span = some span ∧ Shown r.source [] log span := by
  intro bundles source r
  let token (kind : Token.Kind) (column : Nat) (spaced : Bool) : Token :=
    ⟨kind, ⟨some "b.less", ⟨1, column⟩⟩, spaced⟩
  let directive : Token := ⟨.atWord "import", ⟨none, ⟨1, 1⟩⟩, false⟩
  let tokens := [token (.punct .dot) 1 false, token (.ident "A") 2 false,
    token (.punct (.opening .square)) 3 false, token (.punct (.closing .square)) 4 false,
    token (.punct (.opening .brace)) 6 true, token (.punct (.closing .brace)) 8 true]
  have loaded : Import.tokens? source ⟨"b", "less"⟩ = some tokens := by decide +kernel
  have plain : ∀ token ∈ tokens, Import.isImport token.kind = false := by decide +kernel
  have expanded' : Import.ofFile source ⟨"b", "less"⟩ = .ok tokens := by
    rw [Import.ofFile, fileLimit, Import.inlinedFile_of_tokens? List.not_mem_nil loaded,
      Import.inlined_plain plain]
    rfl
  have expanded : Import.ofText source "less" "@import b;" = .ok tokens := by
    have scanned : Token.scan "@import b;" none = .ok (directive ::
        [⟨.ident "b", ⟨none, ⟨1, 9⟩⟩, true⟩, ⟨.punct .semicolon, ⟨none, ⟨1, 10⟩⟩, false⟩]) := by
      decide +kernel
    have here : Import.isImport directive.kind = true := by decide +kernel
    have named : FileName.ofTarget "b" "less" = ⟨"b", "less"⟩ := by decide +kernel
    have imported : Import.inlinedFile source fileLimit [] (some directive.span) ⟨"b", "less"⟩
        fileLimit = .ok (tokens, 1023) := by
      rw [fileLimit, Import.inlinedFile_of_tokens? List.not_mem_nil loaded,
        Import.inlined_plain plain]
    rw [Import.ofText, scanned]
    dsimp only
    rw [Import.inlined_import here (.semicolon rfl rfl), named, imported, Except.bind,
      Import.inlined]
    rfl
  obtain ⟨e, failed, span⟩ : ∃ e, r.build tokens = .error (.parse e) ∧
      e.span = some ⟨some "b.less", ⟨1, 3⟩⟩ := by
    have computed : (r.build tokens).map (fun _ => ()) =
        .error (.parse ⟨.malformedCondition .empty, some ⟨some "b.less", ⟨1, 3⟩⟩⟩) := by
      decide +kernel
    cases failed : r.build tokens with
    | ok s =>
        rw [failed] at computed
        cases computed
    | error e =>
        rw [failed] at computed
        cases computed
        exact ⟨_, rfl, rfl⟩
  have of_text : r.ofText "less" "@import b;" = .error (.parse e) := by
    rw [ofText, expanded]
    exact failed
  have of_file : r.ofFile ⟨"b", "less"⟩ = .error (.parse e) := by
    rw [ofFile, expanded']
    exact failed
  obtain ⟨texts, files⟩ := parse_located r e
  exact ⟨e, span, of_text, texts _ _ of_text, of_file, files _ of_file⟩

end Reader

end ViewStyle
