/-
Cycles of imports. The files that are being read form a trail: each is imported by the one around
it, outside the counted groups. An import that leads back to one of them closes a ring of files,
and this ring is what the error reports. So an expansion always ends within the limit of files, and
if it succeeds no file below the entry is above itself.
-/

import Mathlib.Data.List.Chain
import Mathlib.Data.List.Nodup
import ViewStyle.Proofs.Stylesheet.Loading

set_option autoImplicit false

namespace ViewStyle

open Text (Span)
open Token (depthAfter depthThrough)

namespace Import

/-- The text of a file has an import of another file outside the counted groups. -/
def Links (source : FileSource) (file file' : FileName) : Prop :=
  ∃ before directive after name rest,
    tokens? source file = some (before ++ directive :: after) ∧
      isImport directive.kind = true ∧ depthThrough before 0 = 0 ∧ Targets after name rest ∧
        file' = .ofTarget name file.extension

/-- The names are those of files that have been asked for, each of which imports the next one; the
last name is the first one again, and no other one occurs twice. -/
def IsRing (source : FileSource) (log : List FileName) (names : List String) : Prop :=
  ∃ first others last, names = (first :: (others ++ [last])).map FileName.text ∧
    last.text = first.text ∧ ((first :: others).map FileName.text).Nodup ∧
      (first :: (others ++ [last])).IsChain (Links source) ∧ ∀ file ∈ first :: others, file ∈ log

private theorem IsRing.mono {source : FileSource} {log log' : List FileName} {names : List String}
    (h : IsRing source log names) (more : ∀ file ∈ log, file ∈ log') :
    IsRing source log' names := by
  obtain ⟨first, others, last, names_eq, closes, distinct, chained, known⟩ := h
  exact ⟨first, others, last, names_eq, closes, distinct, chained,
    fun file member => more file (known file member)⟩

def Task.ComesFrom (source : FileSource) (trail : List FileName) : Task → Prop
  | .file _ f => ∀ innermost ∈ trail.head?, Links source innermost f
  | .tokens extension depth list => ∀ innermost ∈ trail.head?,
      innermost.extension = extension ∧ ∃ before,
        tokens? source innermost = some (before ++ list) ∧ depthThrough before 0 = depth

def Trail (source : FileSource) (trail : List FileName) : Prop :=
  trail.IsChain fun inner outer => Links source outer inner

section

variable {source : FileSource}

private theorem Targets.exists_append {after rest : List Token} {name : String}
    (h : Targets after name rest) :
    ∃ between, after = between ++ rest ∧ ∀ depth, depthThrough between depth = depth := by
  cases h with
  | @last token _ known =>
      exact ⟨[token], rfl, fun depth => depthAfter_of_targetOf? known depth⟩
  | @semicolon token semicolon _ rest known kind =>
      refine ⟨[token, semicolon], rfl, fun depth => ?_⟩
      rw [Token.depthThrough_cons, depthAfter_of_targetOf? known, Token.depthThrough_cons, kind]
      rfl

private theorem isRing_cycle {trail log : List FileName} {file : FileName}
    (again : file.text ∈ trail.map FileName.text) (distinct : (trail.map FileName.text).Nodup)
    (linked : Trail source trail)
    (comes : ∀ innermost ∈ trail.head?, Links source innermost file) :
    IsRing source (trail ++ log) (cycle file.text (trail.map FileName.text)) := by
  -- The ring is the trail up to the file with that name.
  obtain ⟨names, rest, split, new⟩ := List.eq_append_cons_of_mem again
  obtain ⟨inner, tail, rfl, rfl, tail_eq⟩ := List.map_eq_append_iff.1 split
  obtain ⟨first, outer, rfl, here, -⟩ := List.map_eq_cons_iff.1 tail_eq
  have before : ∀ f ∈ inner, f.text ≠ file.text :=
    fun f member same => new (same ▸ List.mem_map_of_mem member)
  have taken : ((inner ++ first :: outer).map FileName.text).takeWhile (· ≠ file.text) =
      inner.map FileName.text := by
    rw [List.map_append, List.takeWhile_append_of_pos, List.map_cons,
      List.takeWhile_cons_of_neg (by simp [here]), List.append_nil]
    intro name member
    obtain ⟨f, listed, rfl⟩ := List.mem_map.1 member
    simpa using before f listed
  have closed : (file :: (inner ++ [first])).IsChain fun a b => Links source b a := by
    have part : (inner ++ [first]).IsChain fun a b => Links source b a := by
      have whole : Trail source (inner ++ [first] ++ outer) := by simpa using linked
      exact whole.left_of_append
    refine List.isChain_cons.2 ⟨fun innermost member => comes innermost ?_, part⟩
    cases inner with
    | nil => simpa using member
    | cons f inner => simpa using member
  refine ⟨first, inner.reverse, file, ?_, here.symm, ?_, ?_, ?_⟩
  · rw [cycle, taken, ← here]
    simp [here]
  · have part : (inner.map FileName.text ++ [first.text]).Nodup := by
      refine distinct.sublist ?_
      rw [List.map_append, List.map_cons]
      exact (List.Sublist.refl _).append (List.singleton_sublist.2 List.mem_cons_self)
    have turned := List.nodup_reverse.2 part
    simpa using turned
  · have turned := List.isChain_reverse.2 closed
    simpa [flip] using turned
  · intro f member
    refine List.mem_append_left _ ?_
    rcases List.mem_cons.1 member with rfl | member
    · exact List.mem_append_right _ List.mem_cons_self
    · exact List.mem_append_left _ (List.mem_reverse.1 member)

private theorem Task.ComesFrom.opened {trail : List FileName} {file : FileName}
    {tokens : List Token} (read : tokens? source file = some tokens) :
    Task.ComesFrom source (file :: trail) (.tokens file.extension 0 tokens) := by
  rintro innermost ⟨⟩
  exact ⟨rfl, [], read, rfl⟩

private theorem Task.ComesFrom.skip {trail : List FileName} {extension : String} {depth : Nat}
    {between rest : List Token}
    (h : Task.ComesFrom source trail (.tokens extension depth (between ++ rest))) :
    Task.ComesFrom source trail (.tokens extension (depthThrough between depth) rest) := by
  intro innermost member
  obtain ⟨same, before, read, depth_eq⟩ := h innermost member
  refine ⟨same, before ++ between, by rw [List.append_assoc, read], ?_⟩
  rw [Token.depthThrough_append, depth_eq]

private theorem Task.ComesFrom.file {trail : List FileName} {extension name : String}
    {token : Token} {rest rest' : List Token} {span : Option Span}
    (h : Task.ComesFrom source trail (.tokens extension 0 (token :: rest)))
    (here : isImport token.kind = true) (targets : Targets rest name rest') :
    Task.ComesFrom source trail (.file span (.ofTarget name extension)) := by
  intro innermost member
  obtain ⟨rfl, before, read, outside⟩ := h innermost member
  exact ⟨before, token, rest, name, rest', read, here, outside, targets, rfl⟩

private theorem target_ne_importCycle {token : Token} {rest : List Token} {chain : List String}
    {span : Option Span} : target token rest ≠ .error ⟨.importCycle chain, span⟩ := by
  intro failed
  unfold target at failed
  split at failed
  · cases failed
  · dsimp only at failed
    split at failed
    · split at failed <;> cases failed
    · split at failed <;> cases failed
    · cases failed

private theorem Runs.isRing {opened : List String} {task : Task} {budget : Nat} {result : Expansion}
    {log : List FileName} (h : Runs source opened task budget result log) {trail : List FileName}
    (names : opened = trail.map FileName.text) (distinct : opened.Nodup)
    (linked : Trail source trail) (comes : task.ComesFrom source trail) {chain : List String}
    {span : Option Span} (reported : result = .error (.parse ⟨.importCycle chain, span⟩)) :
    IsRing source (trail ++ log) chain := by
  induction h generalizing trail with
  | again again =>
      cases reported
      subst names
      exact isRing_cycle again distinct linked comes
  | spent => cases reported
  | missing => cases reported
  | garbled => cases reported
  | done => cases reported
  | nested => cases reported
  | broken _ failed =>
      cases reported
      exact absurd failed target_ne_importCycle
  | @opens opened span file budget text tokens result log new loaded scanned _ ih =>
      subst names
      have read : tokens? source file = some tokens := by
        simp [tokens?, loaded, scanned, Except.toOption]
      have deeper : Trail source (file :: trail) := List.isChain_cons.2 ⟨comes, linked⟩
      have ring : IsRing source ((file :: trail) ++ log) chain :=
        ih rfl (List.nodup_cons.2 ⟨new, distinct⟩) deeper (.opened read) reported
      refine ring.mono fun f member => ?_
      rcases List.mem_append.1 member with opened | below
      · rcases List.mem_cons.1 opened with rfl | opened
        · exact List.mem_append_right _ List.mem_cons_self
        · exact List.mem_append_left _ opened
      · exact List.mem_append_right _ (List.mem_cons_of_mem _ below)
  | @other _ extension depth _ token rest _ _ _ _ ih =>
      have comes' :
          Task.ComesFrom source trail (.tokens extension (depthThrough [token] depth) rest) :=
        comes.skip
      exact ih names distinct linked comes' (eq_error_of_map reported)
  | fails here targets _ ih => exact ih names distinct linked (comes.file here targets) reported
  | @inserts _ extension _ _ _ token _ rest' _ _ _ _ here targets _ _ _ ih =>
      obtain ⟨between, rfl, level⟩ := targets.exists_append
      have comes' : Task.ComesFrom source trail
          (.tokens extension (depthThrough (token :: between) 0) rest') := comes.skip
      rw [Token.depthThrough_cons, depthAfter_of_isImport here, level] at comes'
      have ring := ih names distinct linked comes' (eq_error_of_map reported)
      refine ring.mono fun f member => ?_
      rcases List.mem_append.1 member with opened | later
      · exact List.mem_append_left _ opened
      · exact List.mem_append_right _ (List.mem_append_right _ later)

private theorem mem_children_append {extension : String} {before tokens : List Token}
    {file : FileName} (h : file ∈ children extension tokens) :
    file ∈ children extension (before ++ tokens) := by
  induction before with
  | nil => exact h
  | cons token before ih => exact List.mem_append_right _ ih

private theorem Links.imports {file file' : FileName} (h : Links source file file') :
    Imports source file file' := by
  obtain ⟨before, directive, after, name, rest, read, here, -, targets, rfl⟩ := h
  refine ⟨_, read, mem_children_append ?_⟩
  rw [children_import here targets]
  exact List.mem_cons_self

private theorem exists_inlinedFile_of_reaches {levels budget : Nat} {opened : List String}
    {span : Option Span} {entry file : FileName} {result : List Token × Nat}
    (h : inlinedFile source levels opened span entry budget = .ok result)
    (path : Relation.ReflTransGen (Imports source) entry file) :
    ∃ levels budget opened span result,
      inlinedFile source levels opened span file budget = .ok result := by
  induction path with
  | refl => exact ⟨levels, budget, opened, span, result, h⟩
  | tail _ imports ih =>
      obtain ⟨levels, budget, opened, span, result, read⟩ := ih
      obtain ⟨-, levels, budget, tokens, rfl, rfl, loaded, inner_eq⟩ :=
        inlinedFile_eq_ok_iff.1 read
      obtain ⟨tokens', loaded', member⟩ := imports
      cases loaded.symm.trans loaded'
      obtain ⟨budget, span, result, read⟩ := exists_inlinedFile_of_mem_children inner_eq member
      exact ⟨levels, budget, _, span, result, read⟩

private theorem inlinedFile_of_import {levels budget : Nat} {opened : List String}
    {span : Option Span}
    {file : FileName} {before after rest : List Token} {directive : Token} {name : String}
    {e : SheetError} (new : file.text ∉ opened)
    (loaded : tokens? source file = some (before ++ directive :: after))
    (plain : ∀ token ∈ before, isImport token.kind = false) (outside : depthThrough before 0 = 0)
    (here : isImport directive.kind = true) (targets : Targets after name rest)
    (failed : inlinedFile source levels (file.text :: opened) (some directive.span)
      (.ofTarget name file.extension) budget = .error e) :
    inlinedFile source (levels + 1) opened span file (budget + 1) = .error e := by
  rw [inlinedFile_of_tokens? new loaded, inlined_append plain, outside,
    inlined_import here targets, failed]
  rfl

end

/-- The expansion of an entry file has one run, which asks for no more files than are allowed and
depends on no other ones. A cycle that it reports is a ring of files that it has asked for, each of
which imports the next one outside the counted groups. If it succeeds, then below the entry no file
is above itself, nor above another one with the same full name. -/
theorem ofFile_ends (source : FileSource) (entry : FileName) :
    ∃ result log, Runs source [] (.file none entry) fileLimit result log ∧
      (∀ result' log', Runs source [] (.file none entry) fileLimit result' log' →
        result' = result ∧ log' = log) ∧
      ofFile source entry = result.map (·.1) ∧ log.length ≤ fileLimit ∧
      (∀ source', (∀ file ∈ log, source' file = source file) →
        ofFile source' entry = ofFile source entry) ∧
      (∀ chain span, ofFile source entry = .error (.parse ⟨.importCycle chain, span⟩) →
        IsRing source log chain) ∧
      ∀ tokens, ofFile source entry = .ok tokens →
        ∀ file, Relation.ReflTransGen (Links source) entry file →
          ∀ below, Relation.TransGen (Links source) file below → file.text ≠ below.text := by
  obtain ⟨log, run⟩ := exists_runs source (Nat.le_refl fileLimit) [] (.file none entry)
  refine ⟨_, log, run, fun result' log' run' => run'.unique run, rfl, run.length_log.1, ?_, ?_, ?_⟩
  · intro source' same
    obtain ⟨_, run'⟩ := exists_runs source' (Nat.le_refl fileLimit) [] (.file none entry)
    exact congrArg (Except.map (·.1)) (run'.unique (run.congr same)).1
  · intro chain span reported
    have outcome : inlinedFile source fileLimit [] none entry fileLimit =
        .error (.parse ⟨.importCycle chain, span⟩) := by
      unfold ofFile at reported
      cases outcome : inlinedFile source fileLimit [] none entry fileLimit with
      | ok result =>
          rw [outcome] at reported
          cases reported
      | error e =>
          rw [outcome] at reported
          cases reported
          rfl
    have ring : IsRing source ([] ++ log) chain :=
      run.isRing rfl List.nodup_nil List.isChain_nil nofun outcome
    exact ring
  · intro tokens expanded file path below path'
    unfold ofFile at expanded
    cases outcome : inlinedFile source fileLimit [] none entry fileLimit with
    | error e =>
        rw [outcome] at expanded
        cases expanded
    | ok result =>
        obtain ⟨_, _, _, _, _, read⟩ :=
          exists_inlinedFile_of_reaches outcome (path.lift id fun _ _ => Links.imports)
        exact text_ne_of_inlinedFile read (path'.lift id fun _ _ => Links.imports)

/-- A ring behind the entry, and a file without one. -/
theorem ofFile_ends_ring :
    let bundles := ((((Bundles.empty.add "app" "main.less" "@import a;").add
      "app" "a.less" "] @import \"b.less\";").add "app" "b.less" "@import a").add
        "app" "c.less" "@import d;").add "app" "d.less" ""
    let source : FileSource := fun file => bundles.load file (.bundle "app")
    (∃ span log, ofFile source ⟨"main", "less"⟩ =
        .error (.parse ⟨.importCycle ["a.less", "b.less", "a.less"], span⟩) ∧
      log.length ≤ fileLimit ∧ IsRing source log ["a.less", "b.less", "a.less"]) ∧
    (∃ tokens, ofFile source ⟨"c", "less"⟩ = .ok tokens) ∧
      ∀ below, Relation.TransGen (Links source) ⟨"c", "less"⟩ below → "c.less" ≠ below.text := by
  intro bundles source
  obtain ⟨_, log, -, -, -, few, -, rings, -⟩ := ofFile_ends source ⟨"main", "less"⟩
  obtain ⟨_, _, -, -, -, -, -, -, apart⟩ := ofFile_ends source ⟨"c", "less"⟩
  let token (file : String) (kind : Token.Kind) (column : Nat) (spaced : Bool) : Token :=
    ⟨kind, ⟨some file, ⟨1, column⟩⟩, spaced⟩
  let directive (file : String) (column : Nat) (spaced : Bool) : Token :=
    token file (.atWord "import") column spaced
  have here (file : String) (column : Nat) (spaced : Bool) :
      isImport (directive file column spaced).kind = true := by
    change isImport (.atWord "import") = true
    decide +kernel
  have main : tokens? source ⟨"main", "less"⟩ = some ([] ++ directive "main.less" 1 false ::
      [token "main.less" (.ident "a") 9 true, token "main.less" (.punct .semicolon) 10 false]) := by
    decide +kernel
  have a : tokens? source ⟨"a", "less"⟩ = some ([token "a.less" (.punct (.closing .square)) 1 false] ++
      directive "a.less" 3 true :: [token "a.less" (.string "b.less") 11 true,
        token "a.less" (.punct .semicolon) 19 false]) := by
    decide +kernel
  have b : tokens? source ⟨"b", "less"⟩ =
      some ([] ++ directive "b.less" 1 false :: [token "b.less" (.ident "a") 9 true]) := by
    decide +kernel
  have c : tokens? source ⟨"c", "less"⟩ = some (directive "c.less" 1 false ::
      [token "c.less" (.ident "d") 9 true, token "c.less" (.punct .semicolon) 10 false]) := by
    decide +kernel
  have d : tokens? source ⟨"d", "less"⟩ = some [] := by decide +kernel
  have reported : ofFile source ⟨"main", "less"⟩ =
      .error (.parse ⟨.importCycle ["a.less", "b.less", "a.less"],
        some ⟨some "b.less", ⟨1, 1⟩⟩⟩) := by
    have entry : inlinedFile source fileLimit [] none ⟨"main", "less"⟩ fileLimit = .error _ :=
      inlinedFile_of_import (by decide) main nofun rfl (here _ _ _) (.semicolon rfl rfl)
        (inlinedFile_of_import (by decide) a (by decide) rfl (here _ _ _) (.semicolon rfl rfl)
          (inlinedFile_of_import (by decide) b nofun rfl (here _ _ _) (.last rfl)
            (inlinedFile_of_mem (by decide))))
    rw [ofFile, entry]
    rfl
  obtain ⟨tokens, expanded⟩ : ∃ tokens, ofFile source ⟨"c", "less"⟩ = .ok tokens := by
    have imported : inlinedFile source 1023 [FileName.text ⟨"c", "less"⟩]
        (some (directive "c.less" 1 false).span) ⟨"d", "less"⟩ 1023 = .ok ([], 1022) := by
      rw [inlinedFile_of_tokens? (by decide) d, inlined]
    have entry : inlinedFile source fileLimit [] none ⟨"c", "less"⟩ fileLimit = .ok ([], 1022) := by
      have named : FileName.ofTarget "d" "less" = ⟨"d", "less"⟩ := by decide +kernel
      rw [fileLimit, inlinedFile_of_tokens? List.not_mem_nil c,
        inlined_import (here _ _ _) (.semicolon rfl rfl), named, imported, Except.bind, inlined]
      rfl
    refine ⟨[], ?_⟩
    rw [ofFile, entry]
    rfl
  exact ⟨⟨_, log, reported, few, rings _ _ reported⟩, ⟨tokens, expanded⟩,
    fun below path => apart tokens expanded _ .refl below path⟩

end Import

end ViewStyle
