/-
Imports as inlining. The inlined tokens of a file are its own with every import outside the counted
groups replaced by the inlined tokens of the imported file; neither the files that are being read
nor their number plays a part. The main statement: an expansion that succeeds gives the inlined
tokens, and it succeeds if the files form a finite tree within the limit, every import stands
outside all groups, and no two files above one another have the same full name.
-/

import Mathlib.Logic.Relation
import ViewStyle.Except
import ViewStyle.Proofs.Token.Nesting
import ViewStyle.Stylesheet.Import

set_option autoImplicit false

namespace ViewStyle

open Text (Span)
open Token (Between depthAfter depthThrough groupsAfter groupsThrough)

namespace Import

def targetOf? : Token.Kind → Option String
  | .string name => some name
  | .ident name => some name
  | _ => none

def importOf? : List Token → Option (String × List Token)
  | directive :: token :: rest =>
      if isImport directive.kind then
        (targetOf? token.kind).map fun name => (name, Builder.skipSemicolon rest)
      else none
  | _ => none

/-- The tokens of a file, if it can be loaded and has some. -/
def tokens? (source : FileSource) (file : FileName) : Option (List Token) :=
  (source file).toOption.bind fun text => (Token.scan text (some file.text)).toOption

/-- Some tokens of a file, with `depth` counted groups before them, and what they are with all
imports replaced. -/
inductive Inlines (source : FileSource) : String → Nat → List Token → List Token.Kind → Prop
  | nil (extension : String) (depth : Nat) : Inlines source extension depth [] []
  | token {extension : String} {depth : Nat} {token : Token} {rest : List Token}
      {kinds : List Token.Kind} : (depth = 0 → importOf? (token :: rest) = none) →
        Inlines source extension (depthAfter token.kind depth) rest kinds →
          Inlines source extension depth (token :: rest) (token.kind :: kinds)
  | file {extension name : String} {tokens rest inner : List Token}
      {imported kinds : List Token.Kind} : importOf? tokens = some (name, rest) →
        tokens? source (.ofTarget name extension) = some inner →
          Inlines source (FileName.ofTarget name extension).extension 0 inner imported →
            Inlines source extension 0 rest kinds →
              Inlines source extension 0 tokens (imported ++ kinds)

/-- The inlined tokens of a file. -/
def InlinesFile (source : FileSource) (file : FileName) (kinds : List Token.Kind) : Prop :=
  ∃ tokens, tokens? source file = some tokens ∧ Inlines source file.extension 0 tokens kinds

private theorem Inlines.unique {source : FileSource} {extension : String} {depth : Nat}
    {tokens : List Token} {kinds kinds' : List Token.Kind}
    (h : Inlines source extension depth tokens kinds)
    (h' : Inlines source extension depth tokens kinds') : kinds = kinds' := by
  induction h generalizing kinds' with
  | nil =>
      cases h' with
      | nil => rfl
      | file found => cases found
  | token other _ ih =>
      cases h' with
      | token _ rest => rw [ih rest]
      | file found =>
          rw [other rfl] at found
          cases found
  | file found loaded _ _ ih_imported ih =>
      cases h' with
      | nil => cases found
      | token other =>
          rw [other rfl] at found
          cases found
      | file found' loaded' imported' rest' =>
          cases found.symm.trans found'
          cases loaded.symm.trans loaded'
          rw [ih_imported imported', ih rest']

private theorem InlinesFile.unique {source : FileSource} {file : FileName}
    {kinds kinds' : List Token.Kind} (h : InlinesFile source file kinds)
    (h' : InlinesFile source file kinds') : kinds = kinds' := by
  obtain ⟨tokens, loaded, inlines⟩ := h
  obtain ⟨tokens', loaded', inlines'⟩ := h'
  cases loaded.symm.trans loaded'
  exact inlines.unique inlines'

/-- What stands behind the word of an import: the name of a target, and a semicolon or the end. -/
inductive Targets : List Token → String → List Token → Prop
  | last {token : Token} {name : String} : targetOf? token.kind = some name →
      Targets [token] name []
  | semicolon {token semicolon : Token} {name : String} {rest : List Token} :
      targetOf? token.kind = some name → semicolon.kind = .punct .semicolon →
        Targets (token :: semicolon :: rest) name rest

def WellPlaced (tokens : List Token) : Prop :=
  ∀ before directive after, tokens = before ++ directive :: after →
    isImport directive.kind = true →
      ¬Between before (directive :: after) ∧ ∃ name rest, Targets after name rest

/-- The files that some tokens import, in their order. -/
def children (extension : String) : List Token → List FileName
  | [] => []
  | directive :: after =>
      let named :=
        if isImport directive.kind then after.head?.bind fun token => targetOf? token.kind else none
      (named.map fun name => FileName.ofTarget name extension).toList ++ children extension after

/-- The trees of imports below some files are finite and have `n` files in all. Every one of these
has tokens, in which all imports are well placed. -/
inductive Forest (source : FileSource) : List FileName → Nat → Prop
  | nil : Forest source [] 0
  | cons {file : FileName} {rest : List FileName} {tokens : List Token} {m n : Nat} :
      tokens? source file = some tokens → WellPlaced tokens →
        Forest source (children file.extension tokens) m → Forest source rest n →
          Forest source (file :: rest) (m + 1 + n)

def Imports (source : FileSource) (file file' : FileName) : Prop :=
  ∃ tokens, tokens? source file = some tokens ∧ file' ∈ children file.extension tokens

/-- Of the files below some entry, no two above one another share their full name. -/
def Unambiguous (source : FileSource) (entry : FileName) : Prop :=
  ∀ file file', Relation.ReflTransGen (Imports source) entry file →
    Relation.TransGen (Imports source) file file' → file.text = file'.text → file = file'

def isComplete : List Token → Bool
  | [] => false
  | [token] => (targetOf? token.kind).isSome
  | token :: semicolon :: _ =>
      (targetOf? token.kind).isSome && semicolon.kind == .punct .semicolon

def areWellPlaced (groups : List Bracket) : List Token → Bool
  | [] => true
  | token :: rest =>
      (!isImport token.kind || groups.isEmpty && isComplete rest) &&
        areWellPlaced (groupsAfter token.kind groups) rest

def countFiles (source : FileSource) : Nat → List FileName → Option Nat
  | _, [] => some 0
  | 0, _ :: _ => none
  | fuel + 1, file :: rest =>
      (tokens? source file).bind fun tokens =>
        if areWellPlaced [] tokens then
          (countFiles source fuel (children file.extension tokens)).bind fun m =>
            (countFiles source fuel rest).map fun n => m + 1 + n
        else none

private theorem exists_targets_of_isComplete {after : List Token} (h : isComplete after = true) :
    ∃ name rest, Targets after name rest := by
  unfold isComplete at h
  split at h
  · cases h
  · obtain ⟨name, known⟩ := Option.isSome_iff_exists.1 h
    exact ⟨name, [], .last known⟩
  · obtain ⟨known, semicolon⟩ := Bool.and_eq_true_iff.1 h
    obtain ⟨name, known⟩ := Option.isSome_iff_exists.1 known
    exact ⟨name, _, .semicolon known (Token.Kind.eq_of_punct_beq semicolon)⟩

private theorem wellPlaced_of_areWellPlaced {tokens : List Token}
    (h : areWellPlaced [] tokens = true) : WellPlaced tokens := by
  have outside {groups : List Bracket} (h : areWellPlaced groups tokens = true) :
      ∀ before directive after, tokens = before ++ directive :: after →
        isImport directive.kind = true →
          groupsThrough before groups = [] ∧ ∃ name rest, Targets after name rest := by
    clear * - h
    induction tokens generalizing groups with
    | nil => simp
    | cons token rest ih =>
        obtain ⟨first, others⟩ := Bool.and_eq_true_iff.1 h
        intro before directive after eq here
        cases before with
        | nil =>
            obtain ⟨rfl, rfl⟩ := List.cons.inj eq
            rw [here] at first
            obtain ⟨empty, complete⟩ := Bool.and_eq_true_iff.1 first
            exact ⟨List.isEmpty_iff.1 empty, exists_targets_of_isComplete complete⟩
        | cons _ before =>
            obtain ⟨rfl, tail⟩ := List.cons.inj eq
            exact ih others before directive after tail here
  intro before directive after eq here
  obtain ⟨nothing, complete⟩ := outside h before directive after eq here
  exact ⟨fun between => between.groupsThrough_ne_nil nothing, complete⟩

private theorem forest_of_countFiles {source : FileSource} {fuel n : Nat} {files : List FileName}
    (h : countFiles source fuel files = some n) : Forest source files n := by
  induction fuel generalizing files n with
  | zero =>
      cases files with
      | nil =>
          cases h
          exact .nil
      | cons => cases h
  | succ fuel ih =>
      cases files with
      | nil =>
          cases h
          exact .nil
      | cons file rest =>
          obtain ⟨tokens, loaded, h⟩ := Option.bind_eq_some_iff.1 h
          split at h
          · rename_i well
            obtain ⟨m, below, h⟩ := Option.bind_eq_some_iff.1 h
            obtain ⟨n, others, rfl⟩ := Option.map_eq_some_iff.1 h
            exact .cons loaded (wellPlaced_of_areWellPlaced well) (ih below) (ih others)
          · cases h

private theorem targetOf?_eq_some {kind : Token.Kind} {name : String}
    (h : targetOf? kind = some name) : kind = .string name ∨ kind = .ident name := by
  unfold targetOf? at h
  split at h
  · cases h
    exact .inl rfl
  · cases h
    exact .inr rfl
  · cases h

theorem targets_of_target {directive : Token} {after rest : List Token} {name : String}
    (h : target directive after = .ok (name, rest)) : Targets after name rest := by
  cases after with
  | nil => cases h
  | cons token after =>
      unfold target at h
      dsimp only at h
      split at h
      case h_3 => cases h
      -- a string and an address are followed by the same two ends
      all_goals
        rename_i found kind
        have known : targetOf? token.kind = some found := by rw [kind]; rfl
        split at h
        · cases h
          exact .last known
        · cases h
          exact .semicolon known rfl
        · cases h

theorem target_of_targets {after rest : List Token} {name : String} (h : Targets after name rest)
    (directive : Token) : target directive after = .ok (name, rest) := by
  cases h with
  | @last token name known =>
      obtain ⟨kind, span, spaced⟩ := token
      obtain rfl | rfl := targetOf?_eq_some known <;> rfl
  | @semicolon token semicolon name rest known kind =>
      obtain ⟨kind, span, spaced⟩ := token
      obtain ⟨kind', span', spaced'⟩ := semicolon
      cases kind
      obtain rfl | rfl := targetOf?_eq_some known <;> rfl

private theorem exists_atWord_of_isImport {kind : Token.Kind} (h : isImport kind = true) :
    ∃ word, kind = .atWord word := by
  unfold isImport at h
  split at h
  · exact ⟨_, rfl⟩
  · cases h

private theorem isImport_of_targetOf? {kind : Token.Kind} {name : String}
    (h : targetOf? kind = some name) : isImport kind = false := by
  obtain rfl | rfl := targetOf?_eq_some h <;> rfl

theorem depthAfter_of_targetOf? {kind : Token.Kind} {name : String}
    (h : targetOf? kind = some name) (depth : Nat) : depthAfter kind depth = depth := by
  obtain rfl | rfl := targetOf?_eq_some h <;> rfl

theorem depthAfter_of_isImport {kind : Token.Kind} (h : isImport kind = true) (depth : Nat) :
    depthAfter kind depth = depth := by
  obtain ⟨word, rfl⟩ := exists_atWord_of_isImport h
  rfl

theorem Targets.length_le {after rest : List Token} {name : String} (h : Targets after name rest) :
    rest.length ≤ after.length := by
  cases h with
  | last => exact Nat.zero_le _
  | semicolon =>
      simp only [List.length_cons]
      omega

private theorem importOf?_other {token : Token} (h : isImport token.kind = false)
    (rest : List Token) : importOf? (token :: rest) = none := by
  cases rest with
  | nil => rfl
  | cons next rest => simp [importOf?, h]

private theorem importOf?_of_targets {directive : Token} {after rest : List Token} {name : String}
    (here : isImport directive.kind = true) (h : Targets after name rest) :
    importOf? (directive :: after) = some (name, rest) := by
  cases h with
  | last known => simp [importOf?, here, known, Builder.skipSemicolon]
  | @semicolon token semicolon name rest known kind =>
      obtain ⟨kind', span, spaced⟩ := semicolon
      cases kind
      simp [importOf?, here, known, Builder.skipSemicolon]

private theorem children_other {token : Token} (h : isImport token.kind = false)
    (extension : String) (rest : List Token) :
    children extension (token :: rest) = children extension rest := by
  simp [children, h]

theorem children_import {directive : Token} {after rest : List Token} {name : String}
    (here : isImport directive.kind = true) (h : Targets after name rest) (extension : String) :
    children extension (directive :: after) =
      .ofTarget name extension :: children extension rest := by
  have other : children extension after = children extension rest := by
    cases h with
    | last known => exact children_other (isImport_of_targetOf? known) _ _
    | semicolon known kind =>
        rw [children_other (isImport_of_targetOf? known), children_other (by rw [kind]; rfl)]
  have named : (after.head?.bind fun token => targetOf? token.kind) = some name := by
    cases h with
    | last known => exact known
    | semicolon known _ => exact known
  rw [children, other, named, if_pos here]
  rfl

def Placed (depth : Nat) (tokens : List Token) : Prop :=
  ∀ before directive after, tokens = before ++ directive :: after →
    isImport directive.kind = true →
      depthThrough before depth = 0 ∧ ∃ name rest, Targets after name rest

private theorem placed_nil (depth : Nat) : Placed depth [] := by
  intro before directive after eq
  simp at eq

private theorem placed_cons {depth : Nat} {token : Token} {rest : List Token} :
    Placed depth (token :: rest) ↔
      (isImport token.kind = true → depth = 0 ∧ ∃ name rest', Targets rest name rest') ∧
        Placed (depthAfter token.kind depth) rest := by
  constructor
  · intro h
    refine ⟨h [] token rest rfl, fun before directive after eq here => ?_⟩
    exact h (token :: before) directive after (by rw [eq]; rfl) here
  · rintro ⟨first, others⟩ before directive after eq here
    cases before with
    | nil =>
        obtain ⟨rfl, rfl⟩ := List.cons.inj eq
        exact first here
    | cons _ before =>
        obtain ⟨rfl, tail⟩ := List.cons.inj eq
        exact others before directive after tail here

private theorem placed_targets {after rest : List Token} {name : String}
    (h : Targets after name rest) {depth : Nat} : Placed depth after ↔ Placed depth rest := by
  cases h with
  | last known =>
      rw [placed_cons, depthAfter_of_targetOf? known, isImport_of_targetOf? known]
      simp
  | semicolon known kind =>
      rw [placed_cons, depthAfter_of_targetOf? known, isImport_of_targetOf? known, placed_cons, kind]
      simp [isImport, depthAfter, Token.Kind.opens, Token.Kind.closes]

private theorem WellPlaced.placed {tokens : List Token} (h : WellPlaced tokens)
    (closed : groupsThrough tokens [] = []) : Placed 0 tokens := by
  intro before directive after eq here
  obtain ⟨outside, complete⟩ := h before directive after eq here
  refine ⟨?_, complete⟩
  have le : depthThrough before 0 ≤ (groupsThrough before []).length :=
    Token.depthThrough_le (Nat.zero_le _)
  have nothing : groupsThrough before [] = [] := by
    by_contra inside
    exact outside (Token.between_of_groupsThrough (eq ▸ closed) inside)
  rw [nothing] at le
  exact Nat.le_zero.1 le

section

variable {source : FileSource} {levels : Nat} {opened : List String} {extension : String}
  {depth budget : Nat}

theorem inlined_other {token : Token} (h : isImport token.kind = false) (rest : List Token) :
    inlined source levels opened extension depth budget (token :: rest) =
      (inlined source levels opened extension (depthAfter token.kind depth) budget rest).map
        fun others => (token :: others.1, others.2) := by
  rw [inlined, h]
  cases inlined source levels opened extension (depthAfter token.kind depth) budget rest <;> rfl

theorem inlined_append {before : List Token}
    (plain : ∀ token ∈ before, isImport token.kind = false) (rest : List Token) :
    inlined source levels opened extension depth budget (before ++ rest) =
      (inlined source levels opened extension (depthThrough before depth) budget rest).map
        fun others => (before ++ others.1, others.2) := by
  induction before generalizing depth with
  | nil =>
      rw [List.nil_append, Token.depthThrough_nil]
      cases inlined source levels opened extension depth budget rest <;> rfl
  | cons token before ih =>
      obtain ⟨first, others⟩ := List.forall_mem_cons.1 plain
      rw [List.cons_append, inlined_other first, ih others, Token.depthThrough_cons]
      cases inlined source levels opened extension
        (depthThrough before (Token.depthAfter token.kind depth)) budget rest <;> rfl

theorem inlined_plain {tokens : List Token}
    (plain : ∀ token ∈ tokens, isImport token.kind = false) :
    inlined source levels opened extension depth budget tokens = .ok (tokens, budget) := by
  have eq := @inlined_append source levels opened extension depth budget tokens plain []
  rw [List.append_nil, inlined] at eq
  rw [eq]
  simp [Except.map]

theorem inlined_import {directive : Token} {after rest : List Token} {name : String}
    (here : isImport directive.kind = true) (targets : Targets after name rest) :
    inlined source levels opened extension 0 budget (directive :: after) =
      (inlinedFile source levels opened (some directive.span) (.ofTarget name extension) budget).bind
        fun imported => (inlined source levels opened extension 0 imported.2 rest).map
          fun others => (placeAt directive imported.1 ++ others.1, others.2) := by
  rw [inlined, here]
  have read := target_of_targets targets directive
  simp only [if_true, Nat.lt_irrefl, if_false]
  split
  · rename_i failed
    cases read.symm.trans failed
  · rename_i read'
    cases read.symm.trans read'
    cases inlinedFile source levels opened (some directive.span) (.ofTarget name extension) budget
      with
    | error => rfl
    | ok imported =>
        dsimp only [Except.bind]
        cases inlined source levels opened extension 0 imported.2 rest <;> rfl

private theorem inlined_cons {token : Token} {rest : List Token} {result : List Token × Nat}
    (h : inlined source levels opened extension depth budget (token :: rest) = .ok result) :
    (isImport token.kind = false ∧ ∃ others,
      inlined source levels opened extension (depthAfter token.kind depth) budget rest =
          .ok (others, result.2) ∧ result.1 = token :: others) ∨
      (isImport token.kind = true ∧ depth = 0 ∧ ∃ name rest' imported others,
        Targets rest name rest' ∧
          inlinedFile source levels opened (some token.span) (.ofTarget name extension) budget =
            .ok imported ∧
            inlined source levels opened extension 0 imported.2 rest' = .ok (others, result.2) ∧
              result.1 = placeAt token imported.1 ++ others) := by
  rw [inlined] at h
  split at h
  · rename_i here
    split at h
    · cases h
    · rename_i outside
      split at h
      · cases h
      · rename_i name rest' read
        split at h
        · cases h
        · rename_i imported left file_eq
          split at h
          · cases h
          · rename_i others _ rest_eq
            cases h
            obtain rfl := Nat.eq_zero_of_not_pos outside
            exact .inr ⟨here, rfl, name, rest', (imported, left), others,
              targets_of_target read, file_eq, rest_eq, rfl⟩
  · rename_i other
    split at h
    · cases h
    · rename_i others _ rest_eq
      cases h
      exact .inl ⟨by simpa using other, others, rest_eq, rfl⟩

@[elab_as_elim]
private theorem inlined_induction {motive : Nat → Nat → List Token → List Token × Nat → Prop}
    (nil : ∀ depth budget, motive depth budget [] ([], budget))
    (other : ∀ depth budget token rest others, isImport token.kind = false →
      motive (depthAfter token.kind depth) budget rest others →
        motive depth budget (token :: rest) (token :: others.1, others.2))
    (file : ∀ budget directive after name rest imported others, isImport directive.kind = true →
      Targets after name rest →
        inlinedFile source levels opened (some directive.span) (.ofTarget name extension) budget =
          .ok imported →
            motive 0 imported.2 rest others →
              motive 0 budget (directive :: after)
                (placeAt directive imported.1 ++ others.1, others.2))
    {tokens : List Token} {result : List Token × Nat}
    (h : inlined source levels opened extension depth budget tokens = .ok result) :
    motive depth budget tokens result := by
  induction n : tokens.length using Nat.strongRecOn generalizing tokens depth budget result with
  | _ n ih =>
    subst n
    cases tokens with
    | nil =>
        rw [inlined] at h
        cases h
        exact nil depth budget
    | cons token rest =>
        obtain ⟨result, left⟩ := result
        obtain ⟨here, others, rest_eq, result_eq⟩ |
          ⟨here, rfl, name, rest', imported, others, targets, file_eq, rest_eq, result_eq⟩ :=
          inlined_cons h
        · dsimp only at rest_eq result_eq
          subst result_eq
          exact other depth budget token rest _ here (ih _ (Nat.lt_succ_self _) rest_eq rfl)
        · dsimp only at rest_eq result_eq
          subst result_eq
          exact file budget token rest name rest' imported _ here targets file_eq
            (ih _ (Nat.lt_succ_of_le targets.length_le) rest_eq rfl)

theorem placed_of_inlined {tokens : List Token} {result : List Token × Nat}
    (h : inlined source levels opened extension depth budget tokens = .ok result) :
    Placed depth tokens := by
  refine inlined_induction (motive := fun depth _ tokens _ => Placed depth tokens) ?_ ?_ ?_ h
  · intro depth _
    exact placed_nil depth
  · intro depth _ token rest _ other placed
    exact placed_cons.2 ⟨fun here => absurd here (by simp [other]), placed⟩
  · intro _ directive after name rest _ _ here targets _ placed
    refine placed_cons.2 ⟨fun _ => ⟨rfl, name, rest, targets⟩, ?_⟩
    rw [depthAfter_of_isImport here, placed_targets targets]
    exact placed

private theorem kinds_placeAt (directive : Token) (tokens : List Token) :
    (placeAt directive tokens).map (·.kind) = tokens.map (·.kind) := by
  cases tokens <;> rfl

theorem inlinedFile_eq_ok_iff {span : Option Span} {file : FileName} {result : List Token × Nat} :
    inlinedFile source levels opened span file budget = .ok result ↔
      file.text ∉ opened ∧ ∃ levels' budget' tokens, levels = levels' + 1 ∧ budget = budget' + 1 ∧
        tokens? source file = some tokens ∧
          inlined source levels' (file.text :: opened) file.extension 0 budget' tokens =
            .ok result := by
  unfold inlinedFile tokens?
  split
  · rename_i again
    simp [again]
  · rename_i new
    split
    · rename_i levels budget
      cases source file with
      | error e => simp [Except.toOption]
      | ok text =>
          cases scanned : Token.scan text (some file.text) with
          | error e => simp [Except.toOption, scanned]
          | ok tokens => simp [Except.toOption, scanned, new]
    · rename_i short
      refine ⟨fun failed => (by cases failed), ?_⟩
      rintro ⟨-, levels', budget', -, rfl, rfl, -⟩
      exact (short levels' budget' rfl rfl).elim

theorem inlinedFile_of_mem {span : Option Span} {file : FileName} (again : file.text ∈ opened) :
    inlinedFile source levels opened span file budget =
      .error (.parse ⟨.importCycle (cycle file.text opened), span⟩) := by
  unfold inlinedFile
  rw [if_pos again]

theorem inlinedFile_of_tokens? {span : Option Span} {file : FileName} {tokens : List Token}
    (new : file.text ∉ opened) (loaded : tokens? source file = some tokens) :
    inlinedFile source (levels + 1) opened span file (budget + 1) =
      inlined source levels (file.text :: opened) file.extension 0 budget tokens := by
  obtain ⟨text, read, scanned⟩ := Option.bind_eq_some_iff.1 loaded
  rw [inlinedFile, if_neg new, eq_ok_of_toOption read]
  dsimp only
  rw [eq_ok_of_toOption scanned]

def Expanded (tokens : List Token) (kinds : List Token.Kind) : Prop :=
  tokens.map (·.kind) = kinds ∧ ∀ kind ∈ kinds, isImport kind = false

private theorem inlines_of_inlined {tokens : List Token} {result : List Token × Nat}
    (h : inlined source levels opened extension depth budget tokens = .ok result) :
    ∃ kinds, Inlines source extension depth tokens kinds ∧ Expanded result.1 kinds := by
  induction levels using Nat.strongRecOn generalizing opened extension depth budget tokens result
    with
  | _ levels ih =>
    refine inlined_induction (motive := fun depth _ tokens result =>
      ∃ kinds, Inlines source extension depth tokens kinds ∧ Expanded result.1 kinds) ?_ ?_ ?_ h
    · intro depth _
      exact ⟨[], .nil _ _, rfl, nofun⟩
    · rintro depth _ token rest others other ⟨kinds, inlines, expanded, clean⟩
      refine ⟨token.kind :: kinds, .token (fun _ => importOf?_other other rest) inlines,
        ?_, List.forall_mem_cons.2 ⟨other, clean⟩⟩
      rw [List.map_cons, expanded]
    · rintro _ directive after name rest imported others here targets file_eq
        ⟨kinds, inlines, expanded, clean⟩
      obtain ⟨-, levels', _, inner, rfl, rfl, loaded, inner_eq⟩ := inlinedFile_eq_ok_iff.1 file_eq
      obtain ⟨imported_kinds, inlines', expanded', clean'⟩ :=
        ih levels' (Nat.lt_succ_self _) inner_eq
      refine ⟨imported_kinds ++ kinds,
        .file (importOf?_of_targets here targets) loaded inlines' inlines, ?_,
        List.forall_mem_append.2 ⟨clean', clean⟩⟩
      rw [List.map_append, kinds_placeAt, expanded', expanded]

private theorem inlined_of_placed {tokens : List Token} (placed : Placed depth tokens) :
    (children extension tokens = [] ∧
      inlined source levels opened extension depth budget tokens = .ok (tokens, budget)) ∨
      ∃ name rest span,
        children extension tokens = .ofTarget name extension :: children extension rest ∧
        Placed 0 rest ∧ ∀ imported left others left',
          inlinedFile source levels opened (some span) (.ofTarget name extension) budget =
            .ok (imported, left) →
          inlined source levels opened extension 0 left rest = .ok (others, left') →
            ∃ result, inlined source levels opened extension depth budget tokens =
              .ok (result, left') := by
  induction tokens generalizing depth with
  | nil => exact .inl ⟨rfl, by rw [inlined]⟩
  | cons token tokens ih =>
      obtain ⟨first, others⟩ := placed_cons.1 placed
      cases here : isImport token.kind with
      | false =>
          rw [inlined_other here, children_other here]
          obtain ⟨nothing, same⟩ | ⟨name, rest, span, first_eq, placed', succeeds⟩ := ih others
          · exact .inl ⟨nothing, by rw [same]; rfl⟩
          · refine .inr ⟨name, rest, span, first_eq, placed', ?_⟩
            intro imported left others left' file_eq rest_eq
            obtain ⟨result, eq⟩ := succeeds imported left others left' file_eq rest_eq
            exact ⟨token :: result, by rw [eq]; rfl⟩
      | true =>
          obtain ⟨rfl, name, rest, targets⟩ := first here
          rw [depthAfter_of_isImport here, placed_targets targets] at others
          refine .inr ⟨name, rest, token.span, children_import here targets _, others, ?_⟩
          intro imported left others left' file_eq rest_eq
          refine ⟨placeAt token imported ++ others, ?_⟩
          rw [inlined_import here targets, file_eq]
          dsimp only [Except.bind]
          rw [rest_eq]
          rfl

end

section

variable {source : FileSource}

theorem exists_text_of_tokens? {file : FileName} {tokens : List Token}
    (h : tokens? source file = some tokens) :
    ∃ text, source file = .ok text ∧ Token.scan text (some file.text) = .ok tokens := by
  obtain ⟨text, loaded, scanned⟩ := Option.bind_eq_some_iff.1 h
  exact ⟨text, eq_ok_of_toOption loaded, eq_ok_of_toOption scanned⟩

def Separate (source : FileSource) (opened : List String) (files : List FileName) : Prop :=
  ∀ file ∈ files, ∀ below, Relation.ReflTransGen (Imports source) file below →
    below.text ∉ opened ∧
      ∀ deeper, Relation.TransGen (Imports source) below deeper → below.text ≠ deeper.text

private theorem Separate.children {opened : List String} {file : FileName} {rest : List FileName}
    {tokens : List Token} (h : Separate source opened (file :: rest))
    (loaded : tokens? source file = some tokens) :
    Separate source (file.text :: opened) (children file.extension tokens) := by
  intro child member below path
  have step : Imports source file child := ⟨tokens, loaded, member⟩
  obtain ⟨new, deeper⟩ := h file List.mem_cons_self below (.head step path)
  refine ⟨fun again => ?_, deeper⟩
  rcases List.mem_cons.1 again with same | again
  · exact (h file List.mem_cons_self file .refl).2 below (.head' step path) same.symm
  · exact new again

theorem Forest.inlined {files : List FileName} {n : Nat} (forest : Forest source files n)
    {opened : List String} {extension : String} {depth levels budget : Nat} {tokens : List Token}
    (here : Import.children extension tokens = files) (placed : Placed depth tokens)
    (few : n ≤ budget) (deep : budget ≤ levels) (separate : Separate source opened files) :
    ∃ result, inlined source levels opened extension depth budget tokens =
      .ok (result, budget - n) := by
  induction forest generalizing opened extension depth levels budget tokens with
  | nil =>
      obtain ⟨-, same⟩ | ⟨name, rest, span, first_eq, -⟩ :=
        @inlined_of_placed source levels opened extension depth budget tokens placed
      · exact ⟨tokens, same⟩
      · cases here.symm.trans first_eq
  | @cons file files inner m n loaded well _ _ ih_children ih =>
      obtain ⟨nothing, -⟩ | ⟨name, rest, span, first_eq, placed', succeeds⟩ :=
        @inlined_of_placed source levels opened extension depth budget tokens placed
      · cases here.symm.trans nothing
      · obtain ⟨file_eq, files_eq⟩ := List.cons.inj (here.symm.trans first_eq)
        obtain ⟨levels, rfl⟩ : ∃ l, levels = l + 1 := ⟨levels - 1, by omega⟩
        obtain ⟨budget, rfl⟩ : ∃ b, budget = b + 1 := ⟨budget - 1, by omega⟩
        obtain ⟨text, -, scanned⟩ := exists_text_of_tokens? loaded
        obtain ⟨imported, inner_eq⟩ : ∃ imported,
            Import.inlined source levels (file.text :: opened) file.extension 0 budget inner =
              .ok (imported, budget - m) :=
          ih_children rfl (well.placed (Token.groupsThrough_of_scan scanned)) (by omega)
            (by omega) (separate.children loaded)
        obtain ⟨others, rest_eq⟩ : ∃ others,
            Import.inlined source (levels + 1) opened extension 0 (budget - m) rest =
              .ok (others, budget - m - n) :=
          ih files_eq.symm placed' (by omega) (by omega)
            (fun file member => separate file (List.mem_cons_of_mem _ member))
        have file_ok : inlinedFile source (levels + 1) opened (some span) file (budget + 1) =
            .ok (imported, budget - m) := by
          refine inlinedFile_eq_ok_iff.2 ⟨?_, levels, budget, inner, rfl, rfl, loaded, inner_eq⟩
          exact (separate file List.mem_cons_self file .refl).1
        obtain ⟨result, eq⟩ := succeeds imported (budget - m) others _ (file_eq ▸ file_ok) rest_eq
        refine ⟨result, ?_⟩
        rw [eq]
        congr 2
        omega

private theorem Forest.of_mem {files : List FileName} {n : Nat} (forest : Forest source files n)
    {file : FileName} (member : file ∈ files) : ∃ m ≤ n, Forest source [file] m := by
  induction forest with
  | nil => cases member
  | @cons first files tokens m n loaded well below _ _ ih =>
      rcases List.mem_cons.1 member with rfl | member
      · exact ⟨m + 1 + 0, by omega, .cons loaded well below .nil⟩
      · obtain ⟨k, le, tree⟩ := ih member
        exact ⟨k, by omega, tree⟩

private theorem Forest.unique {files : List FileName} {n n' : Nat} (h : Forest source files n)
    (h' : Forest source files n') : n = n' := by
  induction h generalizing n' with
  | nil =>
      cases h'
      rfl
  | cons loaded _ _ _ ih_children ih =>
      cases h' with
      | cons loaded' _ below' rest' =>
          cases loaded.symm.trans loaded'
          rw [ih_children below', ih rest']

private theorem Forest.of_transGen {file below : FileName} {n : Nat} (tree : Forest source [file] n)
    (path : Relation.TransGen (Imports source) file below) :
    ∃ m < n, Forest source [below] m := by
  have step {file child : FileName} {n : Nat} (tree : Forest source [file] n)
      (imports : Imports source file child) : ∃ m < n, Forest source [child] m := by
    obtain ⟨tokens, loaded, member⟩ := imports
    cases tree with
    | cons loaded' _ below rest =>
        cases loaded.symm.trans loaded'
        cases rest
        obtain ⟨m, le, tree⟩ := below.of_mem member
        exact ⟨m, by omega, tree⟩
  induction path with
  | single imports => exact step tree imports
  | tail _ imports ih =>
      obtain ⟨m, lt, tree'⟩ := ih
      obtain ⟨k, lt', tree''⟩ := step tree' imports
      exact ⟨k, Nat.lt_trans lt' lt, tree''⟩

private theorem Forest.separate {entry : FileName} {n : Nat} (tree : Forest source [entry] n)
    (unambiguous : Unambiguous source entry) : Separate source [] [entry] := by
  intro file member below path
  obtain rfl := List.mem_singleton.1 member
  refine ⟨List.not_mem_nil, fun deeper path' same => ?_⟩
  obtain rfl := unambiguous below deeper path path' same
  obtain ⟨m, tree'⟩ : ∃ m, Forest source [below] m := by
    rcases Relation.reflTransGen_iff_eq_or_transGen.1 path with rfl | path
    · exact ⟨n, tree⟩
    · obtain ⟨m, -, tree'⟩ := tree.of_transGen path
      exact ⟨m, tree'⟩
  obtain ⟨k, lt, tree''⟩ := tree'.of_transGen path'
  exact absurd (tree'.unique tree'') (Nat.ne_of_gt lt)

end

section

open Text (splitLast?_eq_some_iff)

private theorem eq_of_text_eq {file file' : FileName} (h : '.' ∉ file.extension.toList)
    (h' : '.' ∉ file'.extension.toList) (same : file.text = file'.text) : file = file' := by
  have parts (f : FileName) (plain : '.' ∉ f.extension.toList) :
      Text.splitLast? '.' f.text.toList = some (f.name.toList, f.extension.toList) := by
    refine splitLast?_eq_some_iff.2 ⟨?_, plain⟩
    simp [FileName.text]
  have equal := (parts file h).symm.trans (same ▸ parts file' h')
  obtain ⟨name, extension⟩ := file
  obtain ⟨name', extension'⟩ := file'
  simpa [String.toList_inj] using equal

private theorem dot_notMem_ofTarget {target extension : String} (h : '.' ∉ extension.toList) :
    '.' ∉ (FileName.ofTarget target extension).extension.toList := by
  unfold FileName.ofTarget
  split
  · rename_i name ending found
    split
    · exact h
    · simpa using (splitLast?_eq_some_iff.1 found).2
  · exact h

private theorem exists_target_of_mem_children {extension : String} {tokens : List Token}
    {file : FileName} (h : file ∈ children extension tokens) :
    ∃ name, file = .ofTarget name extension := by
  induction tokens with
  | nil => cases h
  | cons directive after ih =>
      rcases List.mem_append.1 h with first | later
      · obtain ⟨name, -, rfl⟩ := Option.map_eq_some_iff.1 (Option.mem_toList.1 first)
        exact ⟨name, rfl⟩
      · exact ih later

private theorem unambiguous_of_dot_notMem {source : FileSource} {entry : FileName}
    (h : '.' ∉ entry.extension.toList) : Unambiguous source entry := by
  have kept {file child : FileName} (plain : '.' ∉ file.extension.toList)
      (imports : Imports source file child) : '.' ∉ child.extension.toList := by
    obtain ⟨tokens, -, member⟩ := imports
    obtain ⟨name, rfl⟩ := exists_target_of_mem_children member
    exact dot_notMem_ofTarget plain
  have below {file : FileName} (path : Relation.ReflTransGen (Imports source) entry file) :
      '.' ∉ file.extension.toList := by
    induction path with
    | refl => exact h
    | tail _ imports ih => exact kept ih imports
  intro file deeper path path' same
  exact eq_of_text_eq (below path) (below (path.trans path'.to_reflTransGen)) same

end

section

variable {source : FileSource} {levels budget : Nat} {opened : List String}

theorem exists_inlinedFile_of_mem_children {extension : String} {depth : Nat} {tokens : List Token}
    {result : List Token × Nat}
    (h : inlined source levels opened extension depth budget tokens = .ok result)
    {child : FileName} (member : child ∈ children extension tokens) :
    ∃ budget span imported, inlinedFile source levels opened span child budget = .ok imported := by
  revert member
  refine inlined_induction (motive := fun _ _ tokens _ => child ∈ children extension tokens →
    ∃ budget span imported, inlinedFile source levels opened span child budget = .ok imported)
    ?_ ?_ ?_ h
  · intro _ _ member
    cases member
  · intro _ _ token rest _ other below member
    rw [children_other other] at member
    exact below member
  · intro _ directive after name rest imported _ here targets file_eq below member
    rw [children_import here targets] at member
    rcases List.mem_cons.1 member with rfl | member
    · exact ⟨_, _, _, file_eq⟩
    · exact below member

theorem text_ne_of_inlinedFile {span : Option Span} {file below : FileName}
    {result : List Token × Nat}
    (h : inlinedFile source levels opened span file budget = .ok result)
    (path : Relation.TransGen (Imports source) file below) : file.text ≠ below.text := by
  have step {levels budget : Nat} {opened : List String} {span : Option Span}
      {file child : FileName} {result : List Token × Nat}
      (h : inlinedFile source levels opened span file budget = .ok result)
      (imports : Imports source file child) : ∃ levels budget span result,
        inlinedFile source levels (file.text :: opened) span child budget = .ok result := by
    obtain ⟨-, levels, budget, tokens, rfl, rfl, loaded, inner_eq⟩ := inlinedFile_eq_ok_iff.1 h
    obtain ⟨tokens', loaded', member⟩ := imports
    cases loaded.symm.trans loaded'
    exact ⟨levels, exists_inlinedFile_of_mem_children inner_eq member⟩
  -- Along the path the list of files that are being read keeps the first one.
  obtain ⟨levels', budget', opened', span', result', read, kept⟩ :
      ∃ levels budget opened span result,
        inlinedFile source levels opened span below budget = .ok result ∧ file.text ∈ opened := by
    induction path with
    | single imports =>
        obtain ⟨levels, budget, span, result, read⟩ := step h imports
        exact ⟨levels, budget, _, span, result, read, List.mem_cons_self⟩
    | tail _ imports ih =>
        obtain ⟨levels, budget, opened, span, result, read, kept⟩ := ih
        obtain ⟨levels, budget, span, result, read⟩ := step read imports
        exact ⟨levels, budget, _, span, result, read, List.mem_cons_of_mem _ kept⟩
  intro same
  exact (inlinedFile_eq_ok_iff.1 read).1 (same ▸ kept)

end

/-- An expansion of a file that succeeds gives its inlined tokens, of which there is one list, and
no import is left. It succeeds if the files form a finite tree within the limit in which all imports
are well placed, and of the files above one another no two share their full name; that they do not
is sure if the extension has no dot. -/
theorem ofFile_inlines (source : FileSource) (entry : FileName) :
    (∀ tokens, ofFile source entry = .ok tokens →
        InlinesFile source entry (tokens.map (·.kind)) ∧
          ∀ token ∈ tokens, isImport token.kind = false) ∧
      (∀ kinds kinds', InlinesFile source entry kinds → InlinesFile source entry kinds' →
        kinds = kinds') ∧
      (∀ n ≤ fileLimit, Forest source [entry] n → Unambiguous source entry →
        ∃ tokens, ofFile source entry = .ok tokens) ∧
      ('.' ∉ entry.extension.toList → Unambiguous source entry) := by
  refine ⟨fun tokens h => ?_, fun _ _ => InlinesFile.unique, fun n le tree unambiguous => ?_,
    unambiguous_of_dot_notMem⟩
  · unfold ofFile at h
    cases expanded : inlinedFile source fileLimit [] none entry fileLimit with
    | error e =>
        rw [expanded] at h
        cases h
    | ok result =>
        rw [expanded] at h
        cases h
        obtain ⟨-, levels, budget, inner, -, -, loaded, inner_eq⟩ :=
          inlinedFile_eq_ok_iff.1 expanded
        obtain ⟨kinds, inlines, rfl, clean⟩ := inlines_of_inlined inner_eq
        exact ⟨⟨inner, loaded, inlines⟩, fun token member => clean _ (List.mem_map_of_mem member)⟩
  · have separate := tree.separate unambiguous
    cases tree with
    | @cons _ _ tokens m k loaded well below rest =>
        obtain ⟨limit, limit_eq⟩ : ∃ l, fileLimit = l + 1 := ⟨1023, rfl⟩
        cases rest
        obtain ⟨text, -, scanned⟩ := exists_text_of_tokens? loaded
        obtain ⟨result, inner_eq⟩ : ∃ result,
            inlined source limit [entry.text] entry.extension 0 limit tokens =
              .ok (result, limit - m) :=
          below.inlined rfl (well.placed (Token.groupsThrough_of_scan scanned)) (by omega)
            (Nat.le_refl _) (separate.children loaded)
        have expanded : inlinedFile source (limit + 1) [] none entry (limit + 1) =
            .ok (result, limit - m) :=
          inlinedFile_eq_ok_iff.2
            ⟨List.not_mem_nil, limit, limit, tokens, rfl, rfl, loaded, inner_eq⟩
        refine ⟨result, ?_⟩
        rw [ofFile, limit_eq, expanded]
        rfl

/-- A file that is imported along two paths. -/
theorem ofFile_inlines_diamond :
    let bundles := (((Bundles.empty.add "app" "main.less" "@import left; @import \"right.css\"").add
      "app" "left.less" "] @import base").add "app" "right.css" "@import \"base.less\";").add
        "app" "base.less" ".Base \x7b \x7d"
    let source : FileSource := fun file => bundles.load file (.bundle "app")
    Forest source [⟨"main", "less"⟩] 5 ∧ ∃ tokens, ofFile source ⟨"main", "less"⟩ = .ok tokens ∧
      InlinesFile source ⟨"main", "less"⟩ (tokens.map (·.kind)) := by
  intro bundles source
  have tree : Forest source [⟨"main", "less"⟩] 5 := by
    have counted : countFiles source 4 [⟨"main", "less"⟩] = some 5 := by decide +kernel
    exact forest_of_countFiles counted
  obtain ⟨sound, -, succeeds, unambiguous⟩ := ofFile_inlines source ⟨"main", "less"⟩
  obtain ⟨tokens, expanded⟩ := succeeds 5 (by decide) tree (unambiguous (by decide))
  exact ⟨tree, tokens, expanded, (sound tokens expanded).1⟩

/-- Two files with one full name: `a` with the extension `b.c` imports `foo`, which imports `a.b`
with the extension `c`. The tree is finite, as the second one imports another `foo`. -/
theorem forest_with_shared_name :
    let bundles := ((Bundles.empty.add "app" "a.b.c" "@import foo;").add
      "app" "foo.b.c" "@import \"a.b.c\";").add "app" "foo.c" ".X \x7b x: 1; \x7d"
    let source : FileSource := fun file => bundles.load file (.bundle "app")
    Forest source [⟨"a", "b.c"⟩] 4 ∧ 4 ≤ fileLimit ∧
      ¬∃ tokens, ofFile source ⟨"a", "b.c"⟩ = .ok tokens := by
  intro bundles source
  have imports (file child : FileName)
      (found : ((tokens? source file).map (children file.extension)) = some [child]) :
      Imports source file child := by
    obtain ⟨tokens, loaded, eq⟩ := Option.map_eq_some_iff.1 found
    exact ⟨tokens, loaded, eq ▸ List.mem_cons_self⟩
  have path : Relation.TransGen (Imports source) ⟨"a", "b.c"⟩ ⟨"a.b", "c"⟩ :=
    .tail (.single (imports ⟨"a", "b.c"⟩ ⟨"foo", "b.c"⟩ (by decide +kernel)))
      (imports ⟨"foo", "b.c"⟩ ⟨"a.b", "c"⟩ (by decide +kernel))
  refine ⟨?_, by decide, ?_⟩
  · have counted : countFiles source 4 [⟨"a", "b.c"⟩] = some 4 := by decide +kernel
    exact forest_of_countFiles counted
  · rintro ⟨tokens, expanded⟩
    cases read : inlinedFile source fileLimit [] none ⟨"a", "b.c"⟩ fileLimit with
    | error e =>
        rw [ofFile, read] at expanded
        cases expanded
    | ok result => exact text_ne_of_inlinedFile read path (by decide)

end Import

end ViewStyle
