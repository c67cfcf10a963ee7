/-
The files that an expansion asks for. A run says what the expansion of a file or of some tokens
gives and which files it has loaded for that, in their order; it knows no bound on how deep files
lie inside each other. Every task has exactly one run, and in it no more files are asked for than
the budget allows.
-/

import ViewStyle.Proofs.Stylesheet.Inlining

set_option autoImplicit false

namespace ViewStyle

open Text (Span)
open Token (depthAfter)

namespace Import

/-- What is to be expanded: a file, which an import at some place names unless it is the entry, or
some tokens with an extension for their imports and counted groups before them. -/
inductive Task
  | file (span : Option Span) (file : FileName)
  | tokens (extension : String) (depth : Nat) (tokens : List Token)

/-- What a task comes to, and the files that are asked for, in their order. -/
inductive Runs (source : FileSource) :
    List String → Task → Nat → Expansion → List FileName → Prop
  | again {opened : List String} {span : Option Span} {file : FileName} {budget : Nat} :
      file.text ∈ opened →
        Runs source opened (.file span file) budget
          (.error (.parse ⟨.importCycle (cycle file.text opened), span⟩)) []
  | spent {opened : List String} {span : Option Span} {file : FileName} :
      file.text ∉ opened →
        Runs source opened (.file span file) 0 (.error (.parse ⟨.tooManyImports, span⟩)) []
  | missing {opened : List String} {span : Option Span} {file : FileName} {budget : Nat}
      {e : FileError} : file.text ∉ opened → source file = .error e →
        Runs source opened (.file span file) (budget + 1) (.error (.load e)) [file]
  | garbled {opened : List String} {span : Option Span} {file : FileName} {budget : Nat}
      {text : String} {e : ScanError} : file.text ∉ opened → source file = .ok text →
        Token.scan text (some file.text) = .error e →
          Runs source opened (.file span file) (budget + 1) (.error (.lex e)) [file]
  | opens {opened : List String} {span : Option Span} {file : FileName} {budget : Nat}
      {text : String} {tokens : List Token} {result : Expansion} {log : List FileName} :
      file.text ∉ opened → source file = .ok text →
        Token.scan text (some file.text) = .ok tokens →
          Runs source (file.text :: opened) (.tokens file.extension 0 tokens) budget result log →
            Runs source opened (.file span file) (budget + 1) result (file :: log)
  | done {opened : List String} {extension : String} {depth budget : Nat} :
      Runs source opened (.tokens extension depth []) budget (.ok ([], budget)) []
  | other {opened : List String} {extension : String} {depth budget : Nat} {token : Token}
      {rest : List Token} {result : Expansion} {log : List FileName} :
      isImport token.kind = false →
        Runs source opened (.tokens extension (depthAfter token.kind depth) rest) budget result
          log →
          Runs source opened (.tokens extension depth (token :: rest)) budget
            (result.map fun others => (token :: others.1, others.2)) log
  | nested {opened : List String} {extension : String} {depth budget : Nat} {token : Token}
      {rest : List Token} : isImport token.kind = true → 0 < depth →
        Runs source opened (.tokens extension depth (token :: rest)) budget
          (.error (.parse ⟨.unexpected .declaration .nestedImport, some token.span⟩)) []
  | broken {opened : List String} {extension : String} {budget : Nat} {token : Token}
      {rest : List Token} {e : ReadError} : isImport token.kind = true →
        target token rest = .error e →
          Runs source opened (.tokens extension 0 (token :: rest)) budget (.error (.parse e)) []
  | fails {opened : List String} {extension name : String} {budget : Nat} {token : Token}
      {rest rest' : List Token} {e : SheetError} {log : List FileName} :
      isImport token.kind = true → Targets rest name rest' →
        Runs source opened (.file (some token.span) (.ofTarget name extension)) budget (.error e)
          log →
          Runs source opened (.tokens extension 0 (token :: rest)) budget (.error e) log
  | inserts {opened : List String} {extension name : String} {budget left : Nat} {token : Token}
      {rest rest' imported : List Token} {result : Expansion} {log log' : List FileName} :
      isImport token.kind = true → Targets rest name rest' →
        Runs source opened (.file (some token.span) (.ofTarget name extension)) budget
          (.ok (imported, left)) log →
          Runs source opened (.tokens extension 0 rest') left result log' →
            Runs source opened (.tokens extension 0 (token :: rest)) budget
              (result.map fun others => (placeAt token imported ++ others.1, others.2))
              (log ++ log')

section

variable {source : FileSource} {opened : List String} {task : Task} {budget : Nat}
  {result : Expansion} {log : List FileName}

theorem Runs.length_log (h : Runs source opened task budget result log) :
    log.length ≤ budget ∧ ∀ expanded, result = .ok expanded →
      expanded.2 + log.length = budget := by
  induction h with
  | again => exact ⟨Nat.zero_le _, nofun⟩
  | spent => exact ⟨Nat.zero_le _, nofun⟩
  | missing => exact ⟨Nat.succ_le_succ (Nat.zero_le _), nofun⟩
  | garbled => exact ⟨Nat.succ_le_succ (Nat.zero_le _), nofun⟩
  | opens _ _ _ _ ih =>
      obtain ⟨few, exact_count⟩ := ih
      refine ⟨Nat.succ_le_succ few, fun expanded succeeded => ?_⟩
      have count := exact_count expanded succeeded
      rw [List.length_cons]
      omega
  | done =>
      refine ⟨Nat.zero_le _, fun expanded succeeded => ?_⟩
      cases succeeded
      rfl
  | @other _ _ _ _ _ _ result _ _ _ ih =>
      obtain ⟨few, exact_count⟩ := ih
      refine ⟨few, fun expanded succeeded => ?_⟩
      cases result with
      | error e => cases succeeded
      | ok others =>
          cases succeeded
          exact exact_count others rfl
  | nested => exact ⟨Nat.zero_le _, nofun⟩
  | broken => exact ⟨Nat.zero_le _, nofun⟩
  | fails _ _ _ ih => exact ⟨ih.1, nofun⟩
  | @inserts _ _ _ _ left _ _ _ imported result log log' _ _ _ _ ih_file ih =>
      have count := ih_file.2 (imported, left) rfl
      obtain ⟨few, exact_count⟩ := ih
      dsimp only at count
      rw [List.length_append]
      refine ⟨by omega, fun expanded succeeded => ?_⟩
      cases result with
      | error e => cases succeeded
      | ok others =>
          cases succeeded
          have count' := exact_count others rfl
          dsimp only
          omega

theorem Runs.congr {source' : FileSource} (h : Runs source opened task budget result log)
    (same : ∀ file ∈ log, source' file = source file) :
    Runs source' opened task budget result log := by
  induction h with
  | again open_ => exact .again open_
  | spent new => exact .spent new
  | missing new failed => exact .missing new (by rw [same _ List.mem_cons_self, failed])
  | garbled new loaded failed =>
      exact .garbled new (by rw [same _ List.mem_cons_self, loaded]) failed
  | opens new loaded scanned _ ih =>
      obtain ⟨here, below⟩ := List.forall_mem_cons.1 same
      exact .opens new (by rw [here, loaded]) scanned (ih below)
  | done => exact .done
  | other plain _ ih => exact .other plain (ih same)
  | nested here inside => exact .nested here inside
  | broken here failed => exact .broken here failed
  | fails here targets _ ih => exact .fails here targets (ih same)
  | inserts here targets _ _ ih_file ih =>
      obtain ⟨first, rest⟩ := List.forall_mem_append.1 same
      exact .inserts here targets (ih_file first) (ih rest)

private theorem Targets.unique {after rest rest' : List Token} {name name' : String}
    (h : Targets after name rest) (h' : Targets after name' rest') :
    name = name' ∧ rest = rest' := by
  have same := (target_of_targets h ⟨.ident "", ⟨none, .start⟩, false⟩).symm.trans
    (target_of_targets h' _)
  cases same
  exact ⟨rfl, rfl⟩

private theorem Targets.not_error {directive : Token} {after rest : List Token} {name : String}
    {e : ReadError} (h : Targets after name rest) (failed : target directive after = .error e) :
    False := by
  rw [target_of_targets h] at failed
  cases failed

theorem Runs.unique {result' : Expansion} {log' : List FileName}
    (h : Runs source opened task budget result log)
    (h' : Runs source opened task budget result' log') : result = result' ∧ log = log' := by
  induction h generalizing result' log' with
  | again open_ =>
      cases h' with
      | again => exact ⟨rfl, rfl⟩
      | spent new => exact absurd open_ new
      | missing new => exact absurd open_ new
      | garbled new => exact absurd open_ new
      | opens new => exact absurd open_ new
  | spent new =>
      cases h' with
      | again open_ => exact absurd open_ new
      | spent => exact ⟨rfl, rfl⟩
  | missing new failed =>
      cases h' with
      | again open_ => exact absurd open_ new
      | missing _ failed' =>
          cases failed.symm.trans failed'
          exact ⟨rfl, rfl⟩
      | garbled _ loaded => cases failed.symm.trans loaded
      | opens _ loaded => cases failed.symm.trans loaded
  | garbled new loaded failed =>
      cases h' with
      | again open_ => exact absurd open_ new
      | missing _ failed' => cases loaded.symm.trans failed'
      | garbled _ loaded' failed' =>
          cases loaded.symm.trans loaded'
          cases failed.symm.trans failed'
          exact ⟨rfl, rfl⟩
      | opens _ loaded' scanned =>
          cases loaded.symm.trans loaded'
          cases failed.symm.trans scanned
  | opens new loaded scanned _ ih =>
      cases h' with
      | again open_ => exact absurd open_ new
      | missing _ failed' => cases loaded.symm.trans failed'
      | garbled _ loaded' failed' =>
          cases loaded.symm.trans loaded'
          cases scanned.symm.trans failed'
      | opens _ loaded' scanned' inner =>
          cases loaded.symm.trans loaded'
          cases scanned.symm.trans scanned'
          obtain ⟨rfl, rfl⟩ := ih inner
          exact ⟨rfl, rfl⟩
  | done =>
      cases h'
      exact ⟨rfl, rfl⟩
  | other plain _ ih =>
      cases h' with
      | other _ rest =>
          obtain ⟨rfl, rfl⟩ := ih rest
          exact ⟨rfl, rfl⟩
      | nested here => cases plain.symm.trans here
      | broken here => cases plain.symm.trans here
      | fails here => cases plain.symm.trans here
      | inserts here => cases plain.symm.trans here
  | nested here inside =>
      cases h' with
      | other plain => cases plain.symm.trans here
      | nested => exact ⟨rfl, rfl⟩
      | broken => exact absurd inside (Nat.lt_irrefl 0)
      | fails => exact absurd inside (Nat.lt_irrefl 0)
      | inserts => exact absurd inside (Nat.lt_irrefl 0)
  | broken here failed =>
      cases h' with
      | other plain => cases plain.symm.trans here
      | nested _ inside => exact absurd inside (Nat.lt_irrefl 0)
      | broken _ failed' =>
          cases failed.symm.trans failed'
          exact ⟨rfl, rfl⟩
      | fails _ targets => exact (targets.not_error failed).elim
      | inserts _ targets => exact (targets.not_error failed).elim
  | fails here targets _ ih =>
      cases h' with
      | other plain => cases plain.symm.trans here
      | nested _ inside => exact absurd inside (Nat.lt_irrefl 0)
      | broken _ failed => exact (targets.not_error failed).elim
      | fails _ targets' file =>
          obtain ⟨rfl, rfl⟩ := targets.unique targets'
          exact ih file
      | inserts _ targets' file _ =>
          obtain ⟨rfl, rfl⟩ := targets.unique targets'
          cases (ih file).1
  | inserts here targets _ _ ih_file ih =>
      cases h' with
      | other plain => cases plain.symm.trans here
      | nested _ inside => exact absurd inside (Nat.lt_irrefl 0)
      | broken _ failed => exact (targets.not_error failed).elim
      | fails _ targets' file =>
          obtain ⟨rfl, rfl⟩ := targets.unique targets'
          cases (ih_file file).1
      | inserts _ targets' file rest =>
          obtain ⟨rfl, rfl⟩ := targets.unique targets'
          obtain ⟨same, rfl⟩ := ih_file file
          cases same
          obtain ⟨rfl, rfl⟩ := ih rest
          exact ⟨rfl, rfl⟩

end

def Task.outcome (source : FileSource) (levels : Nat) (opened : List String) (budget : Nat) :
    Task → Expansion
  | .file span f => inlinedFile source levels opened span f budget
  | .tokens extension depth list => inlined source levels opened extension depth budget list

section

variable {source : FileSource} {levels : Nat}

private theorem exists_runs_tokens
    (files : ∀ opened span file budget, budget ≤ levels → ∃ log,
      Runs source opened (.file span file) budget
        (inlinedFile source levels opened span file budget) log)
    (opened : List String) (extension : String) (depth budget : Nat) (tokens : List Token)
    (deep : budget ≤ levels) : ∃ log,
      Runs source opened (.tokens extension depth tokens) budget
        (inlined source levels opened extension depth budget tokens) log := by
  induction n : tokens.length using Nat.strongRecOn generalizing tokens depth budget with
  | _ n ih =>
    subst n
    cases tokens with
    | nil =>
        rw [inlined]
        exact ⟨[], .done⟩
    | cons token rest =>
        cases here : isImport token.kind with
        | false =>
            obtain ⟨log, run⟩ := ih _ (Nat.lt_succ_self _) (depthAfter token.kind depth) budget
              rest deep rfl
            rw [inlined_other here]
            exact ⟨log, .other here run⟩
        | true =>
            by_cases inside : 0 < depth
            · rw [inlined, if_pos here, if_pos inside]
              exact ⟨[], .nested here inside⟩
            · obtain rfl := Nat.eq_zero_of_not_pos inside
              cases read : target token rest with
              | error e =>
                  refine ⟨[], ?_⟩
                  have failed : inlined source levels opened extension 0 budget (token :: rest) =
                      .error (.parse e) := by
                    rw [inlined, if_pos here, if_neg inside]
                    split
                    · rename_i failed
                      cases read.symm.trans failed
                      rfl
                    · rename_i read'
                      cases read.symm.trans read'
                  rw [failed]
                  exact .broken here read
              | ok named =>
                  obtain ⟨name, rest'⟩ := named
                  have targets := targets_of_target read
                  obtain ⟨log, run⟩ := files opened (some token.span) (.ofTarget name extension)
                    budget deep
                  rw [inlined_import here targets]
                  cases outcome : inlinedFile source levels opened (some token.span)
                      (.ofTarget name extension) budget with
                  | error e =>
                      rw [outcome] at run
                      exact ⟨log, .fails here targets run⟩
                  | ok imported =>
                      rw [outcome] at run
                      have paid := run.length_log.2 imported rfl
                      obtain ⟨log', run'⟩ := ih rest'.length
                        (Nat.lt_succ_of_le targets.length_le) 0 imported.2 rest' (by omega) rfl
                      exact ⟨log ++ log', .inserts here targets run run'⟩

/-- Every task has a run. The bound on the depth of files never counts before the budget is
spent. -/
theorem exists_runs (source : FileSource) {levels budget : Nat} (deep : budget ≤ levels)
    (opened : List String) (task : Task) : ∃ log,
      Runs source opened task budget (task.outcome source levels opened budget) log := by
  have files : ∀ opened span file budget, budget ≤ levels → ∃ log,
      Runs source opened (.file span file) budget
        (inlinedFile source levels opened span file budget) log := by
    clear * -
    induction levels with
    | zero =>
        intro opened span file budget deep
        obtain rfl := Nat.le_zero.1 deep
        unfold inlinedFile
        by_cases again : file.text ∈ opened
        · rw [if_pos again]
          exact ⟨[], .again again⟩
        · rw [if_neg again]
          exact ⟨[], .spent again⟩
    | succ levels ih =>
        intro opened span file budget deep
        unfold inlinedFile
        by_cases new : file.text ∈ opened
        · rw [if_pos new]
          exact ⟨[], .again new⟩
        · rw [if_neg new]
          cases budget with
          | zero => exact ⟨[], .spent new⟩
          | succ budget =>
              dsimp only
              cases loaded : source file with
              | error e => exact ⟨[file], .missing new loaded⟩
              | ok text =>
                  dsimp only
                  cases scanned : Token.scan text (some file.text) with
                  | error e => exact ⟨[file], .garbled new loaded scanned⟩
                  | ok tokens =>
                      obtain ⟨log, run⟩ := exists_runs_tokens ih (file.text :: opened)
                        file.extension 0 budget tokens (Nat.le_of_succ_le_succ deep)
                      exact ⟨file :: log, .opens new loaded scanned run⟩
  cases task with
  | file span file => exact files opened span file budget deep
  | tokens extension depth tokens =>
      exact exists_runs_tokens files opened extension depth budget tokens deep

end

end Import

end ViewStyle
