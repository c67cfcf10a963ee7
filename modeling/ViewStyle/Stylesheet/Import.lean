/-
Imports: the tokens of an imported file stand in the place of its import. Imports may only stand
outside all groups. No file is imported into itself, and no more than a fixed number of files is
read.
-/

import ViewStyle.Stylesheet.Error
import ViewStyle.Text.Split
import ViewStyle.Token.Scan

set_option autoImplicit false

namespace ViewStyle

open Text (Span)

/-- The file that an import names. A target without an extension takes the one of the file that
imports it. -/
def FileName.ofTarget (target extension : String) : FileName :=
  match Text.splitLast? '.' target.toList with
  | some (name, ending) =>
      if name.isEmpty || ending.isEmpty || ending.any (fun c => c == '/' || c == '\\') then
        ⟨target, extension⟩
      else ⟨String.ofList name, String.ofList ending⟩
  | none => ⟨target, extension⟩

namespace Import

/-- The tokens with the files behind their imports, and how many files may still be read. -/
abbrev Expansion : Type := Except SheetError (List Token × Nat)

def isImport : Token.Kind → Bool
  | .atWord name => Token.spells "import" name
  | _ => false

/-- The target of an import and the tokens behind its end, which a semicolon marks unless nothing
follows. -/
def target (directive : Token) : List Token → Except ReadError (String × List Token)
  | [] => .error ⟨.unexpected .fileName .endOfInput, some directive.span⟩
  | token :: rest =>
      let named (name : String) : Except ReadError (String × List Token) :=
        match rest with
        | [] => .ok (name, [])
        | ⟨.punct .semicolon, _, _⟩ :: rest => .ok (name, rest)
        | other :: _ => .error ⟨.unexpected .semicolon (.token other.kind), some other.span⟩
      match token.kind with
      | .string name => named name
      | .ident name => named name
      | kind => .error ⟨.unexpected .fileName (.token kind), some token.span⟩

theorem length_target {directive : Token} {tokens rest : List Token} {name : String}
    (h : target directive tokens = .ok (name, rest)) : rest.length ≤ tokens.length := by
  cases tokens with
  | nil => cases h
  | cons token tokens =>
      unfold target at h
      dsimp only at h
      have step : ∀ n : String,
          (match tokens with
            | [] => Except.ok (n, [])
            | ⟨.punct .semicolon, _, _⟩ :: rest => .ok (n, rest)
            | other :: _ =>
                .error (⟨.unexpected .semicolon (.token other.kind), some other.span⟩ : ReadError))
            = .ok (name, rest) → rest.length ≤ tokens.length + 1 := by
        intro n hn
        split at hn
        · cases hn
          simp
        · cases hn
          simp only [List.length_cons]
          omega
        · cases hn
      split at h
      · exact step _ h
      · exact step _ h
      · cases h

/-- The first token of a file stands where the import stood. -/
def placeAt (directive : Token) : List Token → List Token
  | [] => []
  | first :: rest => { first with spaced := directive.spaced } :: rest

/-- The files from the one that is imported again to itself; `opened` lists the files that are being
read from the inside out. -/
def cycle (file : String) (opened : List String) : List String :=
  file :: (opened.takeWhile (· ≠ file)).reverse ++ [file]

mutual

/-- The expanded tokens of a file. There are at most `levels` files inside each other, which never
counts before the number of files does. -/
def inlinedFile (source : FileSource) (levels : Nat) (opened : List String) (span : Option Span)
    (file : FileName) (budget : Nat) : Expansion :=
  if file.text ∈ opened then .error (.parse ⟨.importCycle (cycle file.text opened), span⟩)
  else
    match levels, budget with
    | levels + 1, budget + 1 =>
        match source file with
        | .error e => .error (.load e)
        | .ok text =>
            match Token.scan text (some file.text) with
            | .error e => .error (.lex e)
            | .ok tokens =>
                inlined source levels (file.text :: opened) file.extension 0 budget tokens
    | _, _ => .error (.parse ⟨.tooManyImports, span⟩)
termination_by (levels, 0, 0)

/-- Puts files in the place of imports; `depth` groups are open before the tokens. -/
def inlined (source : FileSource) (levels : Nat) (opened : List String) (extension : String)
    (depth budget : Nat) : List Token → Expansion
  | [] => .ok ([], budget)
  | token :: rest =>
      if isImport token.kind then
        if 0 < depth then
          .error (.parse ⟨.unexpected .declaration .nestedImport, some token.span⟩)
        else
          match h : target token rest with
          | .error e => .error (.parse e)
          | .ok (name, rest') =>
              have := length_target h
              match inlinedFile source levels opened (some token.span)
                  (.ofTarget name extension) budget with
              | .error e => .error e
              | .ok (imported, budget) =>
                  match inlined source levels opened extension depth budget rest' with
                  | .error e => .error e
                  | .ok (others, budget) => .ok (placeAt token imported ++ others, budget)
      else
        match inlined source levels opened extension (Token.depthAfter token.kind depth) budget
            rest with
        | .error e => .error e
        | .ok (others, budget) => .ok (token :: others, budget)
termination_by tokens => (levels, 1, tokens.length)

end

/-- The tokens of a text with all imports expanded. -/
def ofText (source : FileSource) (extension text : String) : Except SheetError (List Token) :=
  match Token.scan text none with
  | .error e => .error (.lex e)
  | .ok tokens => (inlined source fileLimit [] extension 0 fileLimit tokens).map (·.1)

/-- The tokens of a file with all imports expanded. -/
def ofFile (source : FileSource) (file : FileName) : Except SheetError (List Token) :=
  (inlinedFile source fileLimit [] none file fileLimit).map (·.1)

end Import

end ViewStyle
