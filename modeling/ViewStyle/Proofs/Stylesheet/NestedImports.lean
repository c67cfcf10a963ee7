/-
Which texts are refused for an import in a block. An import is refused if in some run of tokens
right before it the opening ones outnumber the closing ones; among tokens that fit, these are all
that stand in a group. A stray closing token in a group is counted for the end of that group, so
that an import behind it may well be expanded in there.
-/

import ViewStyle.Proofs.Stylesheet.Inlining

set_option autoImplicit false

namespace ViewStyle

open Token (Between Fits closings depthThrough groupsThrough openings)

namespace Import

/-- The text is not expanded, whatever its imports stand for. -/
def Refused (extension text : String) : Prop :=
  ∀ source : FileSource, ∃ e, ofText source extension text = .error e

/-- In some run of tokens up to the end the opening ones outnumber the closing ones. -/
def Outnumbered (tokens : List Token) : Prop :=
  ∃ early late, tokens = early ++ late ∧ closings late < openings late

private theorem ofText_eq_ok {source : FileSource} {extension text : String}
    {tokens result : List Token} (scanned : Token.scan text none = .ok tokens)
    (h : ofText source extension text = .ok result) :
    ∃ left, inlined source fileLimit [] extension 0 fileLimit tokens = .ok (result, left) := by
  unfold ofText at h
  rw [scanned] at h
  dsimp only at h
  cases expanded : inlined source fileLimit [] extension 0 fileLimit tokens with
  | error e =>
      rw [expanded] at h
      cases h
  | ok read =>
      rw [expanded] at h
      cases h
      exact ⟨read.2, rfl⟩

private theorem refused_of_counted {extension text : String} {tokens : List Token}
    (scanned : Token.scan text none = .ok tokens) {before after : List Token} {directive : Token}
    (eq : tokens = before ++ directive :: after) (here : isImport directive.kind = true)
    (counted : 0 < depthThrough before 0) : Refused extension text := by
  intro source
  cases expanded : ofText source extension text with
  | error e => exact ⟨e, rfl⟩
  | ok result =>
      obtain ⟨left, inlined_eq⟩ := ofText_eq_ok scanned expanded
      have outside := (placed_of_inlined inlined_eq before directive after eq here).1
      omega

def emptyFiles : FileSource := fun _ => .ok ""

private theorem tokens?_emptyFiles (file : FileName) : tokens? emptyFiles file = some [] := by
  have scanned : Token.scan "" (some file.text) = .ok [] := by
    simp [Token.scan, Scan.run, Scan.State.start]
  simp [tokens?, emptyFiles, scanned, Except.toOption]

private theorem not_imports_emptyFiles (file file' : FileName) :
    ¬Imports emptyFiles file file' := by
  rintro ⟨tokens, loaded, member⟩
  rw [tokens?_emptyFiles] at loaded
  cases loaded
  cases member

private theorem forest_emptyFiles (files : List FileName) :
    Forest emptyFiles files files.length := by
  induction files with
  | nil => exact .nil
  | cons file files ih =>
      have well : WellPlaced [] := by
        intro before directive after eq
        simp at eq
      rw [List.length_cons, show files.length + 1 = 0 + 1 + files.length by omega]
      exact .cons (tokens?_emptyFiles file) well .nil ih

private theorem not_refused {extension text : String} {tokens : List Token}
    (scanned : Token.scan text none = .ok tokens) (placed : Placed 0 tokens)
    (few : (children extension tokens).length ≤ fileLimit) : ¬Refused extension text := by
  intro refused
  have separate : Separate emptyFiles [] (children extension tokens) := by
    intro file _ below _
    refine ⟨List.not_mem_nil, fun deeper path => ?_⟩
    obtain ⟨next, imports, -⟩ := Relation.TransGen.head'_iff.1 path
    exact absurd imports (not_imports_emptyFiles below next)
  obtain ⟨result, expanded⟩ : ∃ result,
      inlined emptyFiles fileLimit [] extension 0 fileLimit tokens =
        .ok (result, fileLimit - (children extension tokens).length) :=
    (forest_emptyFiles _).inlined rfl placed few (Nat.le_refl _) separate
  obtain ⟨e, failed⟩ := refused emptyFiles
  rw [ofText, scanned] at failed
  dsimp only at failed
  rw [expanded] at failed
  cases failed

/-- A text is refused for an import with more opening than closing tokens in some run right before
it, and so for every import in a group unless a closing token is astray before it. If all its imports
are complete and not too many, it is refused for nothing else. -/
theorem refused_of_nested {extension text : String} {tokens : List Token}
    (scanned : Token.scan text none = .ok tokens) :
    (∀ before directive after, tokens = before ++ directive :: after →
        isImport directive.kind = true → Outnumbered before → Refused extension text) ∧
      (∀ before directive after, tokens = before ++ directive :: after →
        isImport directive.kind = true → Between before (directive :: after) → Fits [] before →
          Refused extension text) ∧
      ((∀ before directive after, tokens = before ++ directive :: after →
          isImport directive.kind = true → ∃ name rest, Targets after name rest) →
        (children extension tokens).length ≤ fileLimit → Refused extension text →
          ∃ before directive after, tokens = before ++ directive :: after ∧
            isImport directive.kind = true ∧ Outnumbered before) := by
  refine ⟨?_, ?_, ?_⟩
  · intro before directive after eq here outnumbered
    exact refused_of_counted scanned eq here (Token.depthThrough_pos_iff.2 outnumbered)
  · intro before directive after eq here between fits
    refine refused_of_counted scanned eq here ?_
    have depth : depthThrough before 0 = (groupsThrough before []).length :=
      Token.depthThrough_of_fits fits
    rw [depth]
    exact List.length_pos_iff.2 between.groupsThrough_ne_nil
  · intro complete few refused
    by_contra nowhere
    refine not_refused scanned (fun before directive after eq here => ?_) few refused
    refine ⟨?_, complete before directive after eq here⟩
    by_contra counted
    exact nowhere ⟨before, directive, after, eq, here,
      Token.depthThrough_pos_iff.1 (Nat.pos_of_ne_zero counted)⟩

/-- An import in a block. -/
theorem refused_of_nested_block :
    let text := ".A \x7b @import b; \x7d"
    (∃ tokens, Token.scan text none = .ok tokens) ∧ Refused "less" text := by
  intro text
  let token (kind : Token.Kind) (column : Nat) (spaced : Bool) : Token :=
    ⟨kind, ⟨none, ⟨1, column⟩⟩, spaced⟩
  let before := [token (.punct .dot) 1 false, token (.ident "A") 2 false,
    token (.punct (.opening .brace)) 4 true]
  let directive := token (.atWord "import") 6 true
  let after := [token (.ident "b") 14 true, token (.punct .semicolon) 15 false,
    token (.punct (.closing .brace)) 17 true]
  have scanned : Token.scan text none = .ok (before ++ directive :: after) := by decide +kernel
  refine ⟨⟨_, scanned⟩, ?_⟩
  obtain ⟨-, nested, -⟩ := @refused_of_nested "less" text _ scanned
  refine nested before directive after rfl (by decide +kernel) ?_ ?_
  · exact ⟨before.take 2, token (.punct (.opening .brace)) 4 true, [], .brace,
      directive :: after.take 2, token (.punct (.closing .brace)) 17 true, [], rfl, rfl, rfl, rfl,
      .nil _, .token rfl (by rintro ⟨⟩) (.token rfl (by rintro ⟨⟩)
        (.token rfl (by rintro ⟨⟩) (.nil _)))⟩
  · exact ⟨by rintro _ ⟨⟩, by rintro _ ⟨⟩, by rintro _ ⟨⟩, trivial⟩

/-- A stray closing bracket in a block: the import behind it is not refused, and the imported tokens
stand in the block. -/
theorem nested_behind_stray :
    let text := ".A \x7b x: ] ; @import \"b\"; \x7d"
    let bundles := Bundles.empty.add "app" "b.less" "y: 2;"
    let source : FileSource := fun file => bundles.load file (.bundle "app")
    ∃ before directive after, Token.scan text none = .ok (before ++ directive :: after) ∧
      isImport directive.kind = true ∧ Between before (directive :: after) ∧
        ∃ imported rest, tokens? source ⟨"b", "less"⟩ = some imported ∧ imported ≠ [] ∧
          ofText source "less" text = .ok (before ++ (placeAt directive imported ++ rest)) := by
  intro text bundles source
  let token (kind : Token.Kind) (column : Nat) (spaced : Bool) : Token :=
    ⟨kind, ⟨none, ⟨1, column⟩⟩, spaced⟩
  let head := [token (.punct .dot) 1 false, token (.ident "A") 2 false]
  let opening := token (.punct (.opening .brace)) 4 true
  let inside := [token (.ident "x") 6 true, token (.punct .colon) 7 false,
    token (.punct (.closing .square)) 9 true, token (.punct .semicolon) 11 true]
  let before := head ++ opening :: inside
  let directive := token (.atWord "import") 13 true
  let target := [token (.string "b") 21 true, token (.punct .semicolon) 24 false]
  let closing := token (.punct (.closing .brace)) 26 true
  let after := target ++ [closing]
  have scanned : Token.scan text none = .ok (before ++ directive :: after) := by decide +kernel
  have here : isImport directive.kind = true := by decide +kernel
  obtain ⟨imported, loaded, checked⟩ := Option.map_eq_some_iff.1
    (show (tokens? source ⟨"b", "less"⟩).map
      (fun tokens => !tokens.isEmpty && tokens.all (!isImport ·.kind)) = some true by decide +kernel)
  obtain ⟨some_token, plain⟩ := Bool.and_eq_true_iff.1 checked
  refine ⟨before, directive, after, scanned, here, ?_, imported, [closing],
    loaded, by simpa using some_token, ?_⟩
  · exact ⟨head, opening, inside, .brace, directive :: target, closing, [], rfl, rfl, rfl, rfl,
      .token rfl (by rintro ⟨⟩) (.token rfl (by rintro ⟨⟩)
        (.token rfl (by rintro ⟨⟩) (.token rfl (by rintro ⟨⟩) (.nil _)))),
      .token rfl (by rintro ⟨⟩) (.token rfl (by rintro ⟨⟩) (.token rfl (by rintro ⟨⟩) (.nil _)))⟩
  · -- The square bracket takes the count back to nothing.
    have counted : depthThrough before 0 = 0 := rfl
    have targets : Targets after "b" [closing] := .semicolon rfl rfl
    have file_eq : inlinedFile source fileLimit [] (some directive.span) (.ofTarget "b" "less")
        fileLimit = .ok (imported, fileLimit - 1) := by
      refine inlinedFile_eq_ok_iff.2 ⟨List.not_mem_nil, fileLimit - 1, fileLimit - 1, imported, rfl,
        rfl, loaded, ?_⟩
      exact inlined_plain (by simpa using plain)
    have unchanged : ∀ token ∈ before, isImport token.kind = false := by decide +kernel
    have last : ∀ token ∈ [closing], isImport token.kind = false := by decide +kernel
    rw [ofText, scanned]
    dsimp only
    rw [inlined_append unchanged, counted, inlined_import here targets, file_eq, Except.bind,
      inlined_plain last]
    rfl
end Import

end ViewStyle
