/-
Names in a source text. Without escapes a name has no space, bracket or quote in it.
-/

import ViewStyle.Token.Scan

set_option autoImplicit false

namespace ViewStyle

def isBare (c : Char) : Bool := c != ' ' && c != '(' && c != ')' && c != '"'

def BareName (name : String) : Prop := ∀ c ∈ name.toList, isBare c = true

namespace Lexeme

private theorem isBare_of_continuesName {c : Char} (h : continuesName c = true) :
    isBare c = true := by
  have other : c ≠ ' ' ∧ c ≠ '(' ∧ c ≠ ')' ∧ c ≠ '"' := by
    refine ⟨?_, ?_, ?_, ?_⟩ <;> (rintro rfl; exact absurd h (by decide))
  simp [isBare, other]

private theorem isBare_plain {c : Char} (h : continuesName c = true) : isBare (plain c) = true := by
  unfold plain
  split
  · decide
  · exact isBare_of_continuesName h

private theorem bare_takeName {cs : List Char} (h : '\\' ∉ cs) :
    ∀ c ∈ (takeName cs).1, isBare c = true := by
  fun_induction takeName cs with
  | case1 => nofun
  | case2 => nofun
  | case3 => exact absurd List.mem_cons_self h
  | case4 c cs _ continues name n read ih =>
      rw [read] at ih
      intro d member
      rcases List.mem_cons.1 member with rfl | member
      · exact isBare_plain continues
      · exact ih (fun inside => h (List.mem_cons_of_mem _ inside)) d member
  | case5 => nofun

def NameHas (P : String → Prop) : Lexeme → Prop
  | .ident name => P name
  | _ => True

variable {P : String → Prop}

private theorem nameHas_takeWord {cs : List Char} (h : P (String.ofList (takeName cs).1)) :
    (takeWord cs).1.NameHas P := by
  unfold takeWord
  dsimp only
  split
  · split
    · unfold afterAddressHead
      dsimp only
      split
      · trivial
      · trivial
      · split <;> trivial
    · trivial
  · exact h

private theorem nameHas_takeNumber (cs : List Char) : (takeNumber cs).1.NameHas P := by
  unfold takeNumber
  dsimp only
  split
  · trivial
  · split <;> trivial

theorem nameHas_next {c : Char} {cs : List Char}
    (h : atName (c :: cs) = true → P (String.ofList (takeName (c :: cs)).1)) :
    (next c cs).1.NameHas P := by
  unfold next
  split
  · trivial
  · trivial
  · split <;> trivial
  · split <;> trivial
  · trivial
  · trivial
  · trivial
  · trivial
  · trivial
  · trivial
  · trivial
  · dsimp only
    split
    · trivial
    · split
      · exact nameHas_takeNumber _
      · split
        · trivial
        · split
          · rename_i starts
            exact nameHas_takeWord (h starts)
          · trivial

private theorem bare_next {c : Char} {cs : List Char} (h : '\\' ∉ c :: cs) :
    (next c cs).1.NameHas BareName := by
  refine nameHas_next fun _ d member => ?_
  rw [String.toList_ofList] at member
  exact bare_takeName h d member

end Lexeme

def Token.Kind.NameHas (P : String → Prop) : Token.Kind → Prop
  | .ident name => P name
  | _ => True

namespace Scan

def NamesHave (P : String → Prop) (tokens : List Token) : Prop :=
  ∀ token ∈ tokens, token.kind.NameHas P

variable {P : String → Prop}

private theorem NamesHave.push {tokens : List Token} (h : NamesHave P tokens) {token : Token}
    (new : token.kind.NameHas P) : NamesHave P (push tokens token) := by
  have added : NamesHave P (token :: tokens) := by
    intro t member
    rcases List.mem_cons.1 member with rfl | member
    · exact new
    · exact h t member
  unfold Scan.push
  split
  · split
    · intro t member
      rcases List.mem_cons.1 member with rfl | member
      · trivial
      · exact h t (List.mem_cons_of_mem _ member)
    · exact added
  · exact added

private theorem NamesHave.emit {s : State} (h : NamesHave P s.tokens) (origin : Option String)
    {kind : Token.Kind} (new : kind.NameHas P) : NamesHave P (s.emit origin kind).tokens :=
  h.push new

private theorem NamesHave.enter {s s' : State} (h : NamesHave P s.tokens) {origin : Option String}
    {kind : Token.Kind} {bracket : Bracket} (new : kind.NameHas P)
    (entered : s.enter origin kind bracket = .ok s') : NamesHave P s'.tokens := by
  unfold State.enter at entered
  dsimp only at entered
  split at entered
  · cases entered
  · cases entered
    exact h.emit origin new

private theorem NamesHave.leave {s : State} (h : NamesHave P s.tokens) (origin : Option String)
    (bracket : Bracket) : NamesHave P (s.leave origin bracket).tokens := by
  have closed : NamesHave P (s.emit origin (.punct (.closing bracket))).tokens :=
    h.emit origin trivial
  unfold State.leave
  dsimp only
  split
  · exact closed
  · split <;> exact closed

private theorem nameHas_markKind (P : String → Prop) (c : Char) : (markKind c).NameHas P := by
  unfold markKind
  split <;> trivial

private theorem NamesHave.read {s s' : State} {origin : Option String} {text : List Char}
    {lexeme : Lexeme} (h : NamesHave P s.tokens) (new : lexeme.NameHas P)
    (read : s.read origin text lexeme = .ok s') : NamesHave P s'.tokens := by
  cases lexeme with
  | blank =>
      cases read
      exact h
  | comment closed =>
      cases closed with
      | false => cases read
      | true =>
          cases read
          exact h
  | ident name =>
      cases read
      exact h.emit origin new
  | atWord name =>
      cases read
      exact h.emit origin trivial
  | hash name =>
      cases read
      exact h.emit origin trivial
  | string text closed =>
      cases closed with
      | false => cases read
      | true =>
          cases read
          exact h.emit origin trivial
  | number value unit =>
      cases read
      exact h.emit origin trivial
  | function name =>
      refine h.enter ?_ read
      trivial
  | address target =>
      cases read
      refine NamesHave.emit (NamesHave.emit (h.emit origin ?_) origin ?_) origin ?_
      · trivial
      · trivial
      · trivial
  | mark c =>
      simp only [State.read] at read
      split at read
      · refine h.enter ?_ read
        trivial
      · cases read
        exact h.leave origin _
      · cases read
        exact h.emit origin (nameHas_markKind P c)
  | refused => cases read

theorem NamesHave.run
    (next : ∀ {c : Char} {cs : List Char}, '\\' ∉ c :: cs → (Lexeme.next c cs).1.NameHas P)
    {origin : Option String} {s : State} {cs : List Char} {tokens : List Token}
    (h : NamesHave P s.tokens) (unescaped : '\\' ∉ cs) (run : run origin s cs = .ok tokens) :
    NamesHave P tokens := by
  fun_induction Scan.run origin s cs with
  | case1 s groups =>
      cases run
      intro token member
      exact h token (List.mem_reverse.1 member)
  | case2 => cases run
  | case3 => cases run
  | case4 s c cs lexeme n read_eq text s' read ih =>
      have new : lexeme.NameHas P := by
        have found := next unescaped
        rw [read_eq] at found
        exact found
      have kept := h.read new read
      exact ih kept (fun inside => unescaped (List.mem_cons_of_mem _ (List.mem_of_mem_drop inside)))
        run

end Scan

/-- In a source text without escapes no name has a space, a bracket or a quote in it. -/
theorem Token.bare_of_scan {source : String} {origin : Option String} {tokens : List Token}
    (unescaped : '\\' ∉ source.toList) (scanned : Token.scan source origin = .ok tokens) :
    Scan.NamesHave BareName tokens := by
  have nothing : Scan.NamesHave BareName Scan.State.start.tokens := nofun
  exact nothing.run Lexeme.bare_next unescaped scanned

end ViewStyle
