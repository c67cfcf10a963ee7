/-
The text of a token is scanned as the lexeme that the token comes from, in front of every text that
looks like the one behind that lexeme. Some tokens do not need even that. A text without backslashes
is meant throughout.
-/

import ViewStyle.Proofs.Token.Adjacency

set_option autoImplicit false

namespace ViewStyle

-- What holds of all members of a list is decided for each of them, not for all characters.
attribute [local instance (high)] List.decidableBAll

namespace Token

def Kind.separates : Kind → Bool
  | .string _ => true
  | .punct (.opening .round) => false
  | .punct (.opening _) => true
  | .punct (.closing _) => true
  | .punct .semicolon => true
  | .punct .colon => true
  | .punct .comma => true
  | .punct .ampersand => true
  | _ => false

def Kind.isFirm (kind : Kind) : Bool := kind.separates || kind.opens

end Token

namespace Scan

def bareKind (c : Char) : Token.Kind :=
  match opening? c, closing? c with
  | some bracket, _ => .punct (.opening bracket)
  | none, some bracket => .punct (.closing bracket)
  | none, none => markKind c

theorem char_of_opening? {c : Char} {bracket : Bracket} (h : opening? c = some bracket) :
    bracket.opening = c := by
  unfold opening? at h
  split at h <;> cases h <;> rfl

theorem char_of_closing? {c : Char} {bracket : Bracket} (h : closing? c = some bracket) :
    bracket.closing = c := by
  unfold closing? at h
  split at h <;> cases h <;> rfl

theorem text_punct (mark : Punct) : (Token.Kind.punct mark).text.toList = [mark.char] :=
  String.toList_singleton _

private theorem text_markKind (c : Char) : (markKind c).text.toList = [c] := by
  unfold markKind
  split
  case h_14 => exact text_punct _
  all_goals rfl

private theorem text_bareKind (c : Char) : (bareKind c).text.toList = [c] := by
  unfold bareKind
  split
  · rename_i opening
    rw [text_punct]
    exact congrArg (fun d => [d]) (char_of_opening? opening)
  · rename_i closing
    rw [text_punct]
    exact congrArg (fun d => [d]) (char_of_closing? closing)
  · exact text_markKind c

private theorem mem_of_firm {d : Char} (firm : (bareKind d).isFirm = true) :
    d ∈ ['(', '[', '\x7b', ')', ']', '\x7d', ';', ':', ',', '&'] := by
  unfold bareKind at firm
  split at firm
  · rename_i bracket opening
    rw [← char_of_opening? opening]
    cases bracket <;> decide
  · rename_i bracket _ closing
    rw [← char_of_closing? closing]
    cases bracket <;> decide
  · unfold markKind at firm
    split at firm <;> first | decide | cases firm

end Scan

namespace Lexeme

/-- The token that a lexeme with some text gives; an address gives more than one. -/
def kind? (text : List Char) : Lexeme → Option Token.Kind
  | .ident name => some (.ident name)
  | .atWord name => some (.atWord name)
  | .hash name => some (.hash name)
  | .string text true => some (.string text)
  | .number value unit => some (.number value unit (String.ofList text))
  | .function name => some (.function name)
  | .mark c => some (Scan.bareKind c)
  | _ => none

/-- A text can stand in another one's place behind a lexeme. -/
structure Follows (y x : List Char) : Prop where
  seen : ahead y = ahead x
  quoted : Quoted x → Quoted y

/-- A text can stand behind a token in another one's place. -/
structure Behind (kind : Token.Kind) (y x : List Char) : Prop where
  seen : kind.isFirm = false → ahead y = ahead x
  quoted : Quoted x → Quoted y

theorem Follows.behind {y x : List Char} (h : Follows y x) (kind : Token.Kind) :
    Behind kind y x where
  seen _ := h.seen
  quoted := h.quoted

def ReadAs (text y : List Char) (lexeme : Lexeme) (kind : Token.Kind) (x : List Char) : Prop :=
  ahead (text ++ y) = ahead x ∧
    ∃ d w, text = d :: w ∧ next d (w ++ y) = (lexeme, w.length) ∧ lexeme.kind? text = some kind

variable {c : Char} {cs y : List Char} {n : Nat} {kind : Token.Kind}

private theorem length_of_next_mark {d : Char} (unescaped : '\\' ∉ c :: cs)
    (read : next c cs = (.mark d, n)) : n = 0 := by
  obtain ⟨-, again, -⟩ := next_mark_congr (d := d) unescaped (by rw [read]) rfl
  rw [read] at again
  exact congrArg Prod.snd again

private theorem next_firm {d : Char} (firm : (Scan.bareKind d).isFirm = true) (x y : List Char) :
    next d y = (.mark d, 0) ∧ ahead (d :: y) = ahead (d :: x) := by
  have marks : ∀ d ∈ ['(', '[', '\x7b', ')', ']', '\x7d', ';', ':', ',', '&'],
      d ∉ ['"', '\'', '#', '@'] ++ binders ∧ inert d = true ∧
        (d = '(' ∨ separates d = true ∧ d ≠ '!') := by decide
  obtain ⟨plain, inert, shown⟩ := marks d (Scan.mem_of_firm firm)
  refine ⟨(next_eq_common plain y).trans (common_of_inert inert y), ?_⟩
  obtain rfl | ⟨separates, bang⟩ := shown
  · rfl
  · rw [ahead_separates separates bang, ahead_separates separates bang]

private theorem readAs_mark {d : Char} (unescaped : '\\' ∉ c :: cs)
    (read : next c cs = (.mark d, n)) (behind : Behind (Scan.bareKind d) y (cs.drop n)) :
    ReadAs (Scan.bareKind d).text.toList y (.mark d) (Scan.bareKind d) (c :: cs) := by
  obtain rfl := length_of_next_mark unescaped read
  obtain ⟨rfl, -, -⟩ := next_mark_congr (y := cs) unescaped (by rw [read]) rfl
  rw [Scan.text_bareKind]
  cases firm : (Scan.bareKind d).isFirm with
  | true =>
      obtain ⟨again, seen⟩ := next_firm firm cs y
      exact ⟨seen, d, [], rfl, again, rfl⟩
  | false =>
      obtain ⟨-, again, seen⟩ := next_mark_congr unescaped (by rw [read]) (behind.seen firm)
      exact ⟨seen, d, [], rfl, again, rfl⟩

theorem text_string (text : String) :
    (Token.Kind.string text).text.toList = '"' :: (Token.escapeQuotes text.toList ++ ['"']) := by
  simp [Token.Kind.text]

private theorem readAs_string {text : String} (unescaped : '\\' ∉ c :: cs)
    (quote : isQuote c = true) (read : next c cs = (.string text true, n)) :
    ReadAs (Token.Kind.string text).text.toList y (.string text true) (.string text) (c :: cs) := by
  have clean : ∀ d ∈ text.toList, Text.endsLine d = false ∧ plain d = d := by
    have taken : text = String.ofList (takeString c cs).1 := by
      have first := congrArg Prod.fst read
      obtain rfl | rfl : c = '"' ∨ c = '\'' := by simpa [isQuote] using quote
      all_goals exact ((Lexeme.string.inj first).1).symm
    rw [taken, String.toList_ofList]
    exact clean_takeString fun h => unescaped (.tail _ h)
  rw [text_string]
  refine ⟨?_, '"', _, rfl, ?_, rfl⟩
  · rw [ahead_quote quote]
    exact ahead_quote rfl _
  · rw [List.append_assoc]
    show next '"' (Token.escapeQuotes text.toList ++ '"' :: y) = _
    simp only [next, takeString_escapeQuotes clean y, String.ofList_toList, List.length_append,
      List.length_singleton]

private theorem readAs_hash (unescaped : '\\' ∉ cs) (hash : atHash cs = true)
    (same : ahead y = ahead (cs.drop (takeName cs).2)) :
    ReadAs (Token.Kind.hash (String.ofList (takeName cs).1)).text.toList y
      (.hash (String.ofList (takeName cs).1)) (.hash (String.ofList (takeName cs).1))
      ('#' :: cs) := by
  have written : (Token.Kind.hash (String.ofList (takeName cs).1)).text.toList =
      '#' :: (takeName cs).1 := by
    simp [Token.Kind.text]
  have shown := not_mem_ahead unescaped
  rw [written]
  exact ⟨ahead_cons_congr (by decide) (ahead_name shown same), '#', _, rfl,
    next_hash_name shown hash same, rfl⟩

private theorem readAs_at (unescaped : '\\' ∉ cs) (name : atName cs = true)
    (same : ahead y = ahead (cs.drop (takeName cs).2)) :
    ReadAs (Token.Kind.atWord (String.ofList (takeName cs).1)).text.toList y
      (.atWord (String.ofList (takeName cs).1)) (.atWord (String.ofList (takeName cs).1))
      ('@' :: cs) := by
  have written : (Token.Kind.atWord (String.ofList (takeName cs).1)).text.toList =
      '@' :: (takeName cs).1 := by
    simp [Token.Kind.text]
  have shown := not_mem_ahead unescaped
  rw [written]
  exact ⟨ahead_cons_congr (by decide) (ahead_name shown same), '@', _, rfl,
    next_at_name shown name same, rfl⟩

private theorem readAs_number {value : Float} {unit : Option String} (unescaped : '\\' ∉ c :: cs)
    (number : atNumber (c :: cs) = true) (read : next c cs = (.number value unit, n))
    (same : ahead y = ahead (cs.drop n)) :
    ReadAs (c :: cs.take n) y (.number value unit)
      (.number value unit (String.ofList (c :: cs.take n))) (c :: cs) := by
  rw [next_of_atNumber number] at read
  have length : (takeNumber (c :: cs)).2 = n + 1 := by
    have pos := numberLength_pos number
    have first : (takeNumber (c :: cs)).2 - 1 = n := congrArg Prod.snd read
    rw [snd_takeNumber] at first ⊢
    omega
  obtain ⟨passed, again⟩ :=
    takeNumber_congr (y := y) (not_mem_ahead unescaped) (by rw [length]; exact same)
  rw [length] at passed again
  have seen : ahead (c :: (cs.take n ++ y)) = ahead (c :: cs) := passed.ahead_append same
  have number' : atNumber (c :: (cs.take n ++ y)) = true := by
    rw [← atNumber_ahead, seen, atNumber_ahead, number]
  have again' : takeNumber (c :: (cs.take n ++ y)) = takeNumber (c :: cs) := again
  refine ⟨seen, c, cs.take n, rfl, ?_, rfl⟩
  rw [next_of_atNumber number', again', read,
    List.length_take_of_le (Nat.le_of_succ_le_succ passed.le)]

private theorem next_word {lexeme : Lexeme} (unescaped : '\\' ∉ c :: cs)
    (number : atNumber (c :: cs) = false) (name : atName (c :: cs) = true)
    (arrow : ¬['-', '-', '>'] <+: c :: cs) {d : Char} {w : List Char}
    (seen : ahead (d :: w) = ahead (c :: cs)) (again : takeWord (d :: w) = (lexeme, n + 1)) :
    next d w = (lexeme, n) := by
  have number' : atNumber (d :: w) = false := by
    rw [← atNumber_ahead, seen, atNumber_ahead, number]
  have name' : atName (d :: w) = true := by
    rw [atName_congr seen (seen ▸ not_mem_ahead unescaped), name]
  rw [next_of_atName name' number' (mt (prefix_congr seen (by decide)) arrow), again]
  rfl

private theorem readAs_ident {name : String} (unescaped : '\\' ∉ c :: cs)
    (number : atNumber (c :: cs) = false) (start : atName (c :: cs) = true)
    (arrow : ¬['-', '-', '>'] <+: c :: cs) (word : takeWord (c :: cs) = (.ident name, n + 1))
    (same : ahead y = ahead (cs.drop n)) :
    ReadAs (Token.Kind.ident name).text.toList y (.ident name) (.ident name) (c :: cs) := by
  obtain ⟨length, seen, again⟩ := takeWord_ident (y := y) (not_mem_ahead unescaped) word same
  obtain ⟨d, w, written⟩ := List.exists_cons_of_length_eq_add_one length
  have text : (Token.Kind.ident name).text.toList = d :: w := written
  rw [written] at length seen again
  rw [text]
  refine ⟨seen, d, w, rfl, ?_, rfl⟩
  rw [Nat.succ.inj length]
  exact next_word unescaped number start arrow seen again

private theorem readAs_function {name : String} (unescaped : '\\' ∉ c :: cs)
    (number : atNumber (c :: cs) = false) (start : atName (c :: cs) = true)
    (arrow : ¬['-', '-', '>'] <+: c :: cs) (word : takeWord (c :: cs) = (.function name, n + 1))
    (quoted : Quoted (cs.drop n) → Quoted y) :
    ReadAs (Token.Kind.function name).text.toList y (.function name) (.function name)
      (c :: cs) := by
  obtain ⟨length, seen, again⟩ :=
    takeWord_function (y := y) (not_mem_ahead unescaped) word quoted
  obtain ⟨d, w, written⟩ : ∃ d w, name.toList ++ ['('] = d :: w :=
    List.exists_cons_of_ne_nil (by simp)
  have text : (Token.Kind.function name).text.toList = d :: w := by
    rw [← written]
    exact String.toList_append
  have behind : name.toList ++ '(' :: y = d :: (w ++ y) := by
    rw [← List.cons_append, ← written, List.append_assoc]
    rfl
  have size : w.length = n := by
    have total := congrArg List.length written
    rw [List.length_append, List.length_singleton, length] at total
    exact (Nat.succ.inj total).symm
  rw [behind] at seen again
  rw [text]
  refine ⟨seen, d, w, rfl, ?_, rfl⟩
  rw [size]
  exact next_word unescaped number start arrow seen again

private theorem readAs_common (unescaped : '\\' ∉ c :: cs) {lexeme : Lexeme}
    (plain : c ∉ ['"', '\'', '#', '@'] ++ binders) (read : next c cs = (lexeme, n))
    (token : lexeme.kind? (c :: cs.take n) = some kind) (behind : Behind kind y (cs.drop n))
    (mark : ¬∃ d, lexeme = .mark d) :
    ReadAs kind.text.toList y lexeme kind (c :: cs) := by
  have taken := read
  rw [next_eq_common plain, common] at taken
  split at taken
  · cases taken
    cases token
  · split at taken
    · rename_i number
      obtain ⟨value, unit, first⟩ := fst_takeNumber (c :: cs)
      obtain rfl : lexeme = .number value unit := (congrArg Prod.fst taken).symm.trans first
      cases token
      have text : (Token.Kind.number value unit (String.ofList (c :: cs.take n))).text.toList =
          c :: cs.take n := String.toList_ofList
      rw [text]
      exact readAs_number unescaped number read (behind.seen rfl)
    · rename_i number
      split at taken
      · cases taken
        cases token
      · rename_i arrow
        split at taken
        · rename_i start
          have fst_eq : (takeWord (c :: cs)).1 = lexeme := congrArg Prod.fst taken
          have snd_eq : (takeWord (c :: cs)).2 - 1 = n := congrArg Prod.snd taken
          have pos := takeWord_pos start
          have word : takeWord (c :: cs) = (lexeme, n + 1) :=
            Prod.ext fst_eq (by dsimp only; omega)
          rw [arrow_iff] at arrow
          rw [Bool.not_eq_true] at number
          obtain ⟨name, eq⟩ | ⟨name, eq⟩ | ⟨target, eq⟩ | eq := fst_takeWord (c :: cs)
          all_goals
            rw [fst_eq] at eq
            subst eq
            cases token
          · exact readAs_ident unescaped number start arrow word (behind.seen rfl)
          · exact readAs_function unescaped number start arrow word behind.quoted
        · exact absurd ⟨_, congrArg Prod.fst taken.symm⟩ mark

/-- In front of a text that can stand in the place of the one behind it, the text of a token is
scanned as the lexeme that the token comes from. -/
theorem readAs_token (unescaped : '\\' ∉ c :: cs) {lexeme : Lexeme}
    (read : next c cs = (lexeme, n)) (token : lexeme.kind? (c :: cs.take n) = some kind)
    (behind : Behind kind y (cs.drop n)) :
    ReadAs kind.text.toList y lexeme kind (c :: cs) := by
  by_cases mark : ∃ d, lexeme = .mark d
  · obtain ⟨d, rfl⟩ := mark
    cases token
    exact readAs_mark unescaped read behind
  · obtain binder | quote | rfl | rfl | plain := first_cases c
    · by_cases here : bound c <+: cs
      · have refused := next_of_bound binder here
        rw [read] at refused
        obtain rfl | ⟨-, closed, rfl⟩ := refused <;> cases token
      · rw [next_of_not_bound binder here] at read
        exact absurd ⟨c, congrArg Prod.fst read.symm⟩ mark
    · obtain ⟨text, closed, rfl⟩ : ∃ text closed, lexeme = .string text closed := by
        have first := congrArg Prod.fst read
        obtain rfl | rfl : c = '"' ∨ c = '\'' := by simpa [isQuote] using quote
        all_goals exact ⟨_, _, first.symm⟩
      cases closed with
      | false => cases token
      | true =>
          cases token
          exact readAs_string unescaped quote read
    · have unescaped' : '\\' ∉ cs := fun h => unescaped (.tail _ h)
      cases hash : atHash cs with
      | true =>
          simp only [next, hash, if_true] at read
          cases read
          cases token
          exact readAs_hash unescaped' hash (behind.seen rfl)
      | false =>
          simp only [next, hash, Bool.false_eq_true, if_false] at read
          exact absurd ⟨_, congrArg Prod.fst read.symm⟩ mark
    · have unescaped' : '\\' ∉ cs := fun h => unescaped (.tail _ h)
      cases name : atName cs with
      | true =>
          simp only [next, name, if_true] at read
          cases read
          cases token
          exact readAs_at unescaped' name (behind.seen rfl)
      | false =>
          simp only [next, name, Bool.false_eq_true, if_false] at read
          exact absurd ⟨_, congrArg Prod.fst read.symm⟩ mark
    · exact readAs_common unescaped plain read token behind mark

end Lexeme

end ViewStyle
