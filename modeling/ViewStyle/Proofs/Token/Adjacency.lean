/-
Which lexeme a text starts with depends on its first character and on what is seen behind it. So
the written form of a token, in front of a text that looks like the one behind the token, is
scanned as that token again.
-/

import ViewStyle.Proofs.Token.Lookahead

set_option autoImplicit false

namespace ViewStyle

-- What holds of all members of a list is decided for each of them, not for all characters.
attribute [local instance (high)] List.decidableBAll

namespace Lexeme

def Shown (word : List Char) : Prop :=
  (∀ d ∈ word, passes d = true ∧ d ≠ '\x00' ∧ d ≠ replacement) ∨ word = ['('] ∨
    word = ['!', '-', '-']

instance (word : List Char) : Decidable (Shown word) := inferInstanceAs (Decidable (_ ∨ _))

theorem prefix_congr {word x y : List Char} (h : ahead x = ahead y) (shown : Shown word)
    (start : word <+: x) : word <+: y := by
  obtain shown | rfl | rfl := shown
  · induction word generalizing x y with
    | nil => exact List.nil_prefix
    | cons d word ih =>
        obtain ⟨⟨passes_d, nul, odd⟩, shown⟩ := List.forall_mem_cons.1 shown
        obtain ⟨rest, rfl⟩ := start
        rw [List.cons_append, ahead_passes passes_d, (plain_eq_iff nul odd).2 rfl] at h
        obtain ⟨rest', rfl, same⟩ := eq_cons_of_ahead h.symm odd
        exact List.cons_prefix_cons.2
          ⟨rfl, ih (same passes_d).symm (List.prefix_append _ _) shown⟩
  · obtain ⟨rest, rfl⟩ := start
    obtain ⟨rest', rfl, -⟩ := eq_cons_of_ahead (h.symm.trans (ahead_round rest)) (by decide)
    exact List.prefix_append ['('] rest'
  · rw [← opening_iff_ahead] at start ⊢
    exact h.symm.trans start

def common (c : Char) (cs : List Char) : Lexeme × Nat :=
  if isSpace c then (.blank, blankLength cs)
  else if atNumber (c :: cs) then ((takeNumber (c :: cs)).1, (takeNumber (c :: cs)).2 - 1)
  else if c == '-' && cs.take 2 == ['-', '>'] then (.refused, 2)
  else if atName (c :: cs) then ((takeWord (c :: cs)).1, (takeWord (c :: cs)).2 - 1)
  else (.mark c, 0)

def binders : List Char := ['/', '<', '$', '*', '^', '|', '~']

/-- What makes a comment, or characters that are refused together, of a text with such a character
in front. -/
def bound : Char → List Char
  | '/' => ['*']
  | '<' => ['!', '-', '-']
  | _ => ['=']

theorem next_eq_common {c : Char} (h : c ∉ ['"', '\'', '#', '@'] ++ binders) (cs : List Char) :
    next c cs = common c cs := by
  unfold next
  split
  case h_12 => rfl
  all_goals exact absurd (by decide) h

def inert (c : Char) : Bool :=
  !isSpace c && !continuesName c && c != '+' && c != '.' && c != '\\'

private theorem atNumber_of_inert {c : Char} (h : inert c = true) (cs : List Char) :
    atNumber (c :: cs) = false := by
  simp only [inert, continuesName, Bool.and_eq_true, Bool.not_eq_true', Bool.or_eq_false_iff,
    bne_iff_ne, beq_eq_false_iff_ne] at h
  obtain ⟨⟨⟨⟨-, ⟨-, digit⟩, hyphen⟩, plus⟩, point⟩, -⟩ := h
  rw [atNumber, signLength_cons, if_neg (not_or.2 ⟨plus, hyphen⟩), List.drop_zero,
    atDigit_cons point, digit]

private theorem atName_of_inert {c : Char} (h : inert c = true) (cs : List Char) :
    atName (c :: cs) = false := by
  simp only [inert, continuesName, Bool.and_eq_true, Bool.not_eq_true', Bool.or_eq_false_iff,
    bne_iff_ne, beq_eq_false_iff_ne] at h
  obtain ⟨⟨⟨⟨-, ⟨start, -⟩, hyphen⟩, -⟩, -⟩, backslash⟩ := h
  rw [atName_cons hyphen backslash, start]

theorem common_of_inert {c : Char} (h : inert c = true) (cs : List Char) :
    common c cs = (.mark c, 0) := by
  have name := atName_of_inert h cs
  have number := atNumber_of_inert h cs
  simp only [inert, continuesName, Bool.and_eq_true, Bool.not_eq_true', Bool.or_eq_false_iff,
    beq_eq_false_iff_ne] at h
  obtain ⟨⟨⟨⟨space, -, hyphen⟩, -⟩, -⟩, -⟩ := h
  simp [common, space, number, name, hyphen]

private theorem inert_of_mem : ∀ c ∈ ['"', '\'', '#', '@'] ++ binders, inert c = true := by
  decide

theorem isSpace_of_passes {c : Char} (h : passes c = true) : isSpace c = false := by
  simp only [passes, Bool.and_eq_true, Bool.not_eq_true'] at h
  exact h.1.1.1.1

theorem next_space {c : Char} (h : isSpace c = true) (cs : List Char) :
    next c cs = (.blank, blankLength cs) := by
  have plain : c ∉ ['"', '\'', '#', '@'] ++ binders := fun member => by
    have none := inert_of_mem c member
    simp [inert, h] at none
  rw [next_eq_common plain, common, if_pos h]

theorem passes_of_atName {c : Char} {cs : List Char} (h : atName (c :: cs) = true) :
    passes c = true := by
  by_contra stops
  have none : atName (c :: cs) = false := atName_of_stops (by simpa [Stops] using stops)
  exact Bool.false_ne_true (none.symm.trans h)

theorem passes_of_atNumber {c : Char} {cs : List Char} (h : atNumber (c :: cs) = true) :
    passes c = true := by
  rw [atNumber, signLength_cons] at h
  split at h
  · rename_i sign
    rcases sign with rfl | rfl <;> decide
  · by_cases point : c = '.'
    · subst point
      decide
    · rw [List.drop_zero, atDigit_cons point] at h
      exact class_isDigit.passes c h

theorem arrow_iff (c : Char) (cs : List Char) :
    (c == '-' && cs.take 2 == ['-', '>']) = true ↔ ['-', '-', '>'] <+: c :: cs := by
  rw [Bool.and_eq_true, beq_iff_eq, beq_iff_eq, List.cons_prefix_cons, List.prefix_iff_eq_take]
  exact and_congr eq_comm eq_comm

theorem next_of_atNumber {c : Char} {cs : List Char} (h : atNumber (c :: cs) = true) :
    next c cs = ((takeNumber (c :: cs)).1, (takeNumber (c :: cs)).2 - 1) := by
  have plain : c ∉ ['"', '\'', '#', '@'] ++ binders := fun member => by
    simp [atNumber_of_inert (inert_of_mem c member)] at h
  rw [next_eq_common plain, common, isSpace_of_passes (passes_of_atNumber h), h]
  rfl

theorem next_of_atName {c : Char} {cs : List Char} (name : atName (c :: cs) = true)
    (number : atNumber (c :: cs) = false) (arrow : ¬['-', '-', '>'] <+: c :: cs) :
    next c cs = ((takeWord (c :: cs)).1, (takeWord (c :: cs)).2 - 1) := by
  have plain : c ∉ ['"', '\'', '#', '@'] ++ binders := fun member => by
    simp [atName_of_inert (inert_of_mem c member)] at name
  rw [← arrow_iff, Bool.not_eq_true] at arrow
  simp [next_eq_common plain, common, isSpace_of_passes (passes_of_atName name), number, arrow,
    name]

theorem next_of_not_bound {c : Char} (h : c ∈ binders) {cs : List Char} (alone : ¬bound c <+: cs) :
    next c cs = (.mark c, 0) := by
  have inert : ∀ c ∈ binders, inert c = true := by decide
  rw [← common_of_inert (inert c h) cs]
  unfold next
  split
  case h_12 => rfl
  all_goals first
    | exact absurd h (by decide)
    | exact absurd (by simp [bound]) alone

theorem next_of_bound {c : Char} (h : c ∈ binders) {cs : List Char} (bound : bound c <+: cs) :
    (next c cs).1 = .refused ∨ c = '/' ∧ ∃ closed, (next c cs).1 = .comment closed := by
  obtain ⟨rest, rfl⟩ := bound
  simp only [binders, List.mem_cons, List.not_mem_nil, or_false] at h
  rcases h with rfl | rfl | rfl | rfl | rfl | rfl | rfl
  · exact .inr ⟨rfl, _, rfl⟩
  all_goals exact .inl rfl

theorem fst_takeNumber (cs : List Char) :
    ∃ value unit, (takeNumber cs).1 = .number value unit := by
  unfold takeNumber
  dsimp only
  split
  · exact ⟨_, _, rfl⟩
  · split
    · exact ⟨_, _, rfl⟩
    · exact ⟨_, _, rfl⟩

theorem fst_takeWord (cs : List Char) :
    (∃ name, (takeWord cs).1 = .ident name) ∨ (∃ name, (takeWord cs).1 = .function name) ∨
      (∃ target, (takeWord cs).1 = .address target) ∨ (takeWord cs).1 = .refused := by
  unfold takeWord
  dsimp only
  split
  · split
    · unfold afterAddressHead
      dsimp only
      split
      · exact .inr (.inl ⟨_, rfl⟩)
      · exact .inr (.inl ⟨_, rfl⟩)
      · split
        · exact .inr (.inr (.inl ⟨_, rfl⟩))
        · exact .inr (.inr (.inr rfl))
    · exact .inr (.inl ⟨_, rfl⟩)
  · exact .inl ⟨_, rfl⟩

theorem ahead_cons_congr {c : Char} {x y : List Char} (alone : c ≠ '/')
    (same : ahead y = ahead x) : ahead (c :: y) = ahead (c :: x) := by
  by_cases bang : c = '!'
  · subst bang
    by_cases opening : ['-', '-'] <+: x
    · obtain ⟨_, rfl⟩ := prefix_congr same.symm (by decide) opening
      obtain ⟨_, rfl⟩ := opening
      rfl
    · rw [ahead_bang opening, ahead_bang (mt (prefix_congr same (by decide)) opening)]
  · rw [ahead_eq (fun slash => absurd slash alone) fun same => absurd same bang,
      ahead_eq (fun slash => absurd slash alone) fun same => absurd same bang, same]

private theorem ahead_cons_of_not_bound {c : Char} (h : c ∈ binders) {cs : List Char}
    (alone : ¬bound c <+: cs) : ahead (c :: cs) = plain c :: ahead cs := by
  have clear : ∀ c ∈ binders,
      isSpace c = false ∧ isQuote c = false ∧ separates c = false ∧ c ≠ '(' := by decide
  obtain ⟨space, quote, separates, round⟩ := clear c h
  refine ahead_cons space quote separates round ?_
  rintro rfl
  exact alone

private theorem not_bound_of_mark {c d : Char} {cs : List Char} (h : c ∈ binders)
    (mark : (next c cs).1 = .mark d) : ¬bound c <+: cs := fun here => by
  obtain refused | ⟨-, closed, comment⟩ := next_of_bound h here
  · rw [refused] at mark
    cases mark
  · rw [comment] at mark
    cases mark

private theorem common_mark {c d : Char} {cs : List Char} (mark : (common c cs).1 = .mark d) :
    d = c ∧ isSpace c = false ∧ atNumber (c :: cs) = false ∧ (¬['-', '-', '>'] <+: c :: cs) ∧
      atName (c :: cs) = false := by
  unfold common at mark
  split at mark
  · cases mark
  · rename_i space
    split at mark
    · obtain ⟨value, unit, number⟩ := fst_takeNumber (c :: cs)
      rw [number] at mark
      cases mark
    · rename_i number
      split at mark
      · cases mark
      · rename_i arrow
        split at mark
        · obtain ⟨_, word⟩ | ⟨_, word⟩ | ⟨_, word⟩ | word := fst_takeWord (c :: cs)
          all_goals
            rw [word] at mark
            cases mark
        · rename_i name
          cases mark
          rw [arrow_iff] at arrow
          exact ⟨rfl, Bool.eq_false_iff.2 space, Bool.eq_false_iff.2 number, arrow,
            Bool.eq_false_iff.2 name⟩

theorem common_eq_mark {c : Char} {cs : List Char} (space : isSpace c = false)
    (number : atNumber (c :: cs) = false) (arrow : ¬['-', '-', '>'] <+: c :: cs)
    (name : atName (c :: cs) = false) : common c cs = (.mark c, 0) := by
  rw [← arrow_iff, Bool.not_eq_true] at arrow
  simp [common, space, number, arrow, name]

theorem first_cases (c : Char) :
    c ∈ binders ∨ isQuote c = true ∨ c = '#' ∨ c = '@' ∨ c ∉ ['"', '\'', '#', '@'] ++ binders := by
  by_cases h : c ∈ ['"', '\'', '#', '@'] ++ binders
  · rw [List.mem_append] at h
    rcases h with h | h
    · simp only [List.mem_cons, List.not_mem_nil, or_false] at h
      rcases h with rfl | rfl | rfl | rfl <;> simp [isQuote]
    · exact .inl h
  · exact .inr (.inr (.inr (.inr h)))

/-- A mark is one in front of all texts that look alike. -/
theorem next_mark_congr {c d : Char} {x y : List Char} (unescaped : '\\' ∉ c :: x)
    (mark : (next c x).1 = .mark d) (same : ahead y = ahead x) :
    d = c ∧ next c y = (.mark c, 0) ∧ ahead (c :: y) = ahead (c :: x) := by
  have unescaped_x : '\\' ∉ ahead x := not_mem_ahead fun h => unescaped (.tail _ h)
  obtain binder | quote | rfl | rfl | plain := first_cases c
  · have shown : ∀ c ∈ binders, Shown (bound c) := by decide
    have alone := not_bound_of_mark binder mark
    have alone' : ¬bound c <+: y := mt (prefix_congr same (shown c binder)) alone
    rw [next_of_not_bound binder alone] at mark
    cases mark
    refine ⟨rfl, next_of_not_bound binder alone', ?_⟩
    rw [ahead_cons_of_not_bound binder alone, ahead_cons_of_not_bound binder alone', same]
  · obtain rfl | rfl : c = '"' ∨ c = '\'' := by simpa [isQuote] using quote
    all_goals cases mark
  · cases here : atHash x with
    | true =>
        simp only [next, here, if_true] at mark
        cases mark
    | false =>
        have here' := (atHash_congr same.symm unescaped_x).symm.trans here
        simp only [next, here, Bool.false_eq_true, if_false] at mark
        cases mark
        exact ⟨rfl, by simp [next, here'], ahead_cons_congr (by decide) same⟩
  · cases here : atName x with
    | true =>
        simp only [next, here, if_true] at mark
        cases mark
    | false =>
        have here' := (atName_congr same.symm unescaped_x).symm.trans here
        simp only [next, here, Bool.false_eq_true, if_false] at mark
        cases mark
        exact ⟨rfl, by simp [next, here'], ahead_cons_congr (by decide) same⟩
  · rw [next_eq_common plain] at mark ⊢
    obtain ⟨rfl, space, number, arrow, name⟩ := common_mark mark
    have alone : d ≠ '/' := by
      rintro rfl
      exact plain (by decide)
    have again : ahead (d :: y) = ahead (d :: x) := ahead_cons_congr alone same
    refine ⟨rfl, common_eq_mark space ?_ ?_ ?_, again⟩
    · rw [← atNumber_ahead, again, atNumber_ahead, number]
    · exact mt (prefix_congr again (by decide)) arrow
    · rw [atName_congr again (again ▸ not_mem_ahead unescaped), name]

/-! ### Tokens -/

private theorem plain_plain (c : Char) : plain (plain c) = plain c := by
  by_cases here : c = '\x00'
  · subst here
    decide
  · have stays : plain c = c := if_neg here
    rw [stays, stays]

variable {cs y : List Char}

private theorem length_takeName (unescaped : '\\' ∉ ahead cs) :
    (takeName cs).1.length = (takeName cs).2 := by
  rw [takeName_eq unescaped, List.length_map]

theorem ahead_name (unescaped : '\\' ∉ ahead cs)
    (same : ahead y = ahead (cs.drop (takeName cs).2)) :
    ahead ((takeName cs).1 ++ y) = ahead cs := by
  rw [takeName_eq unescaped] at same ⊢
  have passed : ∀ c ∈ cs.takeWhile continuesName, passes c = true := fun c member =>
    class_continuesName.passes c (List.mem_takeWhile_imp member)
  have passed' : ∀ c ∈ (cs.takeWhile continuesName).map plain, passes c = true := by
    simp only [List.forall_mem_map]
    intro c member
    exact class_continuesName.passes _
      ((class_continuesName.plain c).trans (List.mem_takeWhile_imp member))
  have twice : ((cs.takeWhile continuesName).map plain).map plain =
      (cs.takeWhile continuesName).map plain := by
    rw [List.map_map]
    exact List.map_congr_left fun c _ => plain_plain c
  rw [ahead_append passed', twice, same, ← ahead_append passed,
    List.prefix_iff_eq_append.1 (List.takeWhile_prefix _)]

private theorem takeName_name (unescaped : '\\' ∉ ahead cs)
    (same : ahead y = ahead (cs.drop (takeName cs).2)) :
    takeName ((takeName cs).1 ++ y) = takeName cs := by
  have again := ahead_name unescaped same
  exact takeName_congr again (again ▸ unescaped)

theorem next_hash_name (unescaped : '\\' ∉ ahead cs) (hash : atHash cs = true)
    (same : ahead y = ahead (cs.drop (takeName cs).2)) :
    next '#' ((takeName cs).1 ++ y) =
      (.hash (String.ofList (takeName cs).1), (takeName cs).1.length) := by
  have again := ahead_name unescaped same
  have hash' : atHash ((takeName cs).1 ++ y) = true :=
    (atHash_congr again (again ▸ unescaped)).trans hash
  simp only [next, hash', if_true, takeName_name unescaped same, length_takeName unescaped]

theorem next_at_name (unescaped : '\\' ∉ ahead cs) (name : atName cs = true)
    (same : ahead y = ahead (cs.drop (takeName cs).2)) :
    next '@' ((takeName cs).1 ++ y) =
      (.atWord (String.ofList (takeName cs).1), (takeName cs).1.length) := by
  have again := ahead_name unescaped same
  have name' : atName ((takeName cs).1 ++ y) = true :=
    (atName_congr again (again ▸ unescaped)).trans name
  simp only [next, name', if_true, takeName_name unescaped same, length_takeName unescaped]

/-- Behind white space there is a string. -/
def Quoted (cs : List Char) : Prop :=
  ∃ c rest, cs.drop (blankLength cs) = c :: rest ∧ isQuote c = true

theorem afterAddressHead_of_quoted (name : List Char) (h : Quoted cs) :
    afterAddressHead name cs = (.function (String.ofList name), 0) := by
  obtain ⟨c, rest, start, quote⟩ := h
  obtain rfl | rfl : c = '"' ∨ c = '\'' := by simpa [isQuote] using quote
  · unfold afterAddressHead
    dsimp only
    rw [start]
    rfl
  · unfold afterAddressHead
    dsimp only
    rw [start]
    rfl

private theorem afterAddressHead_cases (name cs : List Char) :
    Quoted cs ∨ (∃ target, (afterAddressHead name cs).1 = .address target) ∨
      (afterAddressHead name cs).1 = .refused := by
  unfold afterAddressHead
  dsimp only
  split
  · rename_i start
    exact .inl ⟨_, _, start, rfl⟩
  · rename_i start
    exact .inl ⟨_, _, start, rfl⟩
  · split
    · exact .inr (.inl ⟨_, rfl⟩)
    · exact .inr (.inr rfl)

theorem takeWord_of_round {rest : List Char} (h : cs.drop (takeName cs).2 = '(' :: rest) :
    takeWord cs =
      if (String.ofList (takeName cs).1).toLower = "url" then
        ((afterAddressHead (takeName cs).1 rest).1,
          (takeName cs).2 + 1 + (afterAddressHead (takeName cs).1 rest).2)
      else (.function (String.ofList (takeName cs).1), (takeName cs).2 + 1) := by
  unfold takeWord
  dsimp only
  rw [h]
  rfl

theorem takeWord_of_not_round (h : ¬['('] <+: cs.drop (takeName cs).2) :
    takeWord cs = (.ident (String.ofList (takeName cs).1), (takeName cs).2) := by
  unfold takeWord
  dsimp only
  split
  · rename_i start
    exact absurd (start ▸ List.prefix_append ['('] _) h
  · rfl

private theorem takeWord_round_cases {rest : List Char}
    (h : cs.drop (takeName cs).2 = '(' :: rest) :
    ((String.ofList (takeName cs).1).toLower = "url" → Quoted rest) ∧
        takeWord cs = (.function (String.ofList (takeName cs).1), (takeName cs).2 + 1) ∨
      (∃ target, (takeWord cs).1 = .address target) ∨ (takeWord cs).1 = .refused := by
  rw [takeWord_of_round h]
  split
  · rename_i url
    obtain quoted | address | refused := afterAddressHead_cases (takeName cs).1 rest
    · rw [afterAddressHead_of_quoted _ quoted]
      exact .inl ⟨fun _ => quoted, rfl⟩
    · exact .inr (.inl address)
    · exact .inr (.inr refused)
  · rename_i url
    exact .inl ⟨fun same => absurd same url, rfl⟩

theorem takeWord_ident (unescaped : '\\' ∉ ahead cs) {name : String} {n : Nat}
    (word : takeWord cs = (.ident name, n)) (same : ahead y = ahead (cs.drop n)) :
    name.toList.length = n ∧ ahead (name.toList ++ y) = ahead cs ∧
      takeWord (name.toList ++ y) = (.ident name, n) := by
  by_cases round : ['('] <+: cs.drop (takeName cs).2
  · obtain ⟨rest, start⟩ := round
    obtain ⟨-, function⟩ | ⟨target, address⟩ | refused := takeWord_round_cases start.symm
    · simp [word] at function
    · simp [word] at address
    · simp [word] at refused
  · rw [takeWord_of_not_round round] at word
    cases word
    have read := takeName_name unescaped same
    rw [String.toList_ofList]
    refine ⟨length_takeName unescaped, ahead_name unescaped same, ?_⟩
    rw [takeWord_of_not_round, read]
    rw [read, ← length_takeName unescaped, List.drop_left]
    exact mt (prefix_congr same (by decide)) round

theorem takeWord_function (unescaped : '\\' ∉ ahead cs) {name : String} {n : Nat}
    (word : takeWord cs = (.function name, n)) (quoted : Quoted (cs.drop n) → Quoted y) :
    name.toList.length + 1 = n ∧ ahead (name.toList ++ '(' :: y) = ahead cs ∧
      takeWord (name.toList ++ '(' :: y) = (.function name, n) := by
  by_cases round : ['('] <+: cs.drop (takeName cs).2
  · obtain ⟨rest, start⟩ := round
    obtain ⟨url, function⟩ | ⟨target, address⟩ | refused := takeWord_round_cases start.symm
    · rw [word] at function
      cases function
      have behind : rest = cs.drop ((takeName cs).2 + 1) := by
        rw [← List.drop_drop, ← start]
        rfl
      rw [← behind] at quoted
      have same' : ahead ('(' :: y) = ahead (cs.drop (takeName cs).2) := by
        rw [← start]
        rfl
      have read := takeName_name unescaped same'
      rw [String.toList_ofList]
      refine ⟨congrArg (· + 1) (length_takeName unescaped), ahead_name unescaped same', ?_⟩
      have drop : ((takeName cs).1 ++ '(' :: y).drop (takeName ((takeName cs).1 ++ '(' :: y)).2 =
          '(' :: y := by
        rw [read, ← length_takeName unescaped, List.drop_left]
      rw [takeWord_of_round drop, read]
      split
      · rename_i is_url
        rw [afterAddressHead_of_quoted _ (quoted (url is_url))]
        rfl
      · rfl
    · simp [word] at address
    · simp [word] at refused
  · rw [takeWord_of_not_round round] at word
    cases word

def unitLength (cs : List Char) : Nat :=
  if ['%'] <+: cs then 1 else if atName cs then (takeName cs).2 else 0

private theorem passed_unitLength (unescaped : '\\' ∉ ahead cs) : Passed (unitLength cs) cs := by
  unfold unitLength
  split
  · rename_i percent
    obtain ⟨rest, rfl⟩ := percent
    exact .cons (by decide) (.zero _)
  · split
    · rw [takeName_eq unescaped]
      exact class_continuesName.passed_takeWhile cs
    · exact .zero _

theorem takeNumber_of_percent (h : ['%'] <+: cs.drop (numberLength cs)) :
    takeNumber cs =
      (.number (((Decimal.Numeral.read? (cs.take (numberLength cs))).map
        Decimal.Numeral.toFloat).getD 0) (some "%"), numberLength cs + 1) := by
  obtain ⟨rest, start⟩ := h
  unfold takeNumber
  dsimp only
  rw [← start]
  rfl

theorem takeNumber_of_not_percent (h : ¬['%'] <+: cs.drop (numberLength cs)) :
    takeNumber cs =
      let rest := cs.drop (numberLength cs)
      let exact :=
        ((Decimal.Numeral.read? (cs.take (numberLength cs))).map Decimal.Numeral.toFloat).getD 0
      if atName rest then
        (.number
          (if rest.take (takeName rest).2 == (takeName rest).1 then exact
            else coarseValue (cs.take (numberLength cs)))
          (some (String.ofList (takeName rest).1)), numberLength cs + (takeName rest).2)
      else (.number exact none, numberLength cs) := by
  unfold takeNumber
  dsimp only
  split
  · rename_i start
    exact absurd (start ▸ List.prefix_append ['%'] _) h
  · rfl

theorem snd_takeNumber (cs : List Char) :
    (takeNumber cs).2 = numberLength cs + unitLength (cs.drop (numberLength cs)) := by
  unfold unitLength
  by_cases percent : ['%'] <+: cs.drop (numberLength cs)
  · rw [takeNumber_of_percent percent, if_pos percent]
  · rw [takeNumber_of_not_percent percent, if_neg percent]
    dsimp only
    split <;> rfl

theorem Passed.ahead_append {n : Nat} (h : Passed n cs) (same : ahead y = ahead (cs.drop n)) :
    ahead (cs.take n ++ y) = ahead cs := by
  rw [Lexeme.ahead_append h.passes, same, ← Lexeme.ahead_append h.passes, List.take_append_drop]

theorem takeNumber_congr (unescaped : '\\' ∉ ahead cs)
    (same : ahead y = ahead (cs.drop (takeNumber cs).2)) :
    Passed (takeNumber cs).2 cs ∧ takeNumber (cs.take (takeNumber cs).2 ++ y) = takeNumber cs := by
  have numeral := passed_numberLength cs
  have unescaped' : '\\' ∉ ahead (cs.drop (numberLength cs)) := fun h =>
    unescaped (List.mem_of_mem_drop (numeral.drop_ahead ▸ h))
  have unit := passed_unitLength unescaped'
  rw [snd_takeNumber] at same ⊢
  have passed := numeral.add unit
  refine ⟨passed, ?_⟩
  have again := passed.ahead_append same
  rw [List.take_add, List.append_assoc] at again ⊢
  have behind :
      ahead ((cs.drop (numberLength cs)).take (unitLength (cs.drop (numberLength cs))) ++ y) =
        ahead (cs.drop (numberLength cs)) :=
    unit.ahead_append (by rw [List.drop_drop, same])
  generalize rest_eq :
    (cs.drop (numberLength cs)).take (unitLength (cs.drop (numberLength cs))) ++ y = rest
    at again behind ⊢
  have length : numberLength (cs.take (numberLength cs) ++ rest) = numberLength cs := by
    rw [← numberLength_ahead, again, numberLength_ahead]
  have size : (cs.take (numberLength cs)).length = numberLength cs :=
    List.length_take_of_le numeral.le
  have drop : (cs.take (numberLength cs) ++ rest).drop (numberLength cs) = rest :=
    List.drop_left' size
  have take :
      (cs.take (numberLength cs) ++ rest).take (numberLength cs) = cs.take (numberLength cs) :=
    List.take_left' size
  by_cases percent : ['%'] <+: cs.drop (numberLength cs)
  · have percent' : ['%'] <+: rest := prefix_congr behind.symm (by decide) percent
    rw [takeNumber_of_percent percent, takeNumber_of_percent (by rwa [length, drop]), length, take]
  · have percent' : ¬['%'] <+: rest := mt (prefix_congr behind (by decide)) percent
    rw [takeNumber_of_not_percent percent, takeNumber_of_not_percent (by rwa [length, drop])]
    simp only [length, drop, take]
    rw [atName_congr behind (behind ▸ unescaped'), takeName_congr behind (behind ▸ unescaped')]
    split
    · rename_i name
      have units : rest.take (takeName (cs.drop (numberLength cs))).2 =
          (cs.drop (numberLength cs)).take (takeName (cs.drop (numberLength cs))).2 := by
        have eq :
            unitLength (cs.drop (numberLength cs)) = (takeName (cs.drop (numberLength cs))).2 := by
          rw [unitLength, if_neg percent, if_pos name]
        rw [← rest_eq, eq]
        rw [eq] at unit
        exact List.take_left' (List.length_take_of_le unit.le)
      rw [units]
    · rfl

theorem clean_takeString {quote : Char} (unescaped : '\\' ∉ cs) :
    ∀ d ∈ (takeString quote cs).1, Text.endsLine d = false ∧ plain d = d := by
  fun_induction takeString quote cs with
  | case1 => nofun
  | case2 => nofun
  | case3 => exact absurd List.mem_cons_self unescaped
  | case4 => exact absurd List.mem_cons_self unescaped
  | case5 => nofun
  | case6 => nofun
  | case7 c cs _ other inside text closed n read ih =>
      rw [read] at ih
      refine List.forall_mem_cons.2 ⟨⟨?_, plain_plain c⟩, ih fun h => unescaped (.tail _ h)⟩
      by_cases nul : c = '\x00'
      · subst nul
        decide
      · rw [plain, if_neg nul]
        exact Bool.eq_false_iff.2 inside

private theorem escape_of_not_hexadecimal {c : Char} (h : isHexDigit c = false) (cs : List Char) :
    escape (c :: cs) = (plain c, 1) := by
  simp [escape, h]

private theorem takeString_cons {quote c : Char} (backslash : c ≠ '\\') (inside : c ≠ quote)
    (line : Text.endsLine c = false) (cs : List Char) :
    takeString quote (c :: cs) =
      (plain c :: (takeString quote cs).1, (takeString quote cs).2.1,
        (takeString quote cs).2.2 + 1) := by
  rw [takeString.eq_3 _ _ _ backslash, if_neg inside, line]
  rfl

private theorem takeString_escaped {quote c : Char} (h : isHexDigit c = false)
    (line : Text.endsLine c = false) (cs : List Char) :
    takeString quote ('\\' :: c :: cs) =
      (plain c :: (takeString quote cs).1, (takeString quote cs).2.1,
        (takeString quote cs).2.2 + 2) := by
  have count : 1 + 1 + (takeString quote cs).2.2 = (takeString quote cs).2.2 + 2 := by omega
  rw [takeString.eq_2, escape_of_not_hexadecimal h]
  simp [atLineEnd, line, count]

theorem takeString_escapeQuotes {text : List Char}
    (clean : ∀ d ∈ text, Text.endsLine d = false ∧ plain d = d) (rest : List Char) :
    takeString '"' (Token.escapeQuotes text ++ '"' :: rest) =
      (text, true, (Token.escapeQuotes text).length + 1) := by
  induction text with
  | nil => exact (takeString.eq_3 _ _ _ (by decide)).trans (if_pos rfl)
  | cons d text ih =>
      obtain ⟨⟨line, stays⟩, clean⟩ := List.forall_mem_cons.1 clean
      by_cases escaped : d = '"' ∨ d = '\\'
      · have split : Token.escapeQuotes (d :: text) = '\\' :: d :: Token.escapeQuotes text := by
          simp [Token.escapeQuotes, escaped]
        have digit : isHexDigit d = false := by
          rcases escaped with rfl | rfl <;> decide
        rw [split, List.cons_append, List.cons_append, takeString_escaped digit line, ih clean,
          stays]
        rfl
      · have split : Token.escapeQuotes (d :: text) = d :: Token.escapeQuotes text := by
          simp [Token.escapeQuotes, escaped]
        rw [not_or] at escaped
        rw [split, List.cons_append, takeString_cons escaped.2 escaped.1 line, ih clean, stays]
        rfl

private theorem takeName_pos {cs : List Char} (start : atName cs = true) : 0 < (takeName cs).2 := by
  cases cs with
  | nil => cases start
  | cons c cs =>
      by_cases backslash : c = '\\'
      · subst backslash
        have inside : atLineEnd cs = false := by simpa [atName] using start
        rw [takeName, if_neg (Bool.eq_false_iff.1 inside)]
        dsimp only
        omega
      · have continues : continuesName c = true := by
          by_cases hyphen : c = '-'
          · subst hyphen
            decide
          · rw [atName_cons hyphen backslash] at start
            simp [continuesName, start]
        rw [takeName, if_pos continues]
        · exact Nat.succ_pos _
        · exact backslash

theorem takeWord_pos {cs : List Char} (start : atName cs = true) : 0 < (takeWord cs).2 := by
  have name := takeName_pos start
  by_cases round : ['('] <+: cs.drop (takeName cs).2
  · obtain ⟨rest, behind⟩ := round
    rw [takeWord_of_round behind.symm]
    split
    · dsimp only
      omega
    · exact Nat.succ_pos _
  · rw [takeWord_of_not_round round]
    exact name

end Lexeme

end ViewStyle
