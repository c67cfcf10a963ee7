/-
A text that is scanned has nothing open at its end. So a semicolon behind it is one token more, and
changes none of the others, unless the text ends with an address that has no closing bracket.
-/

import Mathlib.Tactic.ByContra
import ViewStyle.Except
import ViewStyle.Proofs.Token.Boundaries
import ViewStyle.Proofs.Token.Nesting

set_option autoImplicit false

namespace ViewStyle

open Text (Position endsLine)

-- What holds of all members of a list is decided for each of them, not for all characters.
attribute [local instance (high)] List.decidableBAll

namespace Lexeme

def Finished (cs : List Char) : Prop := cs.getLast? ≠ some '\\'

def closesRound : List Char → Bool
  | [] => false
  | ')' :: _ => true
  | '\\' :: _ :: cs => closesRound cs
  | _ :: cs => closesRound cs

variable {cs : List Char}

private theorem Finished.tail {c : Char} (h : Finished (c :: cs)) : Finished cs := by
  intro last
  refine h ?_
  rw [List.getLast?_cons, last]
  rfl

private theorem Finished.drop (h : Finished cs) (n : Nat) : Finished (cs.drop n) := by
  unfold Finished
  rw [List.getLast?_drop]
  split
  · nofun
  · exact h

private theorem Finished.nonempty (h : Finished ('\\' :: cs)) : cs ≠ [] := by
  rintro rfl
  exact h rfl

/-! ### A semicolon behind the text -/

private theorem takeWhile_semicolon {p : Char → Bool} (other : p ';' = false) (cs : List Char) :
    (cs ++ [';']).takeWhile p = cs.takeWhile p := by
  rw [List.takeWhile_append]
  split
  · rename_i whole
    rw [List.takeWhile_cons_of_neg (by simp [other]), List.append_nil,
      (List.takeWhile_prefix p).eq_of_length whole]
  · rfl

private theorem mem_take_spaceLength {c : Char} (h : c ∈ cs.take (spaceLength cs)) :
    isSpace c = true := by
  unfold spaceLength at h
  split at h
  · simp only [List.take_succ_cons, List.take_zero, List.mem_cons, List.not_mem_nil, or_false] at h
    rcases h with rfl | rfl <;> rfl
  · split at h
    · rename_i space
      cases List.mem_singleton.1 h
      exact space
    · cases h
  · cases h

private theorem spaceLength_cons {c : Char} (alone : c = '\r' → cs.head? ≠ some '\n') :
    spaceLength (c :: cs) = if isSpace c then 1 else 0 := by
  rw [spaceLength]
  rintro tail rfl rfl
  exact alone rfl rfl

private theorem head?_semicolon {c : Char} (other : c ≠ ';') (cs : List Char) :
    (cs ++ [';']).head? = some c ↔ cs.head? = some c := by
  cases cs <;> simp [other.symm]

private theorem spaceLength_semicolon (cs : List Char) :
    spaceLength (cs ++ [';']) = spaceLength cs := by
  cases cs with
  | nil => rfl
  | cons c cs =>
      by_cases alone : c = '\r' → cs.head? ≠ some '\n'
      · rw [List.cons_append, spaceLength_cons alone, spaceLength_cons]
        rwa [ne_eq, head?_semicolon (by decide)]
      · push Not at alone
        obtain ⟨rfl, head⟩ := alone
        obtain ⟨tail, rfl⟩ := List.head?_eq_some_iff.1 head
        rfl

private theorem escape_cases (c : Char) (cs : List Char) :
    (escape (c :: cs)).2 = 1 ∨ ∃ digits rest, cs = digits ++ rest ∧
      (escape (c :: cs)).2 = digits.length + 1 ∧
        ∀ d ∈ digits, isHexDigit d = true ∨ isSpace d = true := by
  have hex (d : Char) (member : d ∈ ((c :: cs).take 6).takeWhile isHexDigit) :
      isHexDigit d = true := List.mem_takeWhile_imp member
  have start := (List.takeWhile_prefix (l := (c :: cs).take 6) isHexDigit).trans
    (List.take_prefix 6 _)
  unfold escape
  dsimp only
  generalize ((c :: cs).take 6).takeWhile isHexDigit = taken at hex start
  obtain ⟨rest, whole⟩ := start
  cases taken with
  | nil => exact .inl rfl
  | cons d digits =>
      obtain ⟨rfl, cs_eq⟩ := List.cons.inj whole
      replace cs_eq : cs = digits ++ rest := cs_eq.symm
      subst cs_eq
      have behind : (d :: (digits ++ rest)).drop (d :: digits).length = rest := List.drop_left
      refine .inr ⟨digits ++ rest.take (spaceLength rest), rest.drop (spaceLength rest), ?_, ?_, ?_⟩
      · rw [List.append_assoc, List.take_append_drop]
      · rw [behind, List.length_append, List.length_take_of_le (whole_spaceLength rest).le]
        exact Nat.add_right_comm digits.length 1 (spaceLength rest)
      · intro e member
        rcases List.mem_append.1 member with digit | space
        · exact .inl (hex e (List.mem_cons_of_mem d digit))
        · exact .inr (mem_take_spaceLength space)

private theorem escape_semicolon (nonempty : cs ≠ []) : escape (cs ++ [';']) = escape cs := by
  obtain ⟨c, cs, rfl⟩ := List.exists_cons_of_ne_nil nonempty
  have digits : ((c :: cs ++ [';']).take 6).takeWhile isHexDigit =
      ((c :: cs).take 6).takeWhile isHexDigit := by
    rw [List.take_append]
    cases 6 - (c :: cs).length with
    | zero => rw [List.take_zero, List.append_nil]
    | succ n =>
        rw [List.take_of_length_le (l := [';']) (by simp)]
        exact takeWhile_semicolon (by decide) _
  have short : (((c :: cs).take 6).takeWhile isHexDigit).length ≤ (c :: cs).length :=
    ((List.takeWhile_prefix _).trans (List.take_prefix 6 _)).length_le
  unfold escape
  rw [List.cons_append]
  dsimp only
  rw [← List.cons_append, digits, List.drop_append_of_le_length short, spaceLength_semicolon]

private theorem atLineEnd_semicolon (cs : List Char) : atLineEnd (cs ++ [';']) = atLineEnd cs := by
  cases cs <;> rfl

private theorem takeName_semicolon (finished : Finished cs) :
    takeName (cs ++ [';']) = takeName cs := by
  fun_induction takeName cs with
  | case1 => exact takeName_eq (by decide)
  | case2 cs line_end =>
      rw [List.cons_append, takeName, if_pos (by rwa [atLineEnd_semicolon])]
  | case3 cs inside c n escaped name m read ih =>
      have short := (whole_escape (Bool.eq_false_iff.2 inside)).le
      rw [escaped] at short
      rw [List.cons_append, takeName, if_neg (by rwa [atLineEnd_semicolon]),
        escape_semicolon finished.nonempty, escaped]
      dsimp only
      rw [List.drop_append_of_le_length short, ih (finished.tail.drop n), read]
  | case4 c cs other continues name n read ih =>
      rw [List.cons_append, takeName, if_pos continues, ih finished.tail, read]
      exact other
  | case5 c cs other ends =>
      rw [List.cons_append, takeName, if_neg ends]
      exact other

private theorem takeString_semicolon {quote : Char} (closed : (takeString quote cs).2.1 = true) :
    takeString quote (cs ++ [';']) = takeString quote cs := by
  fun_induction takeString quote cs with
  | case1 => cases closed
  | case2 => cases closed
  | case3 cs nonempty line_end text closed' n read ih =>
      rw [read] at ih
      rw [List.cons_append, takeString, if_neg (by simp), if_pos (by rwa [atLineEnd_semicolon]),
        spaceLength_semicolon, List.drop_append_of_le_length (whole_spaceLength cs).le, ih closed]
  | case4 cs nonempty inside c n escaped text closed' m read ih =>
      rw [read] at ih
      have short := (whole_escape (Bool.eq_false_iff.2 inside)).le
      rw [escaped] at short
      have nonempty : cs ≠ [] := by simpa using nonempty
      rw [List.cons_append, takeString, if_neg (by simp),
        if_neg (by rwa [atLineEnd_semicolon]), escape_semicolon nonempty, escaped]
      dsimp only
      rw [List.drop_append_of_le_length short, ih closed]
  | case5 cs other =>
      rw [List.cons_append, takeString, if_pos rfl]
      exact other
  | case6 => cases closed
  | case7 c cs other ends inside text closed' n read ih =>
      rw [read] at ih
      rw [List.cons_append, takeString, if_neg ends, if_neg inside, ih closed]
      exact other

private theorem takeComment_semicolon (closed : (takeComment cs).1 = true) :
    takeComment (cs ++ [';']) = takeComment cs := by
  fun_induction takeComment cs with
  | case1 => cases closed
  | case2 cs => rfl
  | case3 c cs other closed' n read ih =>
      rw [read] at ih
      rw [List.cons_append, takeComment, ih closed]
      rintro tail rfl start
      have head := (head?_semicolon (by decide) cs).1 (congrArg List.head? start)
      obtain ⟨tail, rfl⟩ := List.head?_eq_some_iff.1 head
      exact other tail rfl rfl

private theorem closesRound_cons {c : Char} (bracket : c ≠ ')') (backslash :
    c ≠ '\\') (cs : List Char) :
    closesRound (c :: cs) = closesRound cs := by
  rw [closesRound]
  · exact bracket
  · exact fun _ _ same => absurd same backslash

private theorem closesRound_append {text : List Char} (h : ∀ c ∈ text, c ≠ ')' ∧ c ≠ '\\')
    (cs : List Char) : closesRound (text ++ cs) = closesRound cs := by
  induction text with
  | nil => rfl
  | cons c text ih =>
      obtain ⟨⟨bracket, backslash⟩, rest⟩ := List.forall_mem_cons.1 h
      rw [List.cons_append, closesRound_cons bracket backslash, ih rest]

private theorem closesRound_escape (cs : List Char) :
    closesRound ('\\' :: cs) = closesRound (cs.drop (escape cs).2) := by
  cases cs with
  | nil => rfl
  | cons c cs =>
      obtain one | ⟨digits, rest, rfl, length, plain⟩ := escape_cases c cs
      · rw [one]
        rfl
      · rw [length, List.drop_succ_cons, List.drop_left]
        refine closesRound_append (fun d member => ?_) rest
        have other := plain d member
        constructor <;> rintro rfl <;> exact absurd other (by decide)

private theorem blankLength_semicolon (cs : List Char) :
    blankLength (cs ++ [';']) = blankLength cs :=
  congrArg List.length (takeWhile_semicolon (by decide) cs)

private theorem dropWhile_semicolon (cs : List Char) :
    (cs ++ [';']).dropWhile isSpace = cs.dropWhile isSpace ++ [';'] := by
  rw [← drop_blankLength, ← drop_blankLength, blankLength_semicolon,
    List.drop_append_of_le_length (whole_blankLength cs).le]

private theorem closesRound_dropWhile (cs : List Char) :
    closesRound (cs.dropWhile isSpace) = closesRound cs := by
  conv => rhs; rw [← List.takeWhile_append_dropWhile (p := isSpace) (l := cs)]
  refine (closesRound_append (fun c member => ?_) _).symm
  have space := List.mem_takeWhile_imp member
  constructor <;> rintro rfl <;> exact absurd space (by decide)

private theorem endAddress_semicolon (valid : (endAddress cs).1 = true)
    (closed : closesRound cs = true) : endAddress (cs ++ [';']) = endAddress cs := by
  rw [← closesRound_dropWhile] at closed
  obtain ⟨ends, -⟩ | ⟨rest, start, address⟩ | broken := endAddress_cases cs
  · rw [ends] at closed
    cases closed
  · rw [address]
    unfold endAddress
    dsimp only
    rw [drop_blankLength, dropWhile_semicolon, start, blankLength_semicolon]
    rfl
  · exact absurd (broken.symm.trans valid) Bool.false_ne_true

private theorem takeAddress_semicolon (valid : (takeAddress cs).2.1 = true)
    (closed : closesRound cs = true) : takeAddress (cs ++ [';']) = takeAddress cs := by
  fun_induction takeAddress cs with
  | case1 => cases closed
  | case2 cs =>
      rw [List.cons_append, takeAddress]
  | case3 => cases valid
  | case4 cs inside c n escaped text closed' m read ih =>
      rw [read] at ih
      have nonempty : cs ≠ [] := by
        rintro rfl
        cases closed
      have short := (whole_escape (Bool.eq_false_iff.2 inside)).le
      rw [closesRound_escape, escaped] at closed
      rw [escaped] at short
      rw [List.cons_append, takeAddress, if_neg (by rwa [atLineEnd_semicolon]),
        escape_semicolon nonempty, escaped]
      dsimp only
      rw [List.drop_append_of_le_length short, ih valid closed]
  | case5 c cs bracket backslash space =>
      have same := @endAddress_semicolon (c :: cs) valid closed
      rw [List.cons_append] at same
      rw [List.cons_append, takeAddress, if_pos space, same]
      · exact bracket
      · exact backslash
  | case6 => cases valid
  | case7 c cs bracket backslash inside fine target valid' n read ih =>
      rw [read] at ih
      rw [closesRound_cons bracket backslash] at closed
      rw [List.cons_append, takeAddress, if_neg inside, if_neg fine, ih valid closed]
      · exact bracket
      · exact backslash

private theorem endAddress_open (valid : (endAddress cs).1 = true)
    (opened : closesRound cs = false) :
    (endAddress cs).2 = cs.length ∧ (endAddress (cs ++ [';'])).1 = false := by
  rw [← closesRound_dropWhile] at opened
  obtain ⟨ends, address⟩ | ⟨rest, start, -⟩ | broken := endAddress_cases cs
  · constructor
    · have all := congrArg List.length (List.takeWhile_append_dropWhile (p := isSpace) (l := cs))
      rw [ends, List.append_nil] at all
      rw [address]
      exact all
    · unfold endAddress
      dsimp only
      rw [drop_blankLength, dropWhile_semicolon, ends]
      rfl
  · rw [start] at opened
    cases opened
  · exact absurd (broken.symm.trans valid) Bool.false_ne_true

private theorem takeAddress_open (valid : (takeAddress cs).2.1 = true)
    (opened : closesRound cs = false) (finished : Finished cs) : (takeAddress cs).2.2 = cs.length ∧
      ((takeAddress (cs ++ [';'])).2.1 = true →
        (takeAddress (cs ++ [';'])).2.2 = cs.length + 1) := by
  fun_induction takeAddress cs with
  | case1 =>
      refine ⟨rfl, fun _ => ?_⟩
      rw [List.nil_append, takeAddress, if_neg (by decide), if_neg (by decide), takeAddress]
      · rfl
      · decide
      · decide
  | case2 cs => cases opened
  | case3 => cases valid
  | case4 cs inside c n escaped text valid' m read ih =>
      rw [read] at ih
      have nonempty := finished.nonempty
      have short := (whole_escape (Bool.eq_false_iff.2 inside)).le
      rw [closesRound_escape, escaped] at opened
      rw [escaped] at short
      obtain ⟨length, longer⟩ := ih valid opened (finished.tail.drop n)
      rw [List.length_drop] at length longer
      dsimp only at length short ⊢
      rw [List.cons_append, takeAddress, if_neg (by rwa [atLineEnd_semicolon]),
        escape_semicolon nonempty, escaped]
      dsimp only
      rw [List.drop_append_of_le_length short, List.length_cons]
      refine ⟨by omega, fun valid => ?_⟩
      rw [longer valid]
      omega
  | case5 c cs bracket backslash space =>
      obtain ⟨length, broken⟩ := @endAddress_open (c :: cs) valid opened
      refine ⟨length, ?_⟩
      rw [List.cons_append] at broken ⊢
      rw [takeAddress, if_pos space, broken]
      · nofun
      · exact bracket
      · exact backslash
  | case6 => cases valid
  | case7 c cs bracket backslash inside fine target valid' n read ih =>
      rw [read] at ih
      rw [closesRound_cons bracket backslash] at opened
      obtain ⟨length, longer⟩ := ih valid opened finished.tail
      dsimp only at length ⊢
      rw [List.cons_append, takeAddress, if_neg inside, if_neg fine]
      · dsimp only
        exact ⟨congrArg Nat.succ length, fun valid => congrArg Nat.succ (longer valid)⟩
      · exact bracket
      · exact backslash

private theorem quoted_semicolon : Quoted (cs ++ [';']) ↔ Quoted cs := by
  unfold Quoted
  rw [blankLength_semicolon, List.drop_append_of_le_length (whole_blankLength cs).le]
  cases cs.drop (blankLength cs) with
  | nil => simp [isQuote]
  | cons c rest => simp

private theorem afterAddressHead_semicolon {name : List Char}
    (valid : (afterAddressHead name cs).1 ≠ .refused)
    (closed : ∀ target, (afterAddressHead name cs).1 = .address target → closesRound cs = true) :
    afterAddressHead name (cs ++ [';']) = afterAddressHead name cs := by
  by_cases quoted : Quoted cs
  · rw [afterAddressHead_of_quoted name quoted,
      afterAddressHead_of_quoted name (quoted_semicolon.2 quoted)]
  · have eq := afterAddressHead_of_not_quoted name quoted
    cases taken : (takeAddress (cs.dropWhile isSpace)).2.1 with
    | false =>
        rw [eq, taken] at valid
        exact absurd rfl valid
    | true =>
        have bracket : closesRound cs = true := by
          rw [eq, taken] at closed
          exact closed _ rfl
        rw [afterAddressHead_of_not_quoted name (mt quoted_semicolon.1 quoted), eq,
          dropWhile_semicolon, takeAddress_semicolon taken (by rwa [closesRound_dropWhile]),
          blankLength_semicolon]

private theorem afterAddressHead_open {name : List Char} {target : String}
    (address : (afterAddressHead name cs).1 = .address target) (opened : closesRound cs = false)
    (finished : Finished cs) : (afterAddressHead name cs).2 = cs.length ∧
      ((afterAddressHead name (cs ++ [';'])).1 ≠ .refused →
        ∃ target', afterAddressHead name (cs ++ [';']) = (.address target', cs.length + 1)) := by
  by_cases quoted : Quoted cs
  · rw [afterAddressHead_of_quoted name quoted] at address
    cases address
  · have eq := afterAddressHead_of_not_quoted name quoted
    have eq' := afterAddressHead_of_not_quoted name (mt quoted_semicolon.1 quoted)
    have all : blankLength cs + (cs.dropWhile isSpace).length = cs.length := by
      rw [blankLength, ← List.length_append, List.takeWhile_append_dropWhile]
    have finished' : Finished (cs.dropWhile isSpace) := by
      rw [← drop_blankLength]
      exact finished.drop _
    cases taken : (takeAddress (cs.dropWhile isSpace)).2.1 with
    | false =>
        rw [eq, taken] at address
        cases address
    | true =>
        rw [← closesRound_dropWhile] at opened
        obtain ⟨length, longer⟩ := takeAddress_open taken opened finished'
        rw [dropWhile_semicolon, blankLength_semicolon] at eq'
        refine ⟨by rw [eq, length]; exact all, fun valid => ?_⟩
        cases taken' : (takeAddress (cs.dropWhile isSpace ++ [';'])).2.1 with
        | false =>
            rw [eq', taken'] at valid
            exact absurd rfl valid
        | true =>
            rw [eq', taken', longer taken', ← Nat.add_assoc, all]
            exact ⟨_, rfl⟩

private theorem closesRound_takeName (cs : List Char) :
    closesRound (cs.drop (takeName cs).2) = closesRound cs := by
  fun_induction takeName cs with
  | case1 => rfl
  | case2 => rfl
  | case3 cs inside c n escaped name m read ih =>
      rw [read, List.drop_drop] at ih
      rw [closesRound_escape, escaped, ← ih, Nat.add_assoc, Nat.add_comm, List.drop_succ_cons]
  | case4 c cs other continues name n read ih =>
      rw [read] at ih
      rw [List.drop_succ_cons, ih, closesRound_cons _ other]
      rintro rfl
      cases continues
  | case5 => rfl

private theorem prefix_semicolon {word : List Char} (other : ';' ∉ word) :
    word <+: cs ++ [';'] ↔ word <+: cs := by
  rw [List.prefix_concat_iff, or_iff_right]
  rintro rfl
  exact other (by simp)

private theorem drop_takeName_semicolon (finished : Finished cs) {rest : List Char}
    (start : cs.drop (takeName cs).2 = '(' :: rest) :
    (cs ++ [';']).drop (takeName (cs ++ [';'])).2 = '(' :: (rest ++ [';']) ∧
      closesRound rest = closesRound cs := by
  constructor
  · rw [takeName_semicolon finished, List.drop_append_of_le_length (whole_takeName cs).le, start]
    rfl
  · rw [← closesRound_takeName cs, start]
    exact (closesRound_cons (by decide) (by decide) rest).symm

private theorem takeWord_semicolon (finished : Finished cs) (valid : (takeWord cs).1 ≠ .refused)
    (closed : ∀ target, (takeWord cs).1 = .address target → closesRound cs = true) :
    takeWord (cs ++ [';']) = takeWord cs := by
  have name := takeName_semicolon finished
  by_cases round : ['('] <+: cs.drop (takeName cs).2
  · obtain ⟨rest, start⟩ := round
    replace start : cs.drop (takeName cs).2 = '(' :: rest := start.symm
    obtain ⟨behind, bracket⟩ := drop_takeName_semicolon finished start
    rw [takeWord_of_round start] at valid closed ⊢
    rw [takeWord_of_round behind, name]
    split at valid
    · rename_i url
      rw [if_pos url, ← bracket] at closed
      rw [if_pos url, if_pos url, afterAddressHead_semicolon valid closed]
    · rename_i other
      rw [if_neg other, if_neg other]
  · rw [takeWord_of_not_round round, takeWord_of_not_round, name]
    rwa [name, List.drop_append_of_le_length (whole_takeName cs).le, prefix_semicolon (by decide)]

private theorem takeWord_open {target : String} (address : (takeWord cs).1 = .address target)
    (opened : closesRound cs = false) (finished : Finished cs) :
    (takeWord cs).2 = cs.length ∧ ((takeWord (cs ++ [';'])).1 ≠ .refused →
      ∃ target', takeWord (cs ++ [';']) = (.address target', cs.length + 1)) := by
  have name := takeName_semicolon finished
  by_cases round : ['('] <+: cs.drop (takeName cs).2
  · obtain ⟨rest, start⟩ := round
    replace start : cs.drop (takeName cs).2 = '(' :: rest := start.symm
    obtain ⟨behind, bracket⟩ := drop_takeName_semicolon finished start
    have all : (takeName cs).2 + 1 + rest.length = cs.length := by
      have length := congrArg List.length start
      have short := (whole_takeName cs).le
      rw [List.length_drop, List.length_cons] at length
      omega
    have finished' : Finished rest := by
      have finished' := finished.drop (takeName cs).2
      rw [start] at finished'
      exact finished'.tail
    rw [takeWord_of_round start] at address ⊢
    rw [takeWord_of_round behind, name]
    split at address
    · rename_i url
      rw [if_pos url, if_pos url]
      obtain ⟨length, longer⟩ := afterAddressHead_open address (bracket.trans opened) finished'
      refine ⟨by rw [length]; exact all, fun valid => ?_⟩
      obtain ⟨target', eq⟩ := longer valid
      rw [eq, ← all]
      exact ⟨target', rfl⟩
    · cases address
  · rw [takeWord_of_not_round round] at address
    cases address

private theorem any_head?_semicolon {p : Char → Bool} (other : p ';' = false) (cs : List Char) :
    (cs ++ [';']).head?.any p = cs.head?.any p := by
  cases cs <;> simp [other]

private theorem ahead_semicolon (cs : List Char) : ahead (cs ++ [';']) = ahead cs := by
  induction cs with
  | nil => rfl
  | cons c cs ih =>
      by_cases slash : c = '/'
      · subst slash
        by_cases comment : ['*'] <+: cs
        · obtain ⟨rest, rfl⟩ := comment
          rfl
        · rw [List.cons_append, ahead_cons rfl rfl rfl (by decide) fun _ => comment,
            ahead_cons rfl rfl rfl (by decide) fun _ => ?_, ih]
          rwa [prefix_semicolon (by decide)]
      · exact ahead_cons_congr slash ih

private theorem atName_semicolon (cs : List Char) : atName (cs ++ [';']) = atName cs := by
  cases cs with
  | nil => rfl
  | cons c cs =>
      by_cases hyphen : c = '-'
      · subst hyphen
        exact (atName_hyphen _).trans
          ((any_head?_semicolon (by decide) cs).trans (atName_hyphen cs).symm)
      · by_cases backslash : c = '\\'
        · subst backslash
          exact congrArg (!·) (atLineEnd_semicolon cs)
        · rw [List.cons_append, atName_cons hyphen backslash, atName_cons hyphen backslash]

private theorem atHash_semicolon (cs : List Char) : atHash (cs ++ [';']) = atHash cs := by
  rw [atHash_eq, atHash_eq, atName_semicolon, any_head?_semicolon (by decide)]

private theorem atNumber_semicolon (cs : List Char) : atNumber (cs ++ [';']) = atNumber cs := by
  rw [← atNumber_ahead, ahead_semicolon, atNumber_ahead]

private theorem takeNumber_semicolon (finished : Finished cs) :
    takeNumber (cs ++ [';']) = takeNumber cs := by
  have short := (passed_numberLength cs).le
  have length : numberLength (cs ++ [';']) = numberLength cs := by
    rw [← numberLength_ahead, ahead_semicolon, numberLength_ahead]
  have behind : (cs ++ [';']).drop (numberLength (cs ++ [';'])) =
      cs.drop (numberLength cs) ++ [';'] := by
    rw [length, List.drop_append_of_le_length short]
  have digits : (cs ++ [';']).take (numberLength cs) = cs.take (numberLength cs) :=
    List.take_append_of_le_length short
  by_cases percent : ['%'] <+: cs.drop (numberLength cs)
  · rw [takeNumber_of_percent percent, takeNumber_of_percent, length, digits]
    rwa [behind, prefix_semicolon (by decide)]
  · have unit := finished.drop (numberLength cs)
    rw [takeNumber_of_not_percent percent, takeNumber_of_not_percent, behind, length, digits]
    · dsimp only
      rw [atName_semicolon, takeName_semicolon unit,
        List.take_append_of_le_length (whole_takeName _).le]
    · rwa [behind, prefix_semicolon (by decide)]

private theorem next_quote {c : Char} (quote : isQuote c = true) (cs : List Char) :
    next c cs = (.string (String.ofList (takeString c cs).1) (takeString c cs).2.1,
      (takeString c cs).2.2) := by
  obtain rfl | rfl : c = '"' ∨ c = '\'' := by simpa [isQuote] using quote
  · rfl
  · rfl

private theorem next_semicolon {c : Char} {text : List Char} {position : Position}
    (finished : Finished (c :: cs)) (fine : ¬Piece.IsBad ⟨(next c cs).1, text, position⟩)
    (closed : ∀ target, (next c cs).1 = .address target → closesRound (c :: cs) = true) :
    next c (cs ++ [';']) = next c cs := by
  have name : takeName (cs ++ [';']) = takeName cs := takeName_semicolon finished.tail
  obtain binder | quote | rfl | rfl | plain := first_cases c
  · have other : ∀ c ∈ binders, ';' ∉ bound c := by decide
    by_cases h : bound c <+: cs
    · obtain refused | ⟨rfl, -⟩ := next_of_bound binder h
      · rw [refused] at fine
        exact absurd trivial fine
      · obtain ⟨rest, rfl⟩ := h
        have ended : (takeComment rest).1 = true := by
          by_contra unclosed
          refine fine ?_
          have comment : (next '/' (bound '/' ++ rest)).1 = .comment (takeComment rest).1 := rfl
          rw [comment, Bool.eq_false_iff.2 unclosed]
          trivial
        show ((.comment (takeComment (rest ++ [';'])).1 : Lexeme),
          (takeComment (rest ++ [';'])).2 + 1) = _
        rw [takeComment_semicolon ended]
        rfl
    · rw [next_of_not_bound binder h, next_of_not_bound binder]
      rwa [prefix_semicolon (other c binder)]
  · have ended : (takeString c cs).2.1 = true := by
      by_contra unclosed
      refine fine ?_
      rw [next_quote quote, Bool.eq_false_iff.2 unclosed]
      trivial
    rw [next_quote quote, next_quote quote, takeString_semicolon ended]
  · rw [next, next, atHash_semicolon, name]
  · rw [next, next, atName_semicolon, name]
  · have number := atNumber_semicolon (c :: cs)
    have start := atName_semicolon (c :: cs)
    have arrow : ['-', '-', '>'] <+: c :: cs ++ [';'] ↔ ['-', '-', '>'] <+: c :: cs :=
      prefix_semicolon (by decide)
    rw [List.cons_append] at number start arrow
    by_cases space : isSpace c = true
    · rw [next_space space, next_space space, blankLength_semicolon]
    by_cases digits : atNumber (c :: cs) = true
    · rw [next_of_atNumber digits, next_of_atNumber (number.trans digits), ← List.cons_append,
        takeNumber_semicolon finished]
    replace digits : atNumber (c :: cs) = false := Bool.eq_false_iff.2 digits
    by_cases refused : ['-', '-', '>'] <+: c :: cs
    · rw [next_eq_common plain, common, if_neg space, digits, if_neg Bool.false_ne_true,
        if_pos ((arrow_iff c cs).2 refused)] at fine
      exact absurd trivial fine
    by_cases word : atName (c :: cs) = true
    · rw [next_of_atName word digits refused] at fine closed ⊢
      rw [next_of_atName (start.trans word) (number.trans digits) (mt arrow.1 refused),
        ← List.cons_append, takeWord_semicolon finished _ closed]
      intro broken
      rw [broken] at fine
      exact fine trivial
    · replace space : isSpace c = false := Bool.eq_false_iff.2 space
      replace word : atName (c :: cs) = false := Bool.eq_false_iff.2 word
      rw [next_eq_common plain, next_eq_common plain, common_eq_mark space digits refused word,
        common_eq_mark space (number.trans digits) (mt arrow.1 refused) (start.trans word)]

private theorem next_open {c : Char} {target : String} (address : (next c cs).1 = .address target)
    (opened : closesRound (c :: cs) = false) (finished : Finished (c :: cs)) :
    (next c cs).2 = cs.length ∧ ((next c (cs ++ [';'])).1 ≠ .refused →
      ∃ target', next c (cs ++ [';']) = (.address target', cs.length + 1)) := by
  have form := form_next c cs
  generalize eq : next c cs = read at form address
  obtain ⟨lexeme, n⟩ := read
  cases form with
  | word name number arrow =>
      obtain ⟨length, longer⟩ := takeWord_open address opened finished
      have name' := (atName_semicolon (c :: cs)).trans name
      have number' := (atNumber_semicolon (c :: cs)).trans number
      have arrow' := mt (@prefix_semicolon (c :: cs) _ (by decide)).1 arrow
      rw [List.cons_append] at name' number' arrow' longer
      rw [next_of_atName name' number' arrow', length]
      refine ⟨rfl, fun valid => ?_⟩
      obtain ⟨target', again⟩ := longer valid
      exact ⟨target', by rw [again]; rfl⟩
  | number number =>
      obtain ⟨value, unit, first⟩ := fst_takeNumber (c :: cs)
      cases first.symm.trans address
  | _ => cases address

end Lexeme

open Lexeme (Finished closesRound)

/-- The last of some pieces is an address without its closing bracket. -/
def EndsOpen (pieces : List Piece) : Prop :=
  ∃ p target, pieces.getLast? = some p ∧ p.lexeme = .address target ∧ closesRound p.text = false

private theorem EndsOpen.cons {rest : List Piece} (h : EndsOpen rest) (p : Piece) :
    EndsOpen (p :: rest) := by
  obtain ⟨last, target, eq, address, opened⟩ := h
  refine ⟨last, target, ?_, address, opened⟩
  rw [List.getLast?_cons, eq]
  rfl

private theorem EndsOpen.of_cons {p : Piece} {rest : List Piece} (h : EndsOpen (p :: rest)) :
    EndsOpen rest ∨ rest = [] ∧ ∃ target, p.lexeme = .address target ∧ closesRound p.text = false := by
  obtain ⟨last, target, eq, address, opened⟩ := h
  cases rest with
  | nil =>
      cases eq
      exact .inr ⟨rfl, target, address, opened⟩
  | cons q rest =>
      rw [List.getLast?_cons_cons] at eq
      exact .inl ⟨last, target, eq, address, opened⟩

private theorem endsOpen_of_next {c : Char} {cs : List Char} {target : String}
    (finished : Finished (c :: cs)) (address : (Lexeme.next c cs).1 = .address target)
    (opened : closesRound (c :: cs) = false) (position : Position) :
    EndsOpen (pieces position (c :: cs)) := by
  obtain ⟨length, -⟩ := Lexeme.next_open address opened finished
  rw [pieces_cons, length, List.take_length, List.drop_length, pieces]
  exact ⟨_, target, rfl, address, opened⟩

namespace Scan

private theorem run_nil {origin : Option String} {s : State} (closed : s.groups = []) :
    run origin s [] = .ok s.tokens.reverse := by
  rw [run, closed]

private theorem run_semicolon {origin : Option String} {s : State} {cs : List Char}
    {tokens : List Token} (scanned : run origin s cs = .ok tokens) (finished : Finished cs)
    (closed : ¬EndsOpen (pieces s.position cs)) :
    ∃ spaced, run origin s (cs ++ [';']) =
      .ok (tokens ++ [⟨.punct .semicolon, ⟨origin, s.position.after cs⟩, spaced⟩]) := by
  induction cs using Lexeme.pieces_induction generalizing s with
  | nil =>
      refine ⟨s.spaced, ?_⟩
      rw [run] at scanned
      split at scanned
      · rename_i groups
        cases scanned
        have mark : Lexeme.next ';' [] = (.mark ';', 0) := by
          rw [Lexeme.next_eq_common (by decide)]
          exact Lexeme.common_of_inert (by decide) []
        rw [List.nil_append, run_cons, mark]
        show run origin { s.emit origin (.punct .semicolon) with position := _ } [] = _
        refine (run_nil ?_).trans ?_
        · exact groups
        · simp [State.emit, push, Position.after]
      · cases scanned
  | cons c cs ih =>
      rw [run_cons] at scanned
      obtain ⟨s', read, rest⟩ := bind_eq_ok scanned
      have fine := not_isBad_of_read read [] .start
      have same := Lexeme.next_semicolon finished fine fun target address => by
        by_contra opened
        exact closed (endsOpen_of_next finished address (Bool.eq_false_iff.2 opened) _)
      have whole := whole_of_read read
      have le := Nat.le_of_succ_le_succ whole.le
      rw [pieces_cons] at closed
      rw [after_piece whole, List.cons_append, run_cons, same, List.take_append_of_le_length le,
        read, ok_bind, List.drop_append_of_le_length le, ← position_read read]
      refine ih rest (finished.tail.drop _) fun opened => closed ?_
      dsimp only at opened
      rw [position_read read] at opened
      exact opened.cons _

private theorem run_open {origin : Option String} {s : State} {cs : List Char}
    {tokens tokens' : List Token}
    (scanned : run origin s cs = .ok tokens) (finished : Finished cs)
    (opened : EndsOpen (pieces s.position cs))
    (scanned' : run origin s (cs ++ [';']) = .ok tokens') : tokens'.length = tokens.length := by
  induction cs using Lexeme.pieces_induction generalizing s with
  | nil =>
      obtain ⟨_, _, last, -⟩ := opened
      rw [pieces] at last
      cases last
  | cons c cs ih =>
      rw [run_cons] at scanned
      obtain ⟨s', read, rest⟩ := bind_eq_ok scanned
      have fine := not_isBad_of_read read [] .start
      have le := Nat.le_of_succ_le_succ (whole_of_read read).le
      rw [List.cons_append, run_cons] at scanned'
      by_cases here : ∃ target, (Lexeme.next c cs).1 = .address target ∧ closesRound (c :: cs) = false
      · obtain ⟨target, address, opened⟩ := here
        obtain ⟨length, longer⟩ := Lexeme.next_open address opened finished
        obtain ⟨t, read', rest'⟩ := bind_eq_ok scanned'
        obtain ⟨target', again⟩ := longer fun refused => by
          rw [refused] at read'
          cases read'
        have all : (cs ++ [';']).drop (cs.length + 1) = [] := List.drop_of_length_le (by simp)
        rw [address] at read
        rw [length, List.drop_length, run] at rest
        rw [again] at read' rest'
        rw [all, run] at rest'
        cases read
        cases read'
        dsimp only [State.emit] at rest rest'
        cases groups : s.groups with
        | nil =>
            rw [groups] at rest rest'
            cases rest
            cases rest'
            simp [push]
        | cons group outer =>
            rw [groups] at rest
            cases rest
      · have same := Lexeme.next_semicolon finished fine fun target address => by
          by_contra opened
          exact here ⟨target, address, Bool.eq_false_iff.2 opened⟩
        rw [same, List.take_append_of_le_length le, read, ok_bind,
          List.drop_append_of_le_length le] at scanned'
        refine ih rest (finished.tail.drop _) ?_ scanned'
        dsimp only
        rw [position_read read]
        rw [pieces_cons] at opened
        refine opened.of_cons.resolve_right ?_
        rintro ⟨last, target, address, text⟩
        have all : cs.drop (Lexeme.next c cs).2 = [] := by
          rw [← flatMap_text_pieces _ (cs.drop _), last, List.flatMap_nil]
        refine here ⟨target, address, ?_⟩
        rw [← List.take_append_drop (Lexeme.next c cs).2 cs, all, List.append_nil]
        exact text

private theorem not_isBad_of_run {origin : Option String} {s : State} {cs : List Char}
    {tokens : List Token} (scanned : run origin s cs = .ok tokens) :
    ∀ p ∈ pieces s.position cs, ¬p.IsBad := by
  induction cs using Lexeme.pieces_induction generalizing s with
  | nil =>
      rw [pieces]
      exact fun p member => (List.not_mem_nil member).elim
  | cons c cs ih =>
      rw [run_cons] at scanned
      obtain ⟨s', read, rest⟩ := bind_eq_ok scanned
      have others := ih rest
      dsimp only at others
      rw [position_read read] at others
      rw [pieces_cons, List.forall_mem_cons]
      exact ⟨not_isBad_of_read read _ _, others⟩

end Scan

/-- A text that is scanned has no bad piece, and all its groups are closed. A semicolon behind it, if
it does not end with a backslash, is one token more and changes nothing else, if and only if the text
does not end with an address without its closing bracket. -/
theorem Token.scan_semicolon_iff {source : String} {origin : Option String} {tokens : List Token}
    (scanned : Token.scan source origin = .ok tokens) :
    (∀ p ∈ Lexeme.piecesOf source, ¬p.IsBad) ∧ Token.groupsThrough tokens [] = [] ∧
      (source.toList.getLast? ≠ some '\\' →
        ((∃ spaced, Token.scan (source ++ ";") origin = .ok (tokens ++
          [⟨.punct .semicolon, ⟨origin, Position.start.after source.toList⟩, spaced⟩])) ↔
            ¬EndsOpen (Lexeme.piecesOf source))) := by
  refine ⟨?_, Token.groupsThrough_of_scan scanned, fun finished => ?_⟩
  · exact Scan.not_isBad_of_run scanned
  · have behind : Token.scan (source ++ ";") origin =
        Scan.run origin .start (source.toList ++ [';']) := by
      rw [Token.scan, String.toList_append]
      rfl
    rw [behind]
    constructor
    · rintro ⟨spaced, longer⟩ opened
      have same := Scan.run_open scanned finished opened longer
      simp at same
    · exact Scan.run_semicolon scanned finished

/-- An address with its closing bracket, behind a bracket that is astray. -/
theorem Token.scan_semicolon_iff_closed : ∃ tokens, Token.scan "] url( a )" none = .ok tokens ∧
    Token.groupsThrough tokens [] = [] ∧
    ∃ spaced, Token.scan ("] url( a )" ++ ";") none =
      .ok (tokens ++ [⟨.punct .semicolon, ⟨none, ⟨1, 11⟩⟩, spaced⟩]) := by
  obtain ⟨tokens, scanned⟩ : ∃ tokens, Token.scan "] url( a )" none = .ok tokens :=
    exists_ok_of_isOk (by decide +kernel)
  have cut : (Lexeme.piecesOf "] url( a )").getLast? =
      some ⟨.address "a", "url( a )".toList, ⟨1, 3⟩⟩ := by
    decide +kernel
  have closed : ¬EndsOpen (Lexeme.piecesOf "] url( a )") := by
    rintro ⟨p, target, last, -, opened⟩
    rw [cut] at last
    cases last
    exact absurd opened (by decide +kernel)
  obtain ⟨-, groups, appended⟩ := Token.scan_semicolon_iff scanned
  exact ⟨tokens, scanned, groups, (appended (by decide +kernel)).2 closed⟩

/-- A text that breaks off inside an address is scanned, and a semicolon behind it is no token. -/
theorem Token.scan_open_address : ∃ tokens, Token.scan "url(abc" none = .ok tokens ∧
    "url(abc".toList.getLast? ≠ some '\\' ∧
    ¬∃ semicolon : Token, semicolon.kind = .punct .semicolon ∧
      Token.scan ("url(abc" ++ ";") none = .ok (tokens ++ [semicolon]) := by
  obtain ⟨tokens, scanned, count⟩ : ∃ tokens, Token.scan "url(abc" none = .ok tokens ∧
      tokens.length = 3 :=
    exists_ok_of_any (by decide +kernel)
  refine ⟨tokens, scanned, by decide +kernel, ?_⟩
  rintro ⟨semicolon, -, again⟩
  have length : ((Token.scan ("url(abc" ++ ";") none).map List.length) = .ok 3 := by
    decide +kernel
  rw [again] at length
  simp [Except.map, count] at length

end ViewStyle
