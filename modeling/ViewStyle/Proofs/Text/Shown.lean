/-
Shown text can be read back: no character looks like the start of another one, so that the end of
the text is where its closing quote stands.
-/

import ViewStyle.Text.Quoted
import ViewStyle.Token.Lexeme

set_option autoImplicit false

namespace ViewStyle.Text

def hexadecimalValue (cs : List Char) : Nat := cs.foldl (fun n c => 16 * n + Lexeme.hexDigit c) 0

private theorem hexDigit_digitChar : ∀ d < 16, Lexeme.hexDigit (Nat.digitChar d) = d := by
  decide

private theorem digitChar_ne_brace : ∀ d < 16, Nat.digitChar d ≠ '\x7d' := by
  decide

private theorem hexadecimalValue_toDigits (n : Nat) : hexadecimalValue (Nat.toDigits 16 n) = n := by
  induction n using Nat.base_induction 16 (by decide) with
  | single d small =>
      rw [Nat.toDigits_of_lt_base small]
      simp [hexadecimalValue, hexDigit_digitChar d small]
  | digit n d small positive ih =>
      rw [← Nat.toDigits_append_toDigits (by decide) positive small, Nat.toDigits_of_lt_base small]
      unfold hexadecimalValue at ih ⊢
      rw [List.foldl_append, ih]
      simp [hexDigit_digitChar d small]

private theorem ne_brace_of_mem_toDigits (n : Nat) : ∀ c ∈ Nat.toDigits 16 n, c ≠ '\x7d' := by
  induction n using Nat.base_induction 16 (by decide) with
  | single d small =>
      rw [Nat.toDigits_of_lt_base small]
      intro c member
      exact List.mem_singleton.1 member ▸ digitChar_ne_brace d small
  | digit n d small positive ih =>
      rw [← Nat.toDigits_append_toDigits (by decide) positive small, Nat.toDigits_of_lt_base small]
      intro c member
      rcases List.mem_append.1 member with before | here
      · exact ih c before
      · exact List.mem_singleton.1 here ▸ digitChar_ne_brace d small

def readEscape : List Char → Option (Char × List Char)
  | 'u' :: cs =>
      let digits := cs.drop 1
      some (Char.ofNat (hexadecimalValue (digits.takeWhile (· != '\x7d'))),
        (digits.dropWhile (· != '\x7d')).drop 1)
  | '0' :: cs => some ('\x00', cs)
  | 't' :: cs => some ('\t', cs)
  | 'n' :: cs => some ('\n', cs)
  | 'r' :: cs => some ('\r', cs)
  | c :: cs => some (c, cs)
  | [] => none

def readShown : List Char → Option (Char × List Char)
  | [] => none
  | c :: cs => if c = '\\' then readEscape cs else some (c, cs)

private theorem readShown_shownChar (c : Char) (rest : List Char) :
    readShown ((shownChar c).toList ++ rest) = some (c, rest) := by
  unfold shownChar
  split
  · rfl
  · rfl
  · rfl
  · rfl
  · rfl
  · rfl
  · rename_i quote backslash _ _ _ _
    split
    · rw [Char.toString_eq_singleton, String.toList_singleton, List.singleton_append]
      exact if_neg backslash
    · have digits := ne_brace_of_mem_toDigits c.toNat
      have closing : ∀ d ∈ Nat.toDigits 16 c.toNat, (d != '\x7d') = true :=
        fun d member => bne_iff_ne.2 (digits d member)
      simp only [String.toList_append, hexadecimal, String.toList_ofList, List.append_assoc]
      show some (Char.ofNat (hexadecimalValue
          ((Nat.toDigits 16 c.toNat ++ '\x7d' :: rest).takeWhile (· != '\x7d'))),
        ((Nat.toDigits 16 c.toNat ++ '\x7d' :: rest).dropWhile (· != '\x7d')).drop 1) = _
      rw [List.takeWhile_append_of_pos closing, List.dropWhile_append_of_pos closing,
        List.takeWhile_cons_of_neg (by simp), List.dropWhile_cons_of_neg (by simp),
        List.append_nil, hexadecimalValue_toDigits, Char.ofNat_toNat]
      rfl

private theorem shownChar_append_inj {c d : Char} {u v : List Char}
    (h : (shownChar c).toList ++ u = (shownChar d).toList ++ v) : c = d ∧ u = v := by
  have read := congrArg readShown h
  rw [readShown_shownChar, readShown_shownChar] at read
  exact Prod.mk.inj (Option.some.inj read)

private theorem shownChar_append_ne_quote (c : Char) (u v : List Char) :
    (shownChar c).toList ++ u ≠ '"' :: v := by
  intro h
  have read := congrArg readShown h
  rw [readShown_shownChar] at read
  obtain ⟨rfl, rfl⟩ := Prod.mk.inj (Option.some.inj read)
  exact absurd (List.cons.inj h).1 (by decide)

private theorem flatMap_shownChar_append_inj {cs ds u v : List Char}
    (h : cs.flatMap (fun c => (shownChar c).toList) ++ '"' :: u =
      ds.flatMap (fun c => (shownChar c).toList) ++ '"' :: v) : cs = ds ∧ u = v := by
  induction cs generalizing ds with
  | nil =>
      cases ds with
      | nil => exact ⟨rfl, (List.cons.inj h).2⟩
      | cons d ds =>
          rw [List.flatMap_cons, List.append_assoc] at h
          exact absurd h.symm (shownChar_append_ne_quote d _ _)
  | cons c cs ih =>
      cases ds with
      | nil =>
          rw [List.flatMap_cons, List.append_assoc] at h
          exact absurd h (shownChar_append_ne_quote c _ _)
      | cons d ds =>
          rw [List.flatMap_cons, List.flatMap_cons, List.append_assoc, List.append_assoc] at h
          obtain ⟨rfl, rest⟩ := shownChar_append_inj h
          obtain ⟨rfl, rfl⟩ := ih rest
          exact ⟨rfl, rfl⟩

theorem toList_shown (s : String) :
    (shown s).toList = '"' :: (s.toList.flatMap fun c => (shownChar c).toList) ++ ['"'] := by
  unfold shown
  rw [String.toList_append, String.toList_append, String.toList_join, List.flatMap_map]
  rfl

/-- Texts that are shown alike are the same, and so is what follows them. -/
theorem shown_append_inj {s t : String} {u v : List Char}
    (h : (shown s).toList ++ u = (shown t).toList ++ v) : s = t ∧ u = v := by
  rw [toList_shown, toList_shown] at h
  simp only [List.cons_append, List.append_assoc, List.cons.injEq,
    true_and] at h
  obtain ⟨texts, rest⟩ := flatMap_shownChar_append_inj h
  exact ⟨String.toList_inj.1 texts, rest⟩

end ViewStyle.Text
