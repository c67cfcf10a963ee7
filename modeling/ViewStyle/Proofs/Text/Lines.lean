/-
Where a place in a text is. Its line is one more than the number of line ends before it, and its
column one more than the number of UTF-16 units behind the last of them. The further a place is in a
text, the higher is its line or its column.
-/

import Mathlib.Data.List.DropRight
import Mathlib.Data.List.Infix
import ViewStyle.Text.Position

set_option autoImplicit false

namespace ViewStyle.Text

def endsLineAt : List Char → Bool
  | '\r' :: '\n' :: _ => false
  | c :: _ => endsLine c
  | [] => false

def lineEnds (cs : List Char) : Nat := cs.tails.countP endsLineAt

def lastLine (cs : List Char) : List Char := cs.rtakeWhile (!endsLine ·)

def width : List Char → Nat
  | [] => 0
  | c :: cs => units c + width cs

private theorem lineEnds_cons (c : Char) (cs : List Char) :
    lineEnds (c :: cs) = lineEnds cs + (endsLineAt (c :: cs)).toNat := by
  rw [lineEnds, List.tails, List.countP_cons]
  cases endsLineAt (c :: cs) <;> rfl

private theorem lastLine_of_endsLine {c : Char} (h : endsLine c = true) (cs : List Char) :
    lastLine (c :: cs) = lastLine cs := by
  rw [lastLine, lastLine, List.rtakeWhile, List.rtakeWhile, List.reverse_cons,
    List.takeWhile_append]
  split
  · rename_i whole
    rw [List.takeWhile_cons_of_neg (by simp [h]), List.append_nil,
      (List.takeWhile_prefix _).eq_of_length whole]
  · rfl

private theorem lastLine_of_any {cs : List Char} (h : cs.any endsLine = true) (c : Char) :
    lastLine (c :: cs) = lastLine cs := by
  rw [lastLine, lastLine, List.rtakeWhile, List.rtakeWhile, List.reverse_cons,
    List.takeWhile_append, if_neg]
  intro whole
  obtain ⟨d, member, ends⟩ := List.any_eq_true.1 h
  have inside : d ∈ cs.reverse.takeWhile (!endsLine ·) := by
    rw [(List.takeWhile_prefix _).eq_of_length whole]
    exact List.mem_reverse.2 member
  simpa [ends] using List.mem_takeWhile_imp inside

private theorem lastLine_of_not_any {cs : List Char} (h : cs.any endsLine = false) :
    lastLine cs = cs := by
  rw [lastLine, List.rtakeWhile_eq_self_iff]
  simpa using h

namespace Position

private theorem after_cons (p : Position) {c : Char} {cs : List Char}
    (whole : c = '\r' → cs.head? ≠ some '\n') :
    p.after (c :: cs) =
      if endsLine c then after ⟨p.line + 1, 1⟩ cs else after ⟨p.line, p.column + units c⟩ cs := by
  rw [after]
  rintro rest rfl rfl
  exact whole rfl rfl

private theorem endsLineAt_cons {c : Char} {cs : List Char}
    (whole : c = '\r' → cs.head? ≠ some '\n') : endsLineAt (c :: cs) = endsLine c := by
  unfold endsLineAt
  split
  · rename_i same
    cases same
    exact absurd rfl (whole rfl)
  · rename_i same
    cases same
    rfl
  · rename_i same
    cases same

private theorem after_eq (p : Position) (cs : List Char) :
    p.after cs = ⟨p.line + lineEnds cs,
      if cs.any endsLine then 1 + width (lastLine cs) else p.column + width cs⟩ := by
  have fresh (cs : List Char) : (if cs.any endsLine then 1 + width (lastLine cs)
      else 1 + width cs) = 1 + width (lastLine cs) := by
    split
    · rfl
    · rename_i none
      rw [lastLine_of_not_any (Bool.eq_false_iff.2 none)]
  fun_induction after p cs with
  | case1 p => rfl
  | case2 p cs ih =>
      rw [ih, fresh, lineEnds_cons, lineEnds_cons, lastLine_of_endsLine rfl,
        lastLine_of_endsLine rfl]
      simp only [endsLineAt, endsLine, Bool.toNat_false, List.any_cons, mk.injEq]
      exact ⟨by simp [Nat.add_assoc, Nat.add_comm], rfl⟩
  | case3 p c cs other ends ih =>
      have here : endsLineAt (c :: cs) = true := by
        rw [endsLineAt_cons, ends]
        rintro rfl head
        obtain ⟨rest, rfl⟩ := List.head?_eq_some_iff.1 head
        exact other rest rfl rfl
      rw [ih, fresh, lineEnds_cons, here, lastLine_of_endsLine ends, List.any_cons, ends]
      simp [Nat.add_assoc, Nat.add_comm]
  | case4 p c cs other goes_on ih =>
      have inside : endsLine c = false := Bool.eq_false_iff.2 goes_on
      have here : endsLineAt (c :: cs) = false := by
        rw [endsLineAt_cons, inside]
        rintro rfl
        exact absurd inside (by decide)
      rw [ih, lineEnds_cons, here, List.any_cons, inside, Bool.false_or]
      split
      · rename_i some
        rw [lastLine_of_any some]
        rfl
      · simp [width, Nat.add_assoc]

theorem after_start (cs : List Char) :
    start.after cs = ⟨1 + lineEnds cs, 1 + width (lastLine cs)⟩ := by
  rw [after_eq]
  split
  · rfl
  · rename_i none
    rw [lastLine_of_not_any (Bool.eq_false_iff.2 none)]
    rfl

theorem after_append {p : Position} {cs rest : List Char}
    (whole : cs.getLast? = some '\r' → rest.head? ≠ some '\n') :
    p.after (cs ++ rest) = (p.after cs).after rest := by
  have next {c : Char} {cs : List Char} (h : (c :: cs).getLast? = some '\r' → rest.head? ≠ some '\n')
      (other : ∀ tail, c = '\r' → cs = '\n' :: tail → False) :
      c = '\r' → (cs ++ rest).head? ≠ some '\n' := by
    rintro rfl
    cases cs with
    | nil => exact h rfl
    | cons d tail =>
        intro head
        cases head
        exact other tail rfl rfl
  fun_induction after p cs with
  | case1 p => rfl
  | case2 p cs ih => exact ih fun last => whole (by simp [List.getLast?_cons, last])
  | case3 p c cs other ends ih =>
      rw [List.cons_append, after_cons p (next whole other), if_pos ends]
      exact ih fun last => whole (by simp [List.getLast?_cons, last])
  | case4 p c cs other goes_on ih =>
      rw [List.cons_append, after_cons p (next whole other), if_neg goes_on]
      exact ih fun last => whole (by simp [List.getLast?_cons, last])

/-- The order in which positions follow one another. -/
def Before (p q : Position) : Prop := p.line < q.line ∨ p.line = q.line ∧ p.column < q.column

private theorem units_pos (c : Char) : 0 < units c := by
  unfold units
  split <;> decide

private theorem lineEnds_pos {cs : List Char} (h : cs.any endsLine = true) : 0 < lineEnds cs := by
  induction cs with
  | nil => cases h
  | cons c cs ih =>
      rw [lineEnds_cons]
      cases here : cs.any endsLine with
      | true => exact Nat.add_pos_left (ih here) _
      | false =>
          have alone : c = '\r' → cs.head? ≠ some '\n' := by
            rintro rfl head
            obtain ⟨tail, rfl⟩ := List.head?_eq_some_iff.1 head
            cases here
          rw [List.any_cons, here, Bool.or_false] at h
          rw [endsLineAt_cons alone, h]
          exact Nat.succ_pos _

theorem before_after {p : Position} {c : Char} (inside : endsLine c = false) (cs : List Char) :
    p.Before (p.after (c :: cs)) := by
  have alone : c = '\r' → cs.head? ≠ some '\n' := by
    rintro rfl
    cases inside
  have room := units_pos c
  rw [after_cons p alone, if_neg (Bool.eq_false_iff.1 inside), after_eq]
  cases ends : cs.any endsLine with
  | true =>
      have lines := lineEnds_pos ends
      exact .inl (Nat.lt_add_of_pos_right lines)
  | false =>
      unfold Before
      dsimp only
      rw [if_neg Bool.false_ne_true]
      omega

end Position

end ViewStyle.Text
