/-
Splitting a text at the first or the last place where something stands in it.
-/

set_option autoImplicit false

namespace ViewStyle.Text

def splitFirst? (mark : List Char) : List Char → Option (List Char × List Char)
  | [] => if mark.isEmpty then some ([], []) else none
  | c :: cs =>
      if mark.isPrefixOf (c :: cs) then some ([], (c :: cs).drop mark.length)
      else (splitFirst? mark cs).map fun (before, after) => (c :: before, after)

def splitLast? (mark : Char) : List Char → Option (List Char × List Char)
  | [] => none
  | c :: cs =>
      match splitLast? mark cs with
      | some (before, after) => some (c :: before, after)
      | none => if c = mark then some ([], cs) else none

theorem splitLast?_eq_none_iff {mark : Char} {cs : List Char} :
    splitLast? mark cs = none ↔ mark ∉ cs := by
  induction cs with
  | nil => simp [splitLast?]
  | cons c cs ih =>
      unfold splitLast?
      split
      · rename_i found
        have inside : mark ∈ cs := Decidable.not_not.1 fun absent => by
          rw [ih.2 absent] at found
          cases found
        simp [inside]
      · rename_i nowhere
        simp [ih.1 nowhere, eq_comm]

theorem splitLast?_eq_some_iff {mark : Char} {cs before after : List Char} :
    splitLast? mark cs = some (before, after) ↔ cs = before ++ mark :: after ∧ mark ∉ after := by
  induction cs generalizing before after with
  | nil => simp [splitLast?]
  | cons c cs ih =>
      unfold splitLast?
      split
      · rename_i earlier later found
        obtain ⟨rest_eq, absent⟩ := ih.1 found
        constructor
        · intro h
          cases h
          exact ⟨by rw [rest_eq]; rfl, absent⟩
        · rintro ⟨same, absent'⟩
          cases before with
          | nil =>
              cases same
              exact absurd (by rw [rest_eq]; simp) absent'
          | cons b before =>
              obtain ⟨rfl, tail⟩ := List.cons.inj same
              cases found.symm.trans (ih.2 ⟨tail, absent'⟩)
              rfl
      · rename_i nowhere
        have absent := splitLast?_eq_none_iff.1 nowhere
        constructor
        · intro h
          split at h
          · rename_i here
            cases h
            exact ⟨by rw [here]; rfl, absent⟩
          · cases h
        · rintro ⟨same, -⟩
          cases before with
          | nil =>
              cases same
              simp
          | cons b before =>
              cases same
              simp at absent

end ViewStyle.Text
