/-
Lists of optional results, and lists that are related member by member.
-/

import Mathlib.Data.List.Forall2

set_option autoImplicit false

namespace ViewStyle

section

variable {α β γ : Type}

theorem mapM_cons_eq_some {f : α → Option β} {x : α} {xs : List α} {ys : List β} :
    (x :: xs).mapM f = some ys ↔
      ∃ y others, f x = some y ∧ xs.mapM f = some others ∧ ys = y :: others := by
  rw [List.mapM_cons]
  cases f x with
  | none => simp
  | some y =>
      cases xs.mapM f with
      | none => simp
      | some others => simp [eq_comm]

theorem mapM_congr {f g : α → Option β} {xs : List α} (h : ∀ x ∈ xs, f x = g x) :
    xs.mapM f = xs.mapM g := by
  rw [← Function.id_comp f, ← Function.id_comp g, ← List.mapM_map, ← List.mapM_map,
    List.map_congr_left h]

theorem mapM_bind (f : α → Option β) (g : β → Option γ) (xs : List α) :
    xs.mapM (fun x => (f x).bind g) = (xs.mapM f).bind fun ys => ys.mapM g := by
  induction xs with
  | nil => rfl
  | cons x xs ih =>
      rw [List.mapM_cons, List.mapM_cons, ih]
      cases f x with
      | none => rfl
      | some y =>
          cases xs.mapM f with
          | none => cases h : g y <;> simp [h]
          | some ys => simp [List.mapM_cons]

theorem mem_mapM {f : α → Option β} {xs : List α} {ys : List β} (h : xs.mapM f = some ys) :
    ys.length = xs.length ∧ ∀ y ∈ ys, ∃ x ∈ xs, f x = some y := by
  induction xs generalizing ys with
  | nil =>
      cases h
      exact ⟨rfl, fun _ member => nomatch member⟩
  | cons x xs ih =>
      obtain ⟨y, others, here, there, rfl⟩ := mapM_cons_eq_some.1 h
      obtain ⟨length, all⟩ := ih there
      refine ⟨congrArg (· + 1) length, List.forall_mem_cons.2 ⟨⟨x, List.mem_cons_self, here⟩, ?_⟩⟩
      intro z member
      obtain ⟨x', x'_mem, found⟩ := all z member
      exact ⟨x', List.mem_cons_of_mem _ x'_mem, found⟩

theorem isSome_of_mapM {f : α → Option β} {xs : List α} {ys : List β} (h : xs.mapM f = some ys) :
    ∀ x ∈ xs, ∃ y, f x = some y := by
  induction xs generalizing ys with
  | nil => exact fun _ member => nomatch member
  | cons x xs ih =>
      obtain ⟨y, others, here, there, -⟩ := mapM_cons_eq_some.1 h
      exact List.forall_mem_cons.2 ⟨⟨y, here⟩, ih there⟩

theorem mapM_eq_of_forall₂ {f : α → Option γ} {g : β → Option γ} {xs : List α} {ys : List β}
    (h : List.Forall₂ (fun x y => f x = g y) xs ys) : xs.mapM f = ys.mapM g := by
  induction h with
  | nil => rfl
  | cons equal _ ih => rw [List.mapM_cons, List.mapM_cons, equal, ih]

theorem exists_forall₂_of_mapM {f : α → Option γ} {R : α → β → Prop}
    (each : ∀ x z, f x = some z → ∃ y, R x y) {xs : List α} {zs : List γ}
    (h : xs.mapM f = some zs) : ∃ ys, List.Forall₂ R xs ys := by
  induction xs generalizing zs with
  | nil => exact ⟨[], .nil⟩
  | cons x xs ih =>
      obtain ⟨z, others, here, there, -⟩ := mapM_cons_eq_some.1 h
      obtain ⟨y, related⟩ := each x z here
      obtain ⟨ys, all⟩ := ih there
      exact ⟨y :: ys, .cons related all⟩

theorem exists_forall₂_append {R : α → β → Prop} {first rest : List α} {ys : List β}
    (h : List.Forall₂ R (first ++ rest) ys) :
    ∃ first' rest', ys = first' ++ rest' ∧ List.Forall₂ R first first' ∧
      List.Forall₂ R rest rest' := by
  have flipped : List.Forall₂ (flip R) ys (first ++ rest) := h.flip
  exact ⟨ys.take first.length, ys.drop first.length, (List.take_append_drop _ _).symm,
    (List.forall₂_take_append _ _ _ flipped).flip, (List.forall₂_drop_append _ _ _ flipped).flip⟩

end

end ViewStyle
