/-
Every property of a stylesheet that was read, and so of every style that comes from it, is listed
under the normal form of its path.
-/

import ViewStyle.Proofs.Cascade.Reference
import ViewStyle.Stylesheet.Source

set_option autoImplicit false

namespace ViewStyle

open Text (Span)

namespace Text

private theorem lt_longCapitals : ∀ e ∈ longCapitals.toList, ∀ n ∈ e.2, 46 < n := by
  decide +kernel

private theorem lt_capitalRuns : ∀ r ∈ capitalRuns.toList, (46 : Int) < (r.1 : Int) + r.2.2.2 := by
  decide +kernel

private theorem toUpper_eq_or_lt :
    ∀ n < 128, (Char.ofNat n).toUpper = Char.ofNat n ∨ 46 < (Char.ofNat n).toUpper.toNat := by
  decide +kernel

private theorem ofNat_ne {n : Nat} {d : Char} (visible : d ≠ '\x00') (h : n ≠ d.toNat) :
    Char.ofNat n ≠ d := by
  intro equal
  by_cases valid : n.isValidChar
  · have code := congrArg Char.toNat equal
    rw [Char.ofNat, dif_pos valid] at code
    exact h code
  · rw [Char.ofNat, dif_neg valid] at equal
    exact visible equal.symm

private theorem mark_notMem_capital {c d : Char} (low : d.toNat ≤ 46) (visible : d ≠ '\x00')
    (h : c ≠ d) : d ∉ capital c := by
  unfold capital
  split
  · rename_i ascii
    have upper := toUpper_eq_or_lt c.toNat ascii
    rw [Char.ofNat_toNat] at upper
    rw [List.mem_singleton]
    rintro rfl
    rcases upper with same | above
    · exact h same.symm
    · omega
  · split
    · rename_i e found
      have listed := lt_longCapitals _ (Array.mem_toList_iff.2 (Array.mem_of_find?_eq_some found))
      intro member
      obtain ⟨n, hn, equal⟩ := List.mem_map.1 member
      have beyond : n ≠ d.toNat := by
        have := listed n hn
        omega
      exact ofNat_ne visible beyond equal
    · split
      · rename_i first last step shift found
        have above := lt_capitalRuns _ (Array.mem_toList_iff.2 (Array.mem_of_find?_eq_some found))
        have inside := Array.find?_some found
        simp only [Bool.and_eq_true, decide_eq_true_eq] at inside
        dsimp only at above
        have beyond : ((c.toNat : Int) + shift).toNat ≠ d.toNat := by omega
        simpa using (ofNat_ne visible beyond).symm
      · simpa using h.symm

end Text

namespace KeyPath

theorem hyphen_notMem_withoutHyphens (started raised : Bool) (path : List Char) :
    '-' ∉ withoutHyphens started raised path := by
  fun_induction withoutHyphens started raised path with
  | case1 => exact List.not_mem_nil
  | case2 _ _ cs ih => simpa using ih
  | case3 _ _ cs ih => exact ih
  | case4 _ raised c cs _ notHyphen ih =>
      rw [List.mem_append, not_or]
      refine ⟨?_, ih⟩
      cases raised with
      | false => simpa using fun h => notHyphen h.symm
      | true => exact Text.mark_notMem_capital (by decide) (by decide) notHyphen

private theorem withoutHyphens_eq_self {path : List Char} (h : '-' ∉ path) (started : Bool) :
    withoutHyphens started false path = path := by
  induction path generalizing started with
  | nil => rfl
  | cons c cs ih =>
      rw [List.mem_cons, not_or] at h
      unfold withoutHyphens
      split
      · cases ‹_ = _›
      · rename_i heq
        cases heq
        rw [ih h.2]
      · rename_i heq
        cases heq
        exact absurd rfl h.1
      · rename_i heq
        cases heq
        simp [ih h.2]

/-- A path in normal form is its own normal form. -/
theorem ofText_text (path : String) : ofText (ofText path).text = ofText path := by
  simp only [ofText, String.toList_ofList]
  rw [withoutHyphens_eq_self (hyphen_notMem_withoutHyphens _ _ _)]

private theorem splitOn_append_of_notMem {α : Type} [BEq α] [LawfulBEq α] {a : α} {front : List α}
    (h : a ∉ front) (rest : List α) :
    (front ++ rest).splitOn a = (rest.splitOn a).modifyHead (front ++ ·) := by
  induction front with
  | nil =>
      rw [List.nil_append]
      exact (congrFun List.modifyHead_id _).symm
  | cons b front ih =>
      rw [List.mem_cons, not_or] at h
      rw [List.cons_append, List.splitOn_cons_eq_if_modifyHead, ih h.2,
        if_neg (by simpa using Ne.symm h.1), List.modifyHead_modifyHead]
      rfl

private theorem splitOn_withoutHyphens (started raised : Bool) (path : List Char) :
    ∃ first others, path.splitOn '.' = first :: others ∧
      (withoutHyphens started raised path).splitOn '.' =
        withoutHyphens started raised first :: others.map (withoutHyphens false false) := by
  fun_induction withoutHyphens started raised path with
  | case1 => exact ⟨[], [], rfl, rfl⟩
  | case2 _ _ cs ih =>
      obtain ⟨first, others, names, normal⟩ := ih
      refine ⟨[], first :: others, ?_, ?_⟩
      · rw [List.splitOn_cons_eq_if_modifyHead, if_pos (beq_self_eq_true _), names]
      · rw [List.splitOn_cons_eq_if_modifyHead, if_pos (beq_self_eq_true _), normal]
        rfl
  | case3 _ _ cs ih =>
      obtain ⟨first, others, names, normal⟩ := ih
      refine ⟨'-' :: first, others, ?_, normal⟩
      rw [List.splitOn_cons_eq_if_modifyHead, if_neg (by decide), names]
      rfl
  | case4 started raised c cs notPoint notHyphen ih =>
      obtain ⟨first, others, names, normal⟩ := ih
      refine ⟨c :: first, others, ?_, ?_⟩
      · rw [List.splitOn_cons_eq_if_modifyHead, if_neg (by simpa using notPoint), names]
        rfl
      · have front : '.' ∉ if raised then Text.capital c else [c] := by
          cases raised with
          | false => simpa using fun h => notPoint h.symm
          | true => exact Text.mark_notMem_capital (by decide) (by decide) notPoint
        rw [splitOn_append_of_notMem front, normal, withoutHyphens]
        · rfl
        · exact notPoint
        · exact notHyphen

private theorem names_eq (path : String) :
    names path = (path.toList.splitOn '.').map String.ofList :=
  String.toList_split_char

theorem names_ofText (path : String) :
    names (ofText path).text = (names path).map fun name => (ofText name).text := by
  obtain ⟨first, others, split, normal⟩ := splitOn_withoutHyphens false false path.toList
  rw [names_eq, names_eq, ofText, String.toList_ofList, normal, split]
  simp [ofText]

/-- The text is that of a path in normal form. -/
def Normal (path : String) : Prop := (ofText path).text = path

theorem normal_text (path : String) : Normal (ofText path).text :=
  congrArg KeyPath.text (ofText_text path)

end KeyPath

namespace Rules

/-- What holds of all rules that are built from no rules. Declarations are for paths that were
read. -/
structure Closed (P : Rules → Prop) : Prop where
  empty : P ∅
  introduce : ∀ t s, P t → P (t.introduce s)
  declare : ∀ t s path value order, P t → P (t.declare s (KeyPath.ofText path) value order)
  nextOrder : ∀ t, P t → P t.nextOrder.2

variable {P : Rules → Prop}

private theorem Closed.foldl_introduce (closed : Closed P) (selectors : List Selector) {t : Rules}
    (h : P t) : P (selectors.foldl Rules.introduce t) := by
  induction selectors generalizing t with
  | nil => exact h
  | cons s selectors ih => exact ih (closed.introduce t s h)

private theorem Closed.foldl_declare (closed : Closed P) (selectors : List Selector) (path : String)
    (value : Value) (order : Nat) {t : Rules} (h : P t) :
    P (selectors.foldl (fun t s => t.declare s (KeyPath.ofText path) value order) t) := by
  induction selectors generalizing t with
  | nil => exact h
  | cons s selectors ih => exact ih (closed.declare t s path value order h)

def Normal (t : Rules) : Prop :=
  ∀ e ∈ t.entries, ∀ key declared, e.declared.find? key = some declared → KeyPath.Normal key

theorem closed_normal : Closed Normal where
  empty := by
    intro e member
    cases member
  introduce t s h := by
    intro e member key declared found
    unfold introduce at member
    split at member
    · exact h e member key declared found
    · rcases List.mem_append.1 member with old | new
      · exact h e old key declared found
      · rw [List.mem_singleton.1 new] at found
        cases found
  declare t s path value order h := by
    intro e member key declared found
    obtain ⟨old, listed, rfl⟩ := List.mem_map.1 member
    have before : ∀ key declared, old.declared.find? key = some declared → KeyPath.Normal key := by
      unfold introduce at listed
      split at listed
      · exact h old listed
      · rcases List.mem_append.1 listed with listed | new
        · exact h old listed
        · rw [List.mem_singleton.1 new]
          intro key declared found
          cases found
    split at found
    · rw [OrderedMap.find?_insert] at found
      split at found
      · rename_i here
        exact here ▸ KeyPath.normal_text path
      · exact before key declared found
    · exact before key declared found
  nextOrder t h := h

end Rules

namespace Builder

variable {last : Option Span} {registry : Registry} {P : Rules → Prop}

theorem sheet_value {s s' : State} {tokens : List Token} {important : Bool} {value : Value}
    (h : s.value registry tokens important = .ok (value, s')) : s'.sheet = s.sheet := by
  unfold State.value at h
  dsimp only at h
  split at h
  · cases h
    rfl
  · split at h
    · cases h
    · cases h
      rfl

private theorem rules_declaration (closed : Rules.Closed P) {s s' : State}
    {selectors : List Selector} {tokens rest : List Token}
    (h : declaration last registry s selectors tokens = .ok (s', rest)) (before : P s.sheet.rules) :
    P s'.sheet.rules := by
  obtain ⟨⟨key, _⟩, -, h⟩ := bind_eq_ok h
  obtain ⟨⟨_, _⟩, -, h⟩ := bind_eq_ok h
  dsimp only at h
  split at h
  · exact absurd h (unexpected_ne_ok last)
  · obtain ⟨_, -, h⟩ := bind_eq_ok h
    obtain ⟨⟨value, s₁⟩, hv, h⟩ := bind_eq_ok h
    cases h
    have same := sheet_value hv
    exact closed.foldl_declare selectors (String.ofList key) value _
      (closed.nextOrder _ (same ▸ before))

private theorem rules_definition {s s' : State} {name : String} {tokens rest : List Token}
    (h : definition last registry s name tokens = .ok (s', rest)) :
    s'.sheet.rules = s.sheet.rules := by
  obtain ⟨_, -, h⟩ := bind_eq_ok h
  obtain ⟨⟨_, _⟩, -, h⟩ := bind_eq_ok h
  dsimp only at h
  split at h
  · exact absurd h (unexpected_ne_ok last)
  · obtain ⟨_, -, h⟩ := bind_eq_ok h
    obtain ⟨⟨_, _⟩, hv, h⟩ := bind_eq_ok h
    cases h
    have same := sheet_value hv
    show Stylesheet.rules _ = _
    rw [same]

private theorem rules_statement (closed : Rules.Closed P) {s : State} {scopes : List Scope}
    {token : Token} {rest : List Token} {p : Progress}
    (h : statement last registry s scopes token rest = .ok p) (before : P s.sheet.rules) :
    P p.state.sheet.rules := by
  unfold statement at h
  split at h
  · unfold topLevel at h
    split at h
    · cases h
      exact before
    · split at h
      · obtain ⟨_, -, h⟩ := bind_eq_ok h
        cases h
        exact before
      · cases h
    · obtain ⟨⟨selectors, _⟩, -, h⟩ := bind_eq_ok h
      obtain ⟨_, -, h⟩ := bind_eq_ok h
      cases h
      exact closed.foldl_introduce selectors before
  · unfold inGlobals at h
    split at h
    · cases h
      exact before
    · cases h
      exact before
    · obtain ⟨⟨_, _⟩, hd, h⟩ := bind_eq_ok h
      cases h
      exact rules_definition hd ▸ before
    · cases h
  · unfold inRules at h
    split at h
    · cases h
      exact before
    · cases h
      exact before
    · obtain ⟨_, -, h⟩ := bind_eq_ok h
      obtain ⟨_, -, h⟩ := bind_eq_ok h
      obtain ⟨nested, -, h⟩ := bind_eq_ok h
      cases h
      exact closed.foldl_introduce nested before
    · obtain ⟨⟨_, _⟩, hd, h⟩ := bind_eq_ok h
      cases h
      exact rules_declaration closed hd before

private theorem rules_run (closed : Rules.Closed P) {s s' : State} {scopes : List Scope}
    {tokens : List Token} (h : run last registry s scopes tokens = .ok s')
    (before : P s.sheet.rules) : P s'.sheet.rules := by
  fun_induction run last registry s scopes tokens with
  | case1 =>
      cases h
      exact before
  | case2 => exact absurd h (unexpected_ne_ok last)
  | case3 => cases h
  | case4 s scopes token rest p hs _ ih => exact ih h (rules_statement closed hs before)

private theorem rules_build (closed : Rules.Closed P) {serial : Nat} {tokens : List Token}
    {s : State} (h : build registry serial tokens = .ok s) : P s.sheet.rules :=
  rules_run closed h closed.empty

end Builder

theorem Reader.rules_build {P : Rules → Prop} (closed : Rules.Closed P) {reader : Reader}
    {tokens : List Token} {s : Builder.State} (h : reader.build tokens = .ok s) :
    P s.sheet.rules := by
  unfold Reader.build at h
  split at h
  · cases h
  · rename_i built
    cases h
    exact Builder.rules_build closed built

namespace Cascade

theorem normal_of_find?_compute {t : Rules} (normal : t.Normal) (globals : Rule) (c : Context)
    {key : String} {value : Value}
    (h : (Stylesheet.compute ⟨t, globals⟩ c).all.values.find? key = some value ∨
      (Stylesheet.compute ⟨t, globals⟩ c).important.values.find? key = some value) :
    KeyPath.Normal key := by
  have ranked_normal : ∀ x ∈ ranked t c, KeyPath.Normal x.key := by
    intro x member
    obtain ⟨e, listed, -, found, -⟩ := mem_candidates.1 (mem_ranked.1 member)
    exact normal e listed x.key x.declared found
  rw [compute_all, compute_important] at h
  rcases h with h | h
  · obtain ⟨x, found, -⟩ := Option.map_eq_some_iff.1 h
    obtain ⟨member, here⟩ := List.mem_filter.1 (List.mem_of_getLast? found)
    exact eq_of_beq here ▸ ranked_normal x member
  · obtain ⟨x, found, -⟩ := Option.map_eq_some_iff.1 h
    obtain ⟨member, both⟩ := List.mem_filter.1 (List.mem_of_getLast? found)
    exact eq_of_beq (Bool.and_eq_true_iff.1 both).1 ▸ ranked_normal x member

end Cascade

end ViewStyle
