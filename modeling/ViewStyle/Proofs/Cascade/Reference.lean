/-
What a log of declarations means for a view, without any table: every declaration bids for its
property with each of its selectors that fits, and the bid of the highest rank wins. The cascade
over the table of the log gives the values of the winners.
-/

import Mathlib.Data.Bool.Basic
import Mathlib.Data.Prod.Lex
import Mathlib.Order.Lex
import ViewStyle.Cascade
import ViewStyle.Proofs.Stylesheet.Replay

set_option autoImplicit false

namespace ViewStyle

def Specificity.rank (a : Specificity) : Bool ×ₗ Bool ×ₗ Nat :=
  toLex (a.traitTag, toLex (a.qualified, a.conditions))

private theorem Specificity.rank_injective : Function.Injective Specificity.rank := by
  rintro ⟨a, b, n⟩ ⟨c, d, m⟩ h
  simpa [Specificity.rank] using h

private theorem Specificity.le_iff (a b : Specificity) : a.le b = true ↔ a.rank ≤ b.rank := by
  obtain ⟨a₁, a₂, n⟩ := a
  obtain ⟨b₁, b₂, m⟩ := b
  simp only [Specificity.le, Specificity.rank, Prod.Lex.toLex_le_toLex]
  cases a₁ <;> cases b₁ <;> cases a₂ <;> cases b₂ <;> simp

namespace Cascade

/-- A selector of a log and the number of one of its declarations, counted from zero. -/
structure Bid where
  selector : Selector
  number : Nat
  declaration : Declaration

section

variable (log : List Declaration)

def leader (s : Selector) : Selector :=
  ((log.flatMap (·.selectors)).find? (·.same s)).getD s

structure Bid.Sets (key : String) (b : Bid) : Prop where
  listed : log[b.number]? = some b.declaration
  selector_mem : b.selector ∈ b.declaration.selectors
  key_eq : b.declaration.key = key

/-- The selector fits a context, too. -/
structure Bid.Applies (c : Context) (key : String) (b : Bid) : Prop extends Bid.Sets log key b where
  applies : (leader log b.selector).applies c = true

def Bid.Superseded (key : String) (b : Bid) : Prop :=
  ∃ later : Bid, later.Sets log key ∧ later.selector.same b.selector = true ∧
    b.number < later.number

/-- The bids that count for the important properties. -/
structure Bid.AppliesImportantly (c : Context) (key : String) (b : Bid) : Prop
    extends Bid.Applies log c key b where
  important : b.declaration.value.important = true
  lasting : ¬b.Superseded log key

def Bid.rank (b : Bid) : (Bool ×ₗ Bool ×ₗ Nat) ×ₗ Nat :=
  toLex ((leader log b.selector).specificity.rank, b.number)

/-- No bid of some kind has a higher rank. -/
def Bid.Wins (among : Bid → Prop) (b : Bid) : Prop :=
  among b ∧ ∀ other, among other → other.rank log ≤ b.rank log

end

variable {log : List Declaration} {c : Context} {key : String}

private theorem leader_of_find? {s : Selector} {e : Entry}
    (h : (Rules.replay log).find? s = some e) : leader log s = e.selector := by
  have found := Rules.leader?_replay log s
  simp only [Rules.leader?, h, Option.map_some] at found
  simp [leader, ← found]

private theorem leader_congr {s t : Selector} (same : s.same t = true) {d : Declaration}
    (listed : d ∈ log) (member : s ∈ d.selectors) : leader log s = leader log t := by
  have equal : (fun u : Selector => u.same s) = fun u => u.same t := by
    funext u
    simp only [Selector.same, Selector.same_iff.1 same]
  have found : ((log.flatMap (·.selectors)).find? (·.same s)).isSome = true := by
    rw [List.find?_isSome]
    exact ⟨s, List.mem_flatMap.2 ⟨d, listed, member⟩, by simp [Selector.same]⟩
  obtain ⟨first, found⟩ := Option.isSome_iff_exists.1 found
  have found' : (log.flatMap (·.selectors)).find? (·.same t) = some first := equal ▸ found
  simp [leader, found, found']

private theorem Bid.Sets.mem {b : Bid} (h : b.Sets log key) : b.declaration ∈ log :=
  List.mem_of_getElem? h.listed

private theorem Bid.exists_lasting (b : Bid) (h : b.Applies log c key) :
    ∃ later : Bid, later.Applies log c key ∧ ¬later.Superseded log key ∧
      b.rank log ≤ later.rank log := by
  by_cases superseded : b.Superseded log key
  · obtain ⟨next, sets, same, after⟩ := superseded
    have bound := (List.getElem?_eq_some_iff.1 sets.listed).1
    have stands := leader_congr same sets.mem sets.selector_mem
    have applies : next.Applies log c key := ⟨sets, stands ▸ h.applies⟩
    obtain ⟨later, applies, lasting, rank_le⟩ := exists_lasting next applies
    refine ⟨later, applies, lasting, le_trans ?_ rank_le⟩
    rw [Bid.rank, Bid.rank, stands]
    exact Prod.Lex.toLex_le_toLex.2 (.inr ⟨rfl, after.le⟩)
  · exact ⟨b, h, superseded, le_rfl⟩
termination_by log.length - b.number

structure Candidate.Matches (log : List Declaration) (x : Candidate) (b : Bid) : Prop where
  specificity_eq : x.specificity = (leader log b.selector).specificity
  declared_eq : x.declared = ⟨b.declaration.value, b.number + 1⟩

theorem mem_candidates {t : Rules} {x : Candidate} :
    x ∈ candidates t c ↔ ∃ e ∈ t.entries, e.selector.applies c = true ∧
      e.declared.find? x.key = some x.declared ∧ x.specificity = e.selector.specificity := by
  obtain ⟨specificity, key, declared⟩ := x
  simp only [candidates, List.mem_flatMap, List.mem_filter, List.mem_map, Prod.exists,
    Candidate.mk.injEq]
  constructor
  · rintro ⟨e, ⟨member, applies⟩, k, d, found, rfl, rfl, rfl⟩
    exact ⟨e, member, applies, OrderedMap.mem_entries.1 found, rfl⟩
  · rintro ⟨e, member, applies, found, rfl⟩
    exact ⟨e, ⟨member, applies⟩, key, declared, OrderedMap.mem_entries.2 found, rfl, rfl, rfl⟩

private theorem find?_congr {s t : Selector} (same : s.same t = true) (rules : Rules) :
    rules.find? s = rules.find? t := by
  simp only [Rules.find?, Selector.same, Selector.same_iff.1 same]

private theorem exists_bid_of_mem_candidates {x : Candidate}
    (h : x ∈ candidates (Rules.replay log) c) :
    ∃ b : Bid, b.Applies log c x.key ∧ ¬b.Superseded log x.key ∧ x.Matches log b := by
  obtain ⟨e, member, applies, found, specificity_eq⟩ := mem_candidates.1 h
  have entry := (Rules.mem_entries_iff (Rules.nodup_identities_replay log)).1 member
  have setting : (Rules.replay log).setting? e.selector x.key = some x.declared := by
    simp [Rules.setting?, entry, found]
  obtain ⟨i, d, listed, concerns, key_eq, declared_eq, latest⟩ :=
    Rules.setting?_replay_eq_some.1 setting
  obtain ⟨s, selector_mem, same⟩ := List.any_eq_true.1 concerns
  have stands : leader log s = e.selector :=
    leader_of_find? ((find?_congr same _).trans entry)
  refine ⟨⟨s, i, d⟩, ⟨⟨listed, selector_mem, key_eq.symm⟩, stands ▸ applies⟩, ?_, ?_⟩
  · rintro ⟨later, sets, same_later, after⟩
    refine latest later.number later.declaration after sets.listed sets.key_eq.symm ?_
    refine List.any_eq_true.2 ⟨later.selector, sets.selector_mem, ?_⟩
    exact Selector.same_iff.2 ((Selector.same_iff.1 same_later).trans (Selector.same_iff.1 same))
  · exact ⟨stands ▸ specificity_eq, declared_eq⟩

private theorem exists_candidate_of_bid {b : Bid} (applies : b.Applies log c key)
    (lasting : ¬b.Superseded log key) :
    ∃ x ∈ candidates (Rules.replay log) c, x.key = key ∧ x.Matches log b := by
  have setting : (Rules.replay log).setting? b.selector key =
      some ⟨b.declaration.value, b.number + 1⟩ := by
    refine Rules.setting?_replay_eq_some.2 ⟨b.number, b.declaration, applies.listed, ?_,
      applies.key_eq.symm, rfl, ?_⟩
    · exact List.any_eq_true.2 ⟨b.selector, applies.selector_mem, by simp [Selector.same]⟩
    · intro j d after listed key_eq concerns
      obtain ⟨s, selector_mem, same⟩ := List.any_eq_true.1 concerns
      exact lasting ⟨⟨s, j, d⟩, ⟨listed, selector_mem, key_eq.symm⟩, same, after⟩
  obtain ⟨e, entry, found⟩ := Option.bind_eq_some_iff.1 setting
  have stands := leader_of_find? entry
  refine ⟨⟨e.selector.specificity, key, ⟨b.declaration.value, b.number + 1⟩⟩, ?_, rfl, ?_⟩
  · exact mem_candidates.2
      ⟨e, List.mem_of_find?_eq_some entry, stands ▸ applies.applies, found, rfl⟩
  · exact ⟨by rw [stands], rfl⟩

def Candidate.rank (x : Candidate) : (Bool ×ₗ Bool ×ₗ Nat) ×ₗ Nat :=
  toLex (x.specificity.rank, x.declared.order)

private theorem Candidate.le_iff (x y : Candidate) : x.le y = true ↔ x.rank ≤ y.rank := by
  simp only [Candidate.le, Candidate.rank, Prod.Lex.toLex_le_toLex]
  split
  · rename_i equal
    simp [equal]
  · rename_i differ
    have rank_ne : x.specificity.rank ≠ y.specificity.rank :=
      fun h => differ (Specificity.rank_injective h)
    rw [Specificity.le_iff]
    constructor
    · exact fun h => .inl (lt_of_le_of_ne h rank_ne)
    · rintro (h | ⟨h, -⟩)
      · exact h.le
      · exact absurd h rank_ne

private theorem Candidate.Matches.rank_le_iff {x y : Candidate} {a b : Bid} (ha : x.Matches log a)
    (hb : y.Matches log b) : x.rank ≤ y.rank ↔ a.rank log ≤ b.rank log := by
  simp [Candidate.rank, Bid.rank, Prod.Lex.toLex_le_toLex, ha.specificity_eq, hb.specificity_eq,
    ha.declared_eq, hb.declared_eq]

def ranked (t : Rules) (c : Context) : List Candidate :=
  (candidates t c).mergeSort Candidate.le

private theorem pairwise_ranked (t : Rules) (c : Context) :
    (ranked t c).Pairwise fun x y => x.rank ≤ y.rank := by
  refine (List.pairwise_mergeSort ?_ ?_ (candidates t c)).imp fun h => (Candidate.le_iff _ _).1 h
  · intro x y z hxy hyz
    rw [Candidate.le_iff] at *
    exact hxy.trans hyz
  · intro x y
    rw [Bool.or_eq_true, Candidate.le_iff, Candidate.le_iff]
    exact le_total _ _

@[simp] theorem mem_ranked {t : Rules} {x : Candidate} : x ∈ ranked t c ↔ x ∈ candidates t c :=
  List.mem_mergeSort

private theorem rank_le_of_getLast? {t : Rules} {p : Candidate → Bool} {x y : Candidate}
    (h : ((ranked t c).filter p).getLast? = some y) (hx : x ∈ ranked t c) (px : p x = true) :
    x.rank ≤ y.rank := by
  have sorted := (pairwise_ranked t c).filter p
  have member : x ∈ (ranked t c).filter p := List.mem_filter.2 ⟨hx, px⟩
  obtain ⟨front, split⟩ := List.getLast?_eq_some_iff.1 h
  rw [split] at sorted member
  rcases List.mem_append.1 member with earlier | final
  · exact (List.pairwise_append.1 sorted).2.2 x earlier y (List.mem_singleton.2 rfl)
  · exact (List.mem_singleton.1 final ▸ le_rfl)

private theorem getLast?_ranked_eq_some {p : Candidate → Bool} {among : Bid → Prop}
    (listed : ∀ b, among b → log[b.number]? = some b.declaration)
    (sound : ∀ x ∈ candidates (Rules.replay log) c, p x = true →
      ∃ b, among b ∧ x.Matches log b)
    (complete : ∀ b, among b → ∃ x ∈ candidates (Rules.replay log) c, p x = true ∧
      ∃ b', x.Matches log b' ∧ b.rank log ≤ b'.rank log) (value : Value) :
    (((ranked (Rules.replay log) c).filter p).getLast?.map (·.declared.value)) = some value ↔
      ∃ b : Bid, b.Wins log among ∧ b.declaration.value = value := by
  constructor
  · intro h
    obtain ⟨y, last, rfl⟩ := Option.map_eq_some_iff.1 h
    obtain ⟨member, py⟩ := List.mem_filter.1 (List.mem_of_getLast? last)
    obtain ⟨b, hb, matched⟩ := sound y (mem_ranked.1 member) py
    refine ⟨b, ⟨hb, ?_⟩, by rw [matched.declared_eq]⟩
    intro other hother
    obtain ⟨x, hx, px, b', matched', rank_le⟩ := complete other hother
    exact rank_le.trans
      ((matched'.rank_le_iff matched).1 (rank_le_of_getLast? last (mem_ranked.2 hx) px))
  · rintro ⟨b, ⟨hb, greatest⟩, rfl⟩
    obtain ⟨x, hx, px, b', matched', rank_le⟩ := complete b hb
    have member : x ∈ (ranked (Rules.replay log) c).filter p :=
      List.mem_filter.2 ⟨mem_ranked.2 hx, px⟩
    obtain ⟨y, last⟩ := Option.isSome_iff_exists.1
      (List.getLast?_isSome.2 (List.ne_nil_of_mem member))
    obtain ⟨member, py⟩ := List.mem_filter.1 (List.mem_of_getLast? last)
    obtain ⟨a, ha, matched⟩ := sound y (mem_ranked.1 member) py
    have below : b'.rank log ≤ a.rank log :=
      (matched'.rank_le_iff matched).1 (rank_le_of_getLast? last (mem_ranked.2 hx) px)
    have equal : a.rank log = b.rank log :=
      le_antisymm (greatest a ha) (rank_le.trans below)
    -- equal ranks belong to one declaration, and that has one value
    have number_eq : a.number = b.number := (Prod.ext_iff.1 (toLex.injective equal)).2
    have declaration_eq : a.declaration = b.declaration := by
      have here := listed a ha
      rw [number_eq, listed b hb] at here
      exact (Option.some.inj here).symm
    rw [last, Option.map_some, matched.declared_eq, declaration_eq]

private theorem isSome_getLast?_ranked {p : Candidate → Bool} {among : Bid → Prop}
    (sound : ∀ x ∈ candidates (Rules.replay log) c, p x = true →
      ∃ b, among b ∧ x.Matches log b)
    (complete : ∀ b, among b → ∃ x ∈ candidates (Rules.replay log) c, p x = true ∧
      ∃ b', x.Matches log b' ∧ b.rank log ≤ b'.rank log) :
    ((ranked (Rules.replay log) c).filter p).getLast?.isSome = true ↔ ∃ b, among b := by
  rw [List.getLast?_isSome]
  constructor
  · intro nonempty
    obtain ⟨x, hx⟩ := List.exists_mem_of_ne_nil _ nonempty
    obtain ⟨member, px⟩ := List.mem_filter.1 hx
    obtain ⟨b, hb, -⟩ := sound x (mem_ranked.1 member) px
    exact ⟨b, hb⟩
  · rintro ⟨b, hb⟩
    obtain ⟨x, hx, px, -⟩ := complete b hb
    exact List.ne_nil_of_mem (List.mem_filter.2 ⟨mem_ranked.2 hx, px⟩)

private theorem find?_all_foldl_apply (l : List Candidate) (style : Style) (key : String) :
    (l.foldl apply style).all.values.find? key =
      ((l.filter (·.key == key)).getLast?.map (·.declared.value)).or
        (style.all.values.find? key) := by
  induction l generalizing style with
  | nil => simp
  | cons x l ih =>
      rw [List.foldl_cons, ih, List.filter_cons]
      by_cases h : x.key = key
      · subst h
        rw [if_pos (by simp), List.getLast?_cons]
        cases (l.filter (·.key == x.key)).getLast? <;> simp [apply]
      · rw [if_neg (by simpa using h)]
        simp [apply, Ne.symm h]

private theorem find?_important_foldl_apply (l : List Candidate) (style : Style) (key : String) :
    (l.foldl apply style).important.values.find? key =
      ((l.filter fun x => x.key == key && x.declared.value.important).getLast?.map
        (·.declared.value)).or (style.important.values.find? key) := by
  induction l generalizing style with
  | nil => simp
  | cons x l ih =>
      rw [List.foldl_cons, ih, List.filter_cons]
      by_cases h : x.key = key ∧ x.declared.value.important = true
      · obtain ⟨rfl, important⟩ := h
        rw [if_pos (by simp [important]), List.getLast?_cons]
        cases (l.filter fun y => y.key == x.key && y.declared.value.important).getLast? <;>
          simp [apply, important]
      · rw [if_neg (by simpa using h)]
        by_cases important : x.declared.value.important = true
        · have other : ¬key = x.key := fun equal => h ⟨equal.symm, important⟩
          simp [apply, important, other]
        · simp [apply, important]

theorem compute_all (t : Rules) (globals : Rule) (c : Context) (key : String) :
    (Stylesheet.compute ⟨t, globals⟩ c).all.values.find? key =
      ((ranked t c).filter (·.key == key)).getLast?.map (·.declared.value) := by
  rw [Stylesheet.compute, find?_all_foldl_apply]
  exact Option.or_none

theorem compute_important (t : Rules) (globals : Rule) (c : Context) (key : String) :
    (Stylesheet.compute ⟨t, globals⟩ c).important.values.find? key =
      ((ranked t c).filter fun x => x.key == key && x.declared.value.important).getLast?.map
        (·.declared.value) := by
  rw [Stylesheet.compute, find?_important_foldl_apply]
  exact Option.or_none

/-- The style that a log gives a view: a property has the value of its bid of the highest rank,
and is important with the value of the highest one of those that are important and last. -/
theorem compute_replay (log : List Declaration) (globals : Rule) (c : Context) (key : String) :
    let style := Stylesheet.compute ⟨Rules.replay log, globals⟩ c
    (∀ value, style.all.values.find? key = some value ↔
      ∃ b : Bid, b.Wins log (Bid.Applies log c key) ∧ b.declaration.value = value) ∧
    (style.all.values.contains key = true ↔ ∃ b, Bid.Applies log c key b) ∧
    (∀ value, style.important.values.find? key = some value ↔
      ∃ b : Bid, b.Wins log (Bid.AppliesImportantly log c key) ∧ b.declaration.value = value) ∧
    (style.important.values.contains key = true ↔ ∃ b, Bid.AppliesImportantly log c key b) := by
  have sound : ∀ x ∈ candidates (Rules.replay log) c, (x.key == key) = true →
      ∃ b, Bid.Applies log c key b ∧ x.Matches log b := by
    intro x hx here
    obtain ⟨b, applies, -, matched⟩ := exists_bid_of_mem_candidates hx
    exact ⟨b, eq_of_beq here ▸ applies, matched⟩
  have complete : ∀ b, Bid.Applies log c key b →
      ∃ x ∈ candidates (Rules.replay log) c, (x.key == key) = true ∧
        ∃ b', x.Matches log b' ∧ b.rank log ≤ b'.rank log := by
    intro b hb
    obtain ⟨later, applies, lasting, rank_le⟩ := b.exists_lasting hb
    obtain ⟨x, hx, here, matched⟩ := exists_candidate_of_bid applies lasting
    exact ⟨x, hx, beq_iff_eq.2 here, later, matched, rank_le⟩
  have sound_important : ∀ x ∈ candidates (Rules.replay log) c,
      (x.key == key && x.declared.value.important) = true →
        ∃ b, Bid.AppliesImportantly log c key b ∧ x.Matches log b := by
    intro x hx both
    obtain ⟨here, important⟩ := Bool.and_eq_true_iff.1 both
    obtain ⟨b, applies, lasting, matched⟩ := exists_bid_of_mem_candidates hx
    rw [matched.declared_eq] at important
    obtain rfl := eq_of_beq here
    exact ⟨b, ⟨applies, important, lasting⟩, matched⟩
  have complete_important : ∀ b, Bid.AppliesImportantly log c key b →
      ∃ x ∈ candidates (Rules.replay log) c,
        (x.key == key && x.declared.value.important) = true ∧
          ∃ b', x.Matches log b' ∧ b.rank log ≤ b'.rank log := by
    intro b hb
    obtain ⟨x, hx, here, matched⟩ := exists_candidate_of_bid hb.toApplies hb.lasting
    refine ⟨x, hx, ?_, b, matched, le_rfl⟩
    rw [matched.declared_eq, beq_iff_eq.2 here]
    exact hb.important
  intro style
  refine ⟨fun value => ?_, ?_, fun value => ?_, ?_⟩
  · rw [compute_all]
    exact getLast?_ranked_eq_some (fun _ h => h.listed) sound complete value
  · rw [OrderedMap.contains, compute_all, Option.isSome_map]
    exact isSome_getLast?_ranked sound complete
  · rw [compute_important]
    exact getLast?_ranked_eq_some (fun _ h => h.listed) sound_important complete_important value
  · rw [OrderedMap.contains, compute_important, Option.isSome_map]
    exact isSome_getLast?_ranked sound_important complete_important

end Cascade

end ViewStyle
