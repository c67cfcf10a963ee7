/-
Conditions are read by their precedences. Each parser takes exactly what its layer of the grammar
derives: what it accepts is derived, and what is derived is accepted if the tokens behind it do not
go on with it. The main statement: a condition is accepted if and only if it is derived with no more
operators and no deeper nesting than allowed, and its expression is unique.
-/

import ViewStyle.Except
import ViewStyle.Proofs.Condition.Layers

set_option autoImplicit false

namespace ViewStyle

open Text (Span)

namespace Expr

private theorem atWord_eq_true {word : String} {tokens : List Token}
    (h : atWord word tokens = true) :
    ∃ found span spaced rest, tokens = ⟨.ident found, span, spaced⟩ :: rest ∧
      Token.spells word found = true := by
  unfold atWord at h
  split at h
  · exact ⟨_, _, _, _, rfl, h⟩
  · cases h

structure Joint.Exact (layer : Layer) (joint : Joint) : Prop where
  sound : ∀ {tokens combine rest}, joint tokens = some (combine, rest) →
    ∃ between, tokens = between ++ rest ∧
      ∀ right later, rest = right ++ later → right ≠ [] → Links layer between right combine
  complete : ∀ {between right combine}, Links layer between right combine → ∀ later,
    joint (between ++ (right ++ later)) = some (combine, right ++ later)
  stops : ∀ {tokens}, Stops layer tokens → joint tokens = none

private theorem exact_wordJoint {layer : Layer} {word : String} {combine : Expr → Expr → Expr}
    (links : ∀ {found : String} (right : List Token) (span : Span) (spaced : Bool),
      Token.spells word found = true → Links layer [⟨.ident found, span, spaced⟩] right combine)
    (only : ∀ {between right combine'}, Links layer between right combine' → combine' = combine ∧
      ∃ found span spaced, between = [⟨.ident found, span, spaced⟩] ∧
        Token.spells word found = true)
    (layer_eq : ∀ {found}, Token.spells word found = true →
      linkLayer? (.ident found) = some layer) :
    Joint.Exact layer (wordJoint word combine) where
  sound := by
    intro tokens combine' rest h
    unfold wordJoint at h
    split at h
    · rename_i here
      obtain ⟨found, span, spaced, rest, rfl, spells⟩ := atWord_eq_true here
      cases h
      exact ⟨[_], rfl, fun right _ _ _ => links right span spaced spells⟩
    · cases h
  complete := by
    intro between right combine' h later
    obtain ⟨rfl, found, span, spaced, rfl, spells⟩ := only h
    exact if_pos spells
  stops := by
    intro tokens h
    refine if_neg fun here => ?_
    obtain ⟨found, span, spaced, rest, rfl, spells⟩ := atWord_eq_true here
    exact h.linkLayer?_ne (layer_eq spells)

private theorem exact_or : Joint.Exact .disjunction (wordJoint "or" .or) := by
  refine exact_wordJoint .or ?_ linkLayer?_or
  intro between right combine h
  cases h with
  | or _ span spaced spells => exact ⟨rfl, _, span, spaced, rfl, spells⟩

private theorem exact_and : Joint.Exact .conjunction (wordJoint "and" .and) := by
  refine exact_wordJoint .and ?_ linkLayer?_and
  intro between right combine h
  cases h with
  | and _ span spaced spells => exact ⟨rfl, _, span, spaced, rfl, spells⟩

private theorem exact_sumJoint : Joint.Exact .sum sumJoint where
  sound := by
    intro tokens combine rest h
    unfold sumJoint at h
    split at h
    · cases h
      exact ⟨[_], rfl, fun right _ _ _ => .term right _ _ rfl rfl⟩
    · cases h
      exact ⟨[_], rfl, fun right _ _ _ => .term right _ _ rfl rfl⟩
    · split at h
      · rename_i signed
        cases h
        refine ⟨[], rfl, fun right later split nonempty => ?_⟩
        cases right with
        | nil => exact absurd rfl nonempty
        | cons token right =>
            cases (List.cons.inj split).1
            exact .sign _ _ _ _ _ signed
      · cases h
    · cases h
  complete := by
    intro between right combine h later
    cases h with
    | @term op arithmetic _ span spaced known sum =>
        cases op with
        | plus =>
            cases known
            rfl
        | minus =>
            cases known
            rfl
        | star =>
            cases known
            cases sum
        | slash =>
            cases known
            cases sum
        | _ => cases known
    | sign value unit span spaced rest signed => exact if_pos signed
  stops := by
    intro tokens h
    unfold sumJoint
    split
    · exact absurd rfl h.linkLayer?_ne
    · exact absurd rfl h.linkLayer?_ne
    · refine if_neg fun signed => ?_
      exact h.linkLayer?_ne (linkLayer?_sign signed _ _)
    · rfl

private theorem exact_productJoint : Joint.Exact .product productJoint where
  sound := by
    intro tokens combine rest h
    unfold productJoint at h
    split at h
    · cases h
      exact ⟨[_], rfl, fun right _ _ _ => .factor right _ _ rfl rfl⟩
    · cases h
      exact ⟨[_], rfl, fun right _ _ _ => .factor right _ _ rfl rfl⟩
    · cases h
  complete := by
    intro between right combine h later
    cases h with
    | @factor op arithmetic _ span spaced known product =>
        cases op with
        | star =>
            cases known
            rfl
        | slash =>
            cases known
            rfl
        | plus =>
            cases known
            cases product
        | minus =>
            cases known
            cases product
        | _ => cases known
  stops := by
    intro tokens h
    unfold productJoint
    split
    · exact absurd rfl h.linkLayer?_ne
    · exact absurd rfl h.linkLayer?_ne
    · rfl

theorem names_takePath (path : String) (tokens : List Token) :
    ∃ used, tokens = used ++ (takePath path tokens).2 ∧ Names path used (takePath path tokens).1 := by
  fun_induction takePath path tokens with
  | case1 path span segment span' rest ih =>
      obtain ⟨used, split, names⟩ := ih
      exact ⟨_ :: _ :: used, by rw [List.cons_append, List.cons_append, ← split],
        .segment segment span span' names⟩
  | case2 path rest => exact ⟨[], rfl, .done path⟩

private theorem takePath_of_names {path whole : String} {used rest : List Token}
    (names : Names path used whole) (stops : Stops .primary rest) :
    takePath path (used ++ rest) = (whole, rest) := by
  induction names with
  | done path =>
      rw [List.nil_append]
      unfold takePath
      split
      · exact absurd rfl stops.linkLayer?_ne
      · rfl
  | segment segment span span' _ ih =>
      rw [List.cons_append, List.cons_append, takePath]
      exact ih

private theorem comparison?_of_stops {tokens : List Token} (h : Stops .relation tokens) :
    comparison? tokens = none := by
  unfold comparison?
  split
  · rename_i op span spaced rest
    cases known : Comparison.ofOperator? op with
    | none => rfl
    | some comparison => exact absurd (linkLayer?_comparison known) h.linkLayer?_ne
  · rfl

structure Exact (derives : List Token → Expr → Nat → Prop) (stops : List Token → Prop)
    (parser : Reading → Outcome) : Prop where
  sound : ∀ {s e s'}, parser s = .ok (e, s') →
    ∃ used n, s.rest = used ++ s'.rest ∧ s.spare = s'.spare + n ∧ derives used e n
  complete : ∀ {used e n}, derives used e n → ∀ {rest}, stops rest → ∀ spare,
    parser ⟨used ++ rest, spare + n⟩ = .ok (e, ⟨rest, spare⟩)

section

variable {last : Option Span} {room : Nat}

private theorem fail_ne_ok {α : Type} {s : Reading} {fault : ConditionFault} {a : α} :
    s.fail last fault ≠ .ok a :=
  nofun

private theorem rest_spend {s s' : Reading} {rest : List Token} (h : s.spend last rest = .ok s') :
    s'.rest = rest := by
  unfold Reading.spend at h
  split at h
  · cases h
  · cases h
    rfl

private theorem spare_spend {s s' : Reading} {rest : List Token} (h : s.spend last rest = .ok s') :
    s.spare = s'.spare + 1 := by
  unfold Reading.spend at h
  split at h
  · cases h
  · rename_i spare eq
    cases h
    exact eq

section

variable {layer next : Layer} {joint : Joint} {operand : Reading → Outcome}

private theorem chain_sound (eq : layer.tighter? = some next) (links : joint.Exact layer)
    (exact : Exact (Within room next) (Stops next) operand) {limit n : Nat} {left e : Expr}
    {s s' : Reading} {before : List Token} (read : Within room layer before left n)
    (h : chain last joint operand limit left s = .ok (e, s')) :
    ∃ used m, s.rest = used ++ s'.rest ∧ s.spare = s'.spare + m ∧
      Within room layer (before ++ used) e (n + m) := by
  induction limit generalizing left s before n with
  | zero =>
      unfold chain at h
      split at h
      · cases h
        exact ⟨[], 0, rfl, rfl, by simpa using read⟩
      · exact absurd h fail_ne_ok
  | succ limit ih =>
      unfold chain at h
      split at h
      · cases h
        exact ⟨[], 0, rfl, rfl, by simpa using read⟩
      · rename_i combine rest found
        obtain ⟨spent, spend, h⟩ := bind_eq_ok h
        obtain ⟨⟨right, s₁⟩, operand_eq, h⟩ := bind_eq_ok h
        obtain ⟨between, joint_split, joins⟩ := links.sound found
        obtain ⟨right_used, m, right_split, right_spare, right_read⟩ := exact.sound operand_eq
        rw [rest_spend spend] at right_split
        have linked := joins right_used s₁.rest right_split right_read.ne_nil
        obtain ⟨used, k, split, spare, reads⟩ := ih (read.link eq linked right_read) h
        refine ⟨between ++ right_used ++ used, m + 1 + k, ?_, ?_, ?_⟩
        · rw [joint_split, right_split, split]
          simp
        · rw [spare_spend spend, right_spare, spare]
          omega
        · have cost : n + (m + 1 + k) = n + m + 1 + k := by omega
          rw [cost]
          simpa using reads

private theorem exists_chain (eq : layer.tighter? = some next) (assoc : layer.associates = true)
    (links : joint.Exact layer) (exact : Exact (Within room next) (Stops next) operand)
    {used : List Token} {e : Expr} {n : Nat} (h : Within room layer used e n) {rest : List Token}
    (stops : Stops next rest) (spare : Nat) :
    ∃ limit ≥ spare, chained last joint operand ⟨used ++ rest, spare + n⟩ =
      chain last joint operand limit e ⟨rest, spare⟩ := by
  induction h using Within.link_induction eq assoc generalizing rest spare with
  | one tokens e n operand_read =>
      refine ⟨spare, Nat.le_refl _, ?_⟩
      rw [chained, exact.complete operand_read stops]
      rfl
  | more left between right l r combine m n _ linked right_read ih =>
      obtain ⟨limit, le, read⟩ := ih (linked.stops eq rest) (spare + n + 1)
      obtain ⟨limit, rfl⟩ : ∃ k, limit = k + 1 := ⟨limit - 1, by omega⟩
      refine ⟨limit, by omega, ?_⟩
      have cost : spare + (m + n + 1) = spare + n + 1 + m := by omega
      rw [cost, List.append_assoc, List.append_assoc, read, chain, links.complete linked]
      dsimp only [Reading.spend]
      rw [ok_bind, exact.complete right_read stops, ok_bind]

private theorem exact_chained (eq : layer.tighter? = some next) (assoc : layer.associates = true)
    (links : joint.Exact layer) (exact : Exact (Within room next) (Stops next) operand) :
    Exact (Within room layer) (Stops layer) (chained last joint operand) where
  sound := by
    intro s e s' h
    obtain ⟨⟨left, s₁⟩, first, h⟩ := bind_eq_ok h
    obtain ⟨before, n, before_split, before_spare, read⟩ := exact.sound first
    obtain ⟨used, m, split, spare, reads⟩ := chain_sound eq links exact (read.tighter eq) h
    refine ⟨before ++ used, n + m, ?_, ?_, reads⟩
    · rw [before_split, split, List.append_assoc]
    · rw [before_spare, spare]
      omega
  complete := by
    intro used e n h rest stops spare
    obtain ⟨limit, -, read⟩ := exists_chain eq assoc links exact h (stops.tighter eq) spare
    rw [read]
    cases limit <;> rw [chain, links.stops stops]

end

structure Level.Exact (room : Nat) (level : Level) : Prop where
  disjunction : Expr.Exact (Within room .disjunction) (Stops .disjunction) level.disjunction
  inversion : Expr.Exact (Within room .inversion) (Stops .inversion) level.inversion
  signed : Expr.Exact (Within room .signed) (Stops .signed) level.signed

inductive Inner : Nat → Option Level → Prop
  | none : Inner 0 none
  | some {room : Nat} {level : Level} : level.Exact room → Inner (room + 1) (some level)

section

variable {inner : Option Level} {layer : Layer} {operand : Level → Reading → Outcome}
  {combine : Expr → Expr}

private theorem inFront_sound (inside : Inner room inner)
    (exact : ∀ {room level}, level.Exact room →
      Exact (Within room layer) (Stops layer) (operand level)) {s s' : Reading} {e : Expr}
    (h : inFront last combine operand inner s = .ok (e, s')) :
    ∃ used e' n nesting, s.rest.tail = used ++ s'.rest ∧ s.spare = s'.spare + (n + 1) ∧
      nesting + 1 ≤ room ∧ Derives layer used e' n nesting ∧ e = combine e' := by
  obtain ⟨next, spend, h⟩ := bind_eq_ok h
  cases inside with
  | none => exact absurd h fail_ne_ok
  | some level_exact =>
      obtain ⟨⟨e', s₁⟩, operand_eq, h⟩ := bind_eq_ok h
      cases h
      obtain ⟨used, n, split, spare, nesting, le, derives⟩ := (exact level_exact).sound operand_eq
      rw [rest_spend spend] at split
      refine ⟨used, e', n, nesting, split, ?_, Nat.succ_le_succ le, derives, rfl⟩
      rw [spare_spend spend, spare]
      omega

private theorem inFront_complete (inside : Inner room inner)
    (exact : ∀ {room level}, level.Exact room →
      Exact (Within room layer) (Stops layer) (operand level)) {used rest : List Token} {e : Expr}
    {n nesting : Nat} (derives : Derives layer used e n nesting) (le : nesting + 1 ≤ room)
    (stops : Stops layer rest) (token : Token) (spare : Nat) :
    inFront last combine operand inner ⟨token :: used ++ rest, spare + (n + 1)⟩ =
      .ok (combine e, ⟨rest, spare⟩) := by
  cases inside with
  | none => exact absurd le (by omega)
  | some level_exact =>
      have read := (exact level_exact).complete ⟨nesting, by omega, derives⟩ stops spare
      have spent : Reading.spend last ⟨token :: used ++ rest, spare + (n + 1)⟩ (used ++ rest) =
          .ok ⟨used ++ rest, spare + n⟩ := rfl
      rw [inFront, List.cons_append, List.tail_cons, ← List.cons_append, spent, ok_bind]
      dsimp only
      rw [read]
      rfl

end

section

variable {inner : Option Level}

private theorem derives_of_primary_number {value : Float} {unit : Option String} {source : String}
    {span : Span} {spaced : Bool} {rest : List Token} {spare : Nat} {e : Expr} {s' : Reading}
    (h : primary last inner ⟨⟨.number value unit source, span, spaced⟩ :: rest, spare⟩ =
      .ok (e, s')) :
    s' = ⟨rest, spare⟩ ∧ Derives .primary [⟨.number value unit source, span, spaced⟩] e 0 0 := by
  unfold primary at h
  dsimp only at h
  split at h
  · cases h
    exact ⟨rfl, .number _ _ _ _ (by simp)⟩
  · cases h
    exact ⟨rfl, .number _ _ _ _ (by simp)⟩
  · cases h
    exact ⟨rfl, .number _ _ _ _ (by simp)⟩
  · exact absurd h fail_ne_ok

private theorem derives_of_primary_ident {found : String} {span : Span} {spaced : Bool}
    {rest : List Token} {spare : Nat} {e : Expr} {s' : Reading}
    (h : primary last inner ⟨⟨.ident found, span, spaced⟩ :: rest, spare⟩ = .ok (e, s')) :
    ∃ used, rest = used ++ s'.rest ∧ s'.spare = spare ∧
      Derives .primary (⟨.ident found, span, spaced⟩ :: used) e 0 0 := by
  unfold primary at h
  dsimp only at h
  split at h
  · exact absurd h fail_ne_ok
  · rename_i word
    split at h
    · rename_i spells
      cases h
      exact ⟨[], rfl, rfl, .bool true _ _ spells⟩
    · rename_i not_true
      split at h
      · rename_i spells
        cases h
        exact ⟨[], rfl, rfl, .bool false _ _ spells⟩
      · rename_i not_false
        cases h
        obtain ⟨used, split, names⟩ := names_takePath found rest
        refine ⟨used, split, rfl, .name _ _ ?_ ?_ ?_ names⟩
        · simpa using word
        · simpa using not_true
        · simpa using not_false

private theorem derives_of_primary_brackets (inside : Inner room inner) {span : Span}
    {spaced : Bool}
    {rest : List Token} {spare : Nat} {e : Expr} {s' : Reading}
    (h : primary last inner ⟨⟨.punct (.opening .round), span, spaced⟩ :: rest, spare⟩ =
      .ok (e, s')) :
    ∃ used n, rest = used ++ s'.rest ∧ spare = s'.spare + n ∧
      Within room .primary (⟨.punct (.opening .round), span, spaced⟩ :: used) e n := by
  unfold primary at h
  dsimp only at h
  cases inside with
  | none => exact absurd h fail_ne_ok
  | some level_exact =>
      obtain ⟨⟨operand, s₁⟩, operand_eq, h⟩ := bind_eq_ok h
      obtain ⟨used, n, split, spare_eq, nesting, le, derives⟩ :=
        level_exact.disjunction.sound operand_eq
      dsimp only at h split spare_eq
      split at h
      · rename_i span' spaced' later closing
        cases h
        refine ⟨used ++ [⟨.punct (.closing .round), span', spaced'⟩], n, ?_, spare_eq, nesting + 1,
          Nat.succ_le_succ le, .brackets span span' spaced spaced' derives⟩
        rw [split, closing]
        simp
      · exact absurd h fail_ne_ok

private theorem exact_primary (inside : Inner room inner) :
    Exact (Within room .primary) (Stops .primary) (primary last inner) where
  sound := by
    intro s e s' h
    obtain ⟨rest, spare⟩ := s
    cases rest with
    | nil => cases h
    | cons token rest =>
        obtain ⟨kind, span, spaced⟩ := token
        cases kind with
        | number value unit source =>
            obtain ⟨rfl, derives⟩ := derives_of_primary_number h
            exact ⟨[_], 0, rfl, rfl, 0, Nat.zero_le _, derives⟩
        | string value =>
            cases h
            exact ⟨[_], 0, rfl, rfl, 0, Nat.zero_le _, .text value span spaced⟩
        | ident found =>
            obtain ⟨used, rfl, rfl, derives⟩ := derives_of_primary_ident h
            exact ⟨_ :: used, 0, rfl, rfl, 0, Nat.zero_le _, derives⟩
        | punct mark =>
            cases mark with
            | opening bracket =>
                cases bracket with
                | round =>
                    obtain ⟨used, n, rfl, rfl, within⟩ := derives_of_primary_brackets inside h
                    exact ⟨_ :: used, n, rfl, rfl, within⟩
                | _ => cases h
            | _ => cases h
        | _ => cases h
  complete := by
    intro used e n h rest stops spare
    obtain ⟨nesting, le, derives⟩ := h
    cases derives with
    | number value source span spaced unit =>
        simp only [List.mem_cons, List.not_mem_nil, or_false] at unit
        rcases unit with rfl | rfl | rfl
        · rfl
        · rfl
        · rfl
    | text => rfl
    | @bool value word span spaced spells =>
        have lower : word.toLower = if value then "true" else "false" := by
          simpa [Token.spells] using spells
        cases value <;> simp [primary, isKeyword, Token.spells, lower]
    | name span spaced word not_true not_false names =>
        simp [primary, word, not_true, not_false, takePath_of_names names stops]
    | @brackets tokens _ _ nesting span span' spaced spaced' derives =>
        cases inside with
        | none => exact absurd le (by omega)
        | some level_exact =>
            have read := level_exact.disjunction.complete ⟨nesting, by omega, derives⟩
              (stops_closing .disjunction span' spaced' rest) spare
            simp only [primary, List.cons_append, List.append_assoc, List.nil_append]
            rw [read]
            rfl
    | link eq => cases eq
    | tighter eq => cases eq

private theorem signed_of_primary {used : List Token} {e : Expr} {n nesting : Nat}
    (h : Derives .primary used e n nesting) (rest : List Token) (spare : Nat) :
    signed last inner ⟨used ++ rest, spare⟩ = primary last inner ⟨used ++ rest, spare⟩ := by
  cases h with
  | link eq => cases eq
  | tighter eq => cases eq
  | _ => rfl

private theorem exact_signed (inside : Inner room inner) :
    Exact (Within room .signed) (Stops .signed) (signed last inner) where
  sound := by
    intro s e s' h
    unfold signed at h
    split at h
    · rename_i span spaced rest tokens
      obtain ⟨used, e', n, nesting, split, spare, le, derives, rfl⟩ :=
        inFront_sound inside Level.Exact.signed h
      rw [tokens] at split ⊢
      rw [List.tail_cons] at split
      exact ⟨_ :: used, n + 1, by rw [List.cons_append, split], spare, nesting + 1, le,
        .negate _ _ derives⟩
    · obtain ⟨used, n, split, spare, derives⟩ := (exact_primary inside).sound h
      exact ⟨used, n, split, spare, derives.tighter rfl⟩
  complete := by
    intro used e n h rest stops spare
    obtain ⟨nesting, le, derives⟩ := h
    cases derives with
    | negate span spaced derives =>
        exact inFront_complete inside Level.Exact.signed derives le stops _ spare
    | link _ _ links => cases links
    | tighter eq derives =>
        cases eq
        rw [signed_of_primary derives]
        exact (exact_primary inside).complete ⟨nesting, le, derives⟩ (stops.tighter rfl) spare

private theorem exact_sum (inside : Inner room inner) :
    Exact (Within room .sum) (Stops .sum) (sum last inner) :=
  exact_chained rfl rfl exact_sumJoint
    (exact_chained rfl rfl exact_productJoint (exact_signed inside))

private theorem exists_operator_of_comparison? {tokens rest : List Token} {comparison : Comparison}
    (h : comparison? tokens = some (comparison, rest)) :
    ∃ op span spaced, tokens = ⟨.operator op, span, spaced⟩ :: rest ∧
      Comparison.ofOperator? op = some comparison := by
  unfold comparison? at h
  split at h
  · obtain ⟨found, known, eq⟩ := Option.map_eq_some_iff.1 h
    cases eq
    exact ⟨_, _, _, rfl, known⟩
  · cases h

private theorem relation_of_sum (inside : Inner room inner) {used rest : List Token} {e : Expr}
    {n : Nat} (operand : Within room .sum used e n) (stops : Stops .relation rest) (spare : Nat) :
    relation last inner ⟨used ++ rest, spare + n⟩ = .ok (e, ⟨rest, spare⟩) := by
  have read : sum last inner ⟨used ++ rest, spare + n⟩ = .ok (e, ⟨rest, spare⟩) :=
    (exact_sum inside).complete operand (stops.tighter rfl) spare
  rw [relation, read, ok_bind]
  dsimp only
  rw [comparison?_of_stops stops]

private theorem relation_of_compare (inside : Inner room inner) {left right rest : List Token}
    {l r : Expr} {m n : Nat} {op : Operator} {comparison : Comparison}
    (known : Comparison.ofOperator? op = some comparison) (span : Span) (spaced : Bool)
    (before : Within room .sum left l m) (after : Within room .sum right r n)
    (stops : Stops .relation rest) (spare : Nat) :
    relation last inner
      ⟨left ++ ⟨.operator op, span, spaced⟩ :: (right ++ rest), spare + n + 1 + m⟩ =
        .ok (.compare comparison l r, ⟨rest, spare⟩) := by
  have ends : Stops .sum (⟨.operator op, span, spaced⟩ :: (right ++ rest)) := by
    intro token member link link_eq
    cases member
    cases (linkLayer?_comparison known).symm.trans link_eq
    decide
  have found : comparison? (⟨.operator op, span, spaced⟩ :: (right ++ rest)) =
      some (comparison, right ++ rest) := by
    simp [comparison?, known]
  have left_read : sum last inner
      ⟨left ++ ⟨.operator op, span, spaced⟩ :: (right ++ rest), spare + n + 1 + m⟩ =
        .ok (l, ⟨⟨.operator op, span, spaced⟩ :: (right ++ rest), spare + n + 1⟩) :=
    (exact_sum inside).complete before ends _
  have right_read : sum last inner ⟨right ++ rest, spare + n⟩ = .ok (r, ⟨rest, spare⟩) :=
    (exact_sum inside).complete after (stops.tighter rfl) spare
  rw [relation, left_read, ok_bind]
  dsimp only
  rw [found]
  dsimp only [Reading.spend]
  rw [ok_bind, right_read, ok_bind]
  dsimp only
  rw [comparison?_of_stops stops]

private theorem exact_relation (inside : Inner room inner) :
    Exact (Within room .relation) (Stops .relation) (relation last inner) where
  sound := by
    intro s e s' h
    obtain ⟨⟨left, s₁⟩, left_eq, h⟩ := bind_eq_ok h
    obtain ⟨left_used, m, left_split, left_spare, left_read⟩ := (exact_sum inside).sound left_eq
    dsimp only at h left_split left_spare
    split at h
    · cases h
      exact ⟨left_used, m, left_split, left_spare, left_read.tighter rfl⟩
    · rename_i comparison rest found
      obtain ⟨spent, spend, h⟩ := bind_eq_ok h
      obtain ⟨⟨right, s₂⟩, right_eq, h⟩ := bind_eq_ok h
      obtain ⟨right_used, n, right_split, right_spare, right_read⟩ :=
        (exact_sum inside).sound right_eq
      obtain ⟨op, span, spaced, tokens, known⟩ := exists_operator_of_comparison? found
      rw [rest_spend spend] at right_split
      dsimp only at h right_split right_spare
      split at h
      · cases h
        obtain ⟨h, le, left_derives⟩ := left_read
        obtain ⟨k, le', right_derives⟩ := right_read
        refine ⟨left_used ++ ⟨.operator op, span, spaced⟩ :: right_used, m + n + 1, ?_, ?_,
          max h k, Nat.max_le.2 ⟨le, le'⟩, .compare span spaced left_derives known right_derives⟩
        · rw [left_split, tokens, right_split]
          simp
        · rw [left_spare, spare_spend spend, right_spare]
          omega
      · exact absurd h fail_ne_ok
  complete := by
    intro used e n h rest stops spare
    obtain ⟨nesting, le, derives⟩ := h
    cases derives with
    | @compare op comparison left right l r m n h k span spaced left_derives known right_derives =>
        obtain ⟨le_left, le_right⟩ := Nat.max_le.1 le
        have cost : spare + (m + n + 1) = spare + n + 1 + m := by omega
        rw [cost, List.append_assoc, List.cons_append]
        exact relation_of_compare inside known span spaced ⟨h, le_left, left_derives⟩
          ⟨k, le_right, right_derives⟩ stops spare
    | link _ _ links => cases links
    | tighter eq derives =>
        cases eq
        exact relation_of_sum inside ⟨nesting, le, derives⟩ stops spare

private theorem exact_inversion (inside : Inner room inner) :
    Exact (Within room .inversion) (Stops .inversion) (inversion last inner) where
  sound := by
    intro s e s' h
    unfold inversion at h
    split at h
    · rename_i here
      obtain ⟨found, span, spaced, rest, tokens, spells⟩ := atWord_eq_true here
      obtain ⟨used, e', n, nesting, split, spare, le, derives, rfl⟩ :=
        inFront_sound inside Level.Exact.inversion h
      rw [tokens] at split ⊢
      rw [List.tail_cons] at split
      exact ⟨_ :: used, n + 1, by rw [List.cons_append, split], spare, nesting + 1, le,
        .not _ _ spells derives⟩
    · obtain ⟨used, n, split, spare, derives⟩ := (exact_relation inside).sound h
      exact ⟨used, n, split, spare, derives.tighter rfl⟩
  complete := by
    intro used e n h rest stops spare
    obtain ⟨nesting, le, derives⟩ := h
    cases derives with
    | not span spaced spells derives =>
        rw [inversion, List.cons_append, atWord, if_pos spells, ← List.cons_append]
        exact inFront_complete inside Level.Exact.inversion derives le stops _ spare
    | link _ _ links => cases links
    | tighter eq derives =>
        cases eq
        have other : atWord "not" (used ++ rest) = false := derives.atWord_not (by decide) rest
        rw [inversion, other]
        exact (exact_relation inside).complete ⟨nesting, le, derives⟩ (stops.tighter rfl) spare

private theorem exact_disjunction (inside : Inner room inner) :
    Exact (Within room .disjunction) (Stops .disjunction) (disjunction last inner) :=
  exact_chained rfl rfl exact_or (exact_chained rfl rfl exact_and (exact_inversion inside))

end

private theorem exact_level (last : Option Span) (room : Nat) : (level last room).Exact room := by
  have parsers {room : Nat} {inner : Option Level} (inside : Inner room inner) :
      Level.Exact room ⟨disjunction last inner, inversion last inner, signed last inner⟩ :=
    ⟨exact_disjunction inside, exact_inversion inside, exact_signed inside⟩
  induction room with
  | zero => exact parsers .none
  | succ room ih => exact parsers (.some ih)

end

/-- A condition that is accepted is derived within the limits. -/
theorem derives_of_ofTokens {tokens : List Token} {e : Expr} (h : ofTokens tokens = .ok e) :
    ∃ operators ≤ operatorLimit, Within nestingLimit .disjunction tokens e operators := by
  unfold ofTokens at h
  split at h
  · cases h
  · rename_i final _
    obtain ⟨⟨e', s⟩, parsed, rest_eq⟩ := bind_eq_ok h
    obtain ⟨used, n, split, spare, derives⟩ :=
      (exact_level (some final.span) nestingLimit).disjunction.sound parsed
    dsimp only at rest_eq split spare
    split at rest_eq
    · rename_i nothing
      cases rest_eq
      rw [nothing, List.append_nil] at split
      exact ⟨n, by omega, split ▸ derives⟩
    · cases rest_eq

/-- A condition that is derived within the limits is accepted. -/
theorem ofTokens_of_derives {tokens : List Token} {e : Expr} {operators : Nat}
    (le : operators ≤ operatorLimit)
    (derives : Within nestingLimit .disjunction tokens e operators) : ofTokens tokens = .ok e := by
  obtain ⟨spare, limit_eq⟩ : ∃ spare, operatorLimit = spare + operators :=
    ⟨operatorLimit - operators, by omega⟩
  unfold ofTokens
  split
  · rename_i none_eq
    exact absurd (List.getLast?_eq_none_iff.1 none_eq) derives.ne_nil
  · rename_i final _
    have parsed := (exact_level (some final.span) nestingLimit).disjunction.complete derives
      (stops_nil _) spare
    rw [List.append_nil, ← limit_eq] at parsed
    dsimp only
    rw [parsed]
    rfl

private theorem Derives.unique {tokens : List Token} {e e' : Expr} {m n h k : Nat}
    (derives : Derives .disjunction tokens e m h) (derives' : Derives .disjunction tokens e' n k) :
    e = e' ∧ m = n := by
  -- With enough room for both derivations the parser can only give one of them.
  have exact := (exact_level none (max h k)).disjunction
  have first := exact.complete ⟨h, Nat.le_max_left h k, derives⟩ (stops_nil _) n
  have second := exact.complete ⟨k, Nat.le_max_right h k, derives'⟩ (stops_nil _) m
  rw [Nat.add_comm m n, first] at second
  cases second
  exact ⟨rfl, rfl⟩

/-- A condition is accepted if and only if it is derived with no more operators and no deeper
nesting than allowed. Its tokens derive only one expression. -/
theorem ofTokens_eq_ok_iff (tokens : List Token) :
    (∀ e, ofTokens tokens = .ok e ↔ ∃ operators ≤ operatorLimit, ∃ nesting ≤ nestingLimit,
      Derives .disjunction tokens e operators nesting) ∧
      ∀ e e' m n h k, Derives .disjunction tokens e m h → Derives .disjunction tokens e' n k →
        e = e' ∧ m = n := by
  refine ⟨fun e => ⟨derives_of_ofTokens, ?_⟩, fun _ _ _ _ _ _ => Derives.unique⟩
  rintro ⟨operators, le, derives⟩
  exact ofTokens_of_derives le derives

/-- The sign of a number is an operator behind an operand: `not width -8 < 2`. -/
theorem ofTokens_eq_ok_iff_sign :
    let token (kind : Token.Kind) (column : Nat) (spaced : Bool) : Token :=
      ⟨kind, ⟨none, ⟨1, column⟩⟩, spaced⟩
    let tokens := [token (.ident "not") 1 false, token (.ident "width") 5 true,
      token (.number (-8) none "-8") 11 true, token (.operator .less) 14 true,
      token (.number 2 none "2") 16 true]
    let e : Expr := .not (.compare .less (.arith .add (.name "width") (.number (-8))) (.number 2))
    Derives .disjunction tokens e 3 1 ∧ ofTokens tokens = .ok e ∧
      ∀ e' n k, Derives .disjunction tokens e' n k → e' = e := by
  intro token tokens e
  have width : Derives .primary [token (.ident "width") 5 true] (.name "width") 0 0 :=
    .name _ _ (by decide +kernel) (by decide +kernel) (by decide +kernel) (.done _)
  have eight : Derives .product [token (.number (-8) none "-8") 11 true] (.number (-8)) 0 0 :=
    .tighter rfl (.tighter rfl (.number _ _ _ _ (by simp)))
  have two : Derives .sum [token (.number 2 none "2") 16 true] (.number 2) 0 0 :=
    .tighter rfl (.tighter rfl (.tighter rfl (.number _ _ _ _ (by simp))))
  have sign : Links .sum [] [token (.number (-8) none "-8") 11 true] (.arith .add) :=
    .sign _ _ _ _ _ (by decide +kernel)
  have left : Derives .sum [token (.ident "width") 5 true, token (.number (-8) none "-8") 11 true]
      (.arith .add (.name "width") (.number (-8))) 1 0 :=
    .link rfl (.tighter rfl (.tighter rfl (.tighter rfl width))) sign eight
  have derives : Derives .disjunction tokens e 3 1 :=
    .tighter rfl (.tighter rfl (.not _ _ (by decide +kernel)
      (.tighter rfl (.compare _ _ left rfl two))))
  obtain ⟨accepted, unique⟩ := ofTokens_eq_ok_iff tokens
  exact ⟨derives, (accepted e).2 ⟨3, by decide, 1, by decide, derives⟩,
    fun e' n k derives' => (unique _ _ _ _ _ _ derives' derives).1⟩

end Expr

theorem Condition.reads_of_ofTokens {tokens : List Token} {c : Condition}
    (h : ofTokens tokens = .ok c) : Expr.Reads tokens c.expr := by
  unfold ofTokens at h
  cases parsed : Expr.ofTokens tokens with
  | error e =>
      rw [parsed] at h
      cases h
  | ok e =>
      rw [parsed] at h
      cases h
      obtain ⟨_, -, _, -, derives⟩ := Expr.derives_of_ofTokens parsed
      exact derives.reads

end ViewStyle
