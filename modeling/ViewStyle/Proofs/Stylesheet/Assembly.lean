/-
The conditions in the table of a stylesheet. Each of them is put together from pairs of square
brackets, of which there are no more than the text has; but nothing limits how many of them there
are, and with them the size of a condition grows without bound.
-/

import ViewStyle.Proofs.Condition.Size
import ViewStyle.Proofs.Stylesheet.Neighbours
import ViewStyle.Proofs.Stylesheet.NormalKeys

set_option autoImplicit false

namespace ViewStyle

open Builder (State)
open Text (Span)

namespace Rules

variable {p : Selector → Prop}

def All (p : Selector → Prop) (t : Rules) : Prop := ∀ e ∈ t.entries, p e.selector

private theorem All.introduce {t : Rules} (h : t.All p) {s : Selector} (new : p s) :
    (t.introduce s).All p := by
  unfold Rules.introduce
  split
  · exact h
  · exact List.forall_mem_append.2 ⟨h, List.forall_mem_singleton.2 new⟩

private theorem All.declare {t : Rules} (h : t.All p) {s : Selector} (new : p s) (key : KeyPath)
    (value : Value) (order : Nat) : (t.declare s key value order).All p := by
  intro e member
  obtain ⟨e', member', rfl⟩ := List.mem_map.1 member
  have known : p e'.selector := h.introduce new e' member'
  split <;> exact known

private theorem All.foldl_introduce {t : Rules} (h : t.All p) {selectors : List Selector}
    (new : ∀ s ∈ selectors, p s) : (selectors.foldl Rules.introduce t).All p := by
  induction selectors generalizing t with
  | nil => exact h
  | cons s rest ih =>
      obtain ⟨here, there⟩ := List.forall_mem_cons.1 new
      exact ih (h.introduce here) there

private theorem All.foldl_declare {t : Rules} (h : t.All p) {selectors : List Selector}
    (new : ∀ s ∈ selectors, p s) (key : KeyPath) (value : Value) (order : Nat) :
    (selectors.foldl (fun t s => t.declare s key value order) t).All p := by
  induction selectors generalizing t with
  | nil => exact h
  | cons s rest ih =>
      obtain ⟨here, there⟩ := List.forall_mem_cons.1 new
      exact ih (h.declare here key value order) there

end Rules

def Selector.AssembledFrom (n : Nat) (s : Selector) : Prop :=
  ∃ parts, parts.length ≤ n ∧ Assembled parts s.condition

private theorem Selector.AssembledFrom.mono {m n : Nat} {s : Selector} (h : s.AssembledFrom m)
    (le : m ≤ n) : s.AssembledFrom n := by
  obtain ⟨parts, short, assembled⟩ := h
  exact ⟨parts, Nat.le_trans short le, assembled⟩

private theorem assembled_foldl {conditions : List Condition} {parts : List Expr}
    {before : Option Condition} (h : Assembled parts before)
    (read : ∀ c ∈ conditions, ∃ tokens, Condition.ofTokens tokens = .ok c) :
    Assembled (parts ++ conditions.map (·.expr))
      (conditions.foldl (fun before next => Selector.bothConditions before (some next))
        before) := by
  induction conditions generalizing parts before with
  | nil => simpa using h
  | cons c rest ih =>
      obtain ⟨⟨tokens, here⟩, there⟩ := List.forall_mem_cons.1 read
      have joined := ih (h.both (.bracket here)) there
      rwa [List.append_assoc] at joined

private theorem assembled_restriction {definitions : Outline.Definitions} {r : Outline.Restriction}
    {c : Option Condition} (h : r.condition definitions = some c) :
    ∃ parts, parts.length = r.conditions.length ∧ Assembled parts c := by
  obtain ⟨conditions, found, rfl⟩ := Option.map_eq_some_iff.1 h
  obtain ⟨length, read⟩ := mem_mapM found
  refine ⟨_, ?_, assembled_foldl .none fun c member => ?_⟩
  · rw [List.nil_append, List.length_map, length]
  · obtain ⟨group, -, found⟩ := read c member
    obtain ⟨tokens, -, read⟩ := Option.bind_eq_some_iff.1 found
    exact ⟨tokens, eq_ok_of_toOption read⟩

private theorem condition_of_refine {s refined : Selector} {condition : Option Condition}
    {qualifier : Option String} (h : s.refine condition qualifier = .ok refined) :
    refined.condition = Selector.bothConditions s.condition condition := by
  unfold Selector.refine at h
  dsimp only at h
  split at h
  · cases h
    rfl
  · cases h
    rfl
  · split at h
    · cases h
      rfl
    · cases h

namespace Draft

def Clause.brackets : Clause → Nat
  | .start heads => (heads.map (·.restriction.conditions.length)).sum
  | .nest restriction => restriction.conditions.length
  | _ => 0

/-- All selectors, those of the table and those of the open blocks, have conditions that are put
together from no more than so many pairs of brackets. -/
structure Stage.Assembled (n : Nat) (stage : Stage) : Prop where
  table : stage.state.sheet.rules.All (Selector.AssembledFrom n)
  scopes : ∀ selectors ∈ stage.scopes, ∀ s ∈ selectors, s.AssembledFrom n

namespace Stage.Assembled

private theorem enter {m n : Nat} {stage : Stage} (h : stage.Assembled m) (le : m ≤ n)
    {selectors : List Selector} (new : ∀ s ∈ selectors, s.AssembledFrom n) :
    (stage.enter selectors).Assembled n := by
  have table : stage.state.sheet.rules.All (Selector.AssembledFrom n) :=
    fun e member => (h.table e member).mono le
  refine ⟨table.foldl_introduce new,
    List.forall_mem_cons.2 ⟨new, fun selectors member s s_mem => ?_⟩⟩
  exact (h.scopes selectors member s s_mem).mono le

private theorem perform {registry : Registry} {n : Nat} {stage stage' : Stage} {c : Clause}
    (h : stage.Assembled n) (performs : c.perform registry stage = some stage') :
    stage'.Assembled (n + c.brackets) := by
  cases c with
  | define name tokens =>
      obtain ⟨⟨v, s'⟩, found, rfl⟩ := Option.map_eq_some_iff.1 performs
      refine ⟨?_, h.scopes⟩
      have rules : s'.sheet.rules = stage.state.sheet.rules :=
        congrArg (·.rules) (Builder.sheet_value (eq_ok_of_toOption found))
      exact (congrArg (Rules.All _) rules).mpr h.table
  | start heads =>
      obtain ⟨selectors, found, rfl⟩ := Option.map_eq_some_iff.1 performs
      refine h.enter (Nat.le_add_right _ _) fun s member => ?_
      obtain ⟨head, head_mem, found⟩ := (mem_mapM found).2 s member
      obtain ⟨condition, condition_eq, rfl⟩ := Option.map_eq_some_iff.1 found
      obtain ⟨parts, length, assembled⟩ := assembled_restriction condition_eq
      have counted : head.restriction.conditions.length ≤ (Clause.start heads).brackets :=
        List.le_sum_of_mem (List.mem_map.2 ⟨head, head_mem, rfl⟩)
      exact ⟨parts, by omega, assembled⟩
  | nest restriction =>
      obtain ⟨parents, top, performs⟩ := Option.bind_eq_some_iff.1 performs
      obtain ⟨nested, refined, rfl⟩ := Option.map_eq_some_iff.1 performs
      obtain ⟨condition, found, refined⟩ := Option.bind_eq_some_iff.1 refined
      obtain ⟨parts, length, assembled⟩ := assembled_restriction found
      refine h.enter (Nat.le_add_right _ _) fun s member => ?_
      obtain ⟨parent, parent_mem, found⟩ := (mem_mapM refined).2 s member
      obtain ⟨others, short, before⟩ :=
        h.scopes parents (List.mem_of_head? top) parent parent_mem
      refine ⟨others ++ parts, ?_, ?_⟩
      · rw [List.length_append, length]
        exact Nat.add_le_add_right short _
      · rw [condition_of_refine (eq_ok_of_toOption found)]
        exact before.both assembled
  | leave =>
      cases performs
      exact ⟨h.table, fun selectors member => h.scopes selectors (List.mem_of_mem_tail member)⟩
  | declare key tokens important =>
      obtain ⟨selectors, top, performs⟩ := Option.bind_eq_some_iff.1 performs
      obtain ⟨path, -, performs⟩ := Option.bind_eq_some_iff.1 performs
      obtain ⟨⟨v, s'⟩, found, rfl⟩ := Option.map_eq_some_iff.1 performs
      have rules : s'.sheet.rules = stage.state.sheet.rules :=
        congrArg (·.rules) (Builder.sheet_value (eq_ok_of_toOption found))
      have table : s'.sheet.rules.All (Selector.AssembledFrom n) :=
        (congrArg (Rules.All _) rules).mpr h.table
      have counted : (s'.sheet.rules.nextOrder).2.All (Selector.AssembledFrom n) := table
      refine ⟨?_, h.scopes⟩
      exact counted.foldl_declare (h.scopes selectors (List.mem_of_head? top)) _ _ _

private theorem run {registry : Registry} {n : Nat} {clauses : List Clause} {stage stage' : Stage}
    (h : stage.Assembled n)
    (performs : clauses.foldlM (Clause.perform registry) stage = some stage') :
    stage'.Assembled (n + (clauses.map Clause.brackets).sum) := by
  induction clauses generalizing n stage with
  | nil =>
      cases performs
      exact h
  | cons c rest ih =>
      rw [List.foldlM_cons] at performs
      obtain ⟨next, here, there⟩ := Option.bind_eq_some_iff.1 performs
      rw [List.map_cons, List.sum_cons, ← Nat.add_assoc]
      exact ih (h.perform here) there

private theorem start (serial : Nat) : (Stage.start serial).Assembled 0 :=
  ⟨fun _ member => (nomatch member), fun _ member => (nomatch member)⟩

end Stage.Assembled

private theorem Resolves.brackets_eq {before : List Clause} {c c' : Clause}
    (h : Resolves before c c') : c'.brackets = c.brackets := by
  cases h with
  | define => rfl
  | start means =>
      unfold Clause.brackets
      dsimp only
      induction means with
      | nil => rfl
      | cons head _ ih =>
          rw [List.map_cons, List.map_cons, List.sum_cons, List.sum_cons, ih,
            head.restriction.conditions.length_eq]
  | nest means => exact means.conditions.length_eq.symm
  | leave => rfl
  | declare => rfl

private theorem Scoped.brackets_eq {before clauses resolved : List Clause}
    (h : Scoped before clauses resolved) :
    (resolved.map Clause.brackets).sum = (clauses.map Clause.brackets).sum := by
  induction h with
  | nil => rfl
  | cons resolves _ ih =>
      rw [List.map_cons, List.map_cons, List.sum_cons, List.sum_cons, ih, resolves.brackets_eq]

end Draft

def Token.opensSquare (token : Token) : Bool :=
  match token.kind with
  | .punct (.opening .square) => true
  | _ => false

/-- The number of square brackets that some tokens open. -/
def squares (tokens : List Token) : Nat := tokens.countP Token.opensSquare

@[simp] private theorem squares_append (front behind : List Token) :
    squares (front ++ behind) = squares front + squares behind :=
  List.countP_append

@[simp] private theorem squares_cons (token : Token) (rest : List Token) :
    squares (token :: rest) = squares rest + if token.opensSquare then 1 else 0 :=
  List.countP_cons

namespace Draft

open Outline (WrittenConditions WrittenHeads)

private theorem length_le_of_conditions {groups : List (List Token)} {tokens : List Token}
    (h : WrittenConditions groups tokens) : groups.length ≤ squares tokens := by
  induction h with
  | nil => exact Nat.le_refl _
  | cons group span span' spaced spaced' _ ih =>
      simp [Token.opensSquare]
      omega

private theorem length_le_of_restriction {r : Outline.Restriction} {tokens : List Token}
    (h : r.Written tokens) : r.conditions.length ≤ squares tokens := by
  obtain ⟨conditions, -⟩ := h
  rw [squares_append]
  exact Nat.le_add_right_of_le (length_le_of_conditions conditions)

private theorem brackets_le_of_heads {heads : List Outline.Head} {tokens : List Token}
    (h : WrittenHeads heads tokens) : (Clause.start heads).brackets ≤ squares tokens := by
  have each {head : Outline.Head} {tokens : List Token} (h : head.Written tokens) :
      head.restriction.conditions.length ≤ squares tokens := by
    obtain ⟨-, restriction⟩ := h
    rw [squares_append]
    exact Nat.le_add_left_of_le (length_le_of_restriction restriction)
  unfold Clause.brackets
  induction h with
  | last written => simpa using each written
  | comma span spaced written _ ih =>
      have here := each written
      simp only [List.map_cons, List.sum_cons, squares_append, squares_cons] at ih ⊢
      omega

private theorem brackets_le_of_body {body : Body} {tokens : List Token}
    (h : body.Written spelling tokens) :
    (body.clauses.map Clause.brackets).sum ≤ squares tokens := by
  induction h with
  | done => exact Nat.le_refl _
  | stray span spaced _ ih =>
      rw [squares_cons]
      exact Nat.le_add_right_of_le ih
  | declare _ _ _ ih =>
      simp [Body.clauses, Property.clause, Clause.brackets]
      omega
  | nest _ _ _ _ _ _ _ restriction _ _ ih_inside ih_next =>
      have here := length_le_of_restriction restriction
      simp [Body.clauses, Clause.brackets]
      omega

private theorem brackets_le_of_block {block : Block} {tokens : List Token}
    (h : block.Written spelling tokens) :
    (block.clauses.map Clause.brackets).sum ≤ squares tokens := by
  cases h with
  | @globals _ definitions =>
      have none : ((Block.clauses (.globals definitions)).map Clause.brackets).sum = 0 := by
        refine List.sum_eq_zero_iff.2 fun n member => ?_
        obtain ⟨c, c_mem, rfl⟩ := List.mem_map.1 member
        obtain ⟨d, -, rfl⟩ := List.mem_map.1 c_mem
        rfl
      rw [none]
      exact Nat.zero_le _
  | rules _ _ _ _ _ heads body =>
      have first := brackets_le_of_heads heads
      have inside := brackets_le_of_body body
      rw [Clause.brackets] at first
      simp [Block.clauses, Clause.brackets] at first ⊢
      omega

private theorem brackets_le_of_written {blocks : List Block} {tokens : List Token}
    (h : Written blocks tokens) :
    ((clauses blocks).map Clause.brackets).sum ≤ squares tokens := by
  induction h with
  | nil => exact Nat.le_refl _
  | stray span spaced _ ih =>
      rw [squares_cons]
      exact Nat.le_add_right_of_le ih
  | block written _ ih =>
      have here := brackets_le_of_block written
      rw [clauses] at ih ⊢
      rw [List.flatMap_cons, List.map_append, List.sum_append, squares_append]
      omega

end Draft

namespace Builder

/-- Every condition in the table of a stylesheet is put together from pairs of brackets, no more
than the text has. Each of them alone is limited, and the operators that join them come on top. -/
theorem operators_le_of_build {registry : Registry} {serial : Nat} {tokens : List Token} {s : State}
    (accepted : build registry serial tokens = .ok s) {e : Entry}
    (listed : e ∈ s.sheet.rules.entries) {c : Condition} (guarded : e.selector.condition = some c) :
    ∃ parts : List Expr,
      (∀ part ∈ parts, ∃ group, Expr.ofTokens group = .ok part) ∧
      (∀ part ∈ parts, part.operators ≤ operatorLimit) ∧
      (parts.map (·.operators + 1)).sum = c.expr.operators + 1 ∧
      parts.length ≤ squares tokens ∧
      c.expr.operators + 1 ≤ squares tokens * (operatorLimit + 1) ∧
      c.expr.depth ≤ c.expr.operators + 1 := by
  obtain ⟨blocks, written⟩ := exists_written_of_build accepted
  obtain ⟨resolved, resolves, performs⟩ := exists_performed_of_build accepted written
  have assembled := (Draft.Stage.Assembled.start serial).run performs
  rw [Nat.zero_add, resolves.brackets_eq] at assembled
  obtain ⟨parts, short, whole⟩ := assembled.table e listed
  rw [guarded] at whole
  have few : parts.length ≤ squares tokens :=
    Nat.le_trans short (Draft.brackets_le_of_written written)
  refine ⟨parts, whole.exists_tokens, fun part member => ?_, whole.operators_eq, few, ?_,
    c.expr.depth_le⟩
  · obtain ⟨group, read⟩ := whole.exists_tokens part member
    exact Expr.operators_le_of_ofTokens read
  · exact Nat.le_trans whole.operators_le (Nat.mul_le_mul_right _ few)

/-- A condition with an operator of its own inside a block with another one. -/
theorem operators_le_of_build_nested : ∃ (tokens : List Token) (s : State) (e : Entry)
    (c : Condition) (parts : List Expr),
    Token.scan ".A[a] \x7b &[b and c] \x7b x: y; \x7d \x7d" none = .ok tokens ∧
      build .builtins 0 tokens = .ok s ∧ e ∈ s.sheet.rules.entries ∧
      e.selector.condition = some c ∧ c.expr.operators = 2 ∧ squares tokens = 2 ∧
      (parts.map (·.operators + 1)).sum = 3 ∧ parts.length ≤ 2 := by
  have computed : ((Token.scan ".A[a] \x7b &[b and c] \x7b x: y; \x7d \x7d" none).toOption.bind
      fun tokens => (build .builtins 0 tokens).toOption.bind fun s =>
        s.sheet.rules.entries[1]?.bind fun e =>
          e.selector.condition.map fun c => (c.expr.operators, squares tokens)) = some (2, 2) := by
    decide +kernel
  obtain ⟨tokens, scanned, h⟩ := Option.bind_eq_some_iff.1 computed
  obtain ⟨s, accepted, h⟩ := Option.bind_eq_some_iff.1 h
  obtain ⟨e, second, h⟩ := Option.bind_eq_some_iff.1 h
  obtain ⟨c, guarded, counts⟩ := Option.map_eq_some_iff.1 h
  obtain ⟨operators, opened⟩ := Prod.ext_iff.1 counts
  have listed : e ∈ s.sheet.rules.entries := List.mem_of_getElem? second
  obtain ⟨parts, -, -, total, few, -⟩ :=
    operators_le_of_build (eq_ok_of_toOption accepted) listed guarded
  dsimp only at operators opened
  rw [operators] at total
  rw [opened] at few
  exact ⟨tokens, s, e, c, parts, eq_ok_of_toOption scanned, eq_ok_of_toOption accepted, listed,
    guarded, operators, opened, total, few⟩

def guard : List Token :=
  [⟨.punct (.opening .square), anywhere, false⟩, ⟨.ident "a", anywhere, false⟩,
    ⟨.punct (.closing .square), anywhere, false⟩]

def guardedBy (n : Nat) : List Token :=
  ⟨.ident "A", anywhere, false⟩ :: ((List.replicate n guard).flatten ++
    [⟨.punct (.opening .brace), anywhere, true⟩, ⟨.punct (.closing .brace), anywhere, true⟩])

def guardedHead (n : Nat) : Outline.Head :=
  ⟨.className "A", ⟨List.replicate n [⟨.ident "a", anywhere, false⟩], none⟩⟩

private theorem written_guardedBy (n : Nat) :
    Draft.Written [.rules (guardedHead n) [] .done] (guardedBy n) := by
  have conditions : Outline.WrittenConditions (List.replicate n [⟨.ident "a", anywhere, false⟩])
      (List.replicate n guard).flatten := by
    induction n with
    | zero => exact .nil
    | succ n ih => exact .cons _ anywhere anywhere false false ih
  have enclosed : Outline.Enclosed (guardedHead n).restriction := by
    intro group member
    rw [List.eq_of_mem_replicate member]
    exact ⟨fun _ => rfl, rfl⟩
  have heads : Outline.WrittenHeads [guardedHead n] _ :=
    .last (.intro (.class "A" anywhere false) (.intro conditions .absent))
  have block : (Outline.Block.rules (guardedHead n) [] .done).Written Draft.spelling _ :=
    .rules anywhere anywhere true true (List.forall_mem_singleton.2 enclosed) heads .done
  have whole := Outline.Written.block block .nil
  simpa [guardedBy] using whole

private theorem exists_condition_guardedHead (n : Nat) : ∃ c : Condition,
    (guardedHead (n + 1)).restriction.condition [] = some (some c) ∧ c.expr.operators = n := by
  obtain ⟨a, read, leaf⟩ : ∃ a, Outline.condition [] [⟨.ident "a", anywhere, false⟩] = some a ∧
      a.expr.operators = 0 :=
    Option.map_eq_some_iff.1 (by decide +kernel)
  have conditions : (List.replicate (n + 1) [⟨.ident "a", anywhere, false⟩]).mapM
      (Outline.condition []) = some (List.replicate (n + 1) a) := by
    generalize n + 1 = m
    induction m with
    | zero => rfl
    | succ m ih =>
        rw [List.replicate_succ, List.replicate_succ, mapM_cons_eq_some]
        exact ⟨a, _, read, ih, rfl⟩
  obtain ⟨tokens, -, reads⟩ := Option.bind_eq_some_iff.1 read
  have each : ∀ c ∈ List.replicate (n + 1) a, ∃ tokens, Condition.ofTokens tokens = .ok c := by
    intro c member
    rw [List.eq_of_mem_replicate member]
    exact ⟨tokens, eq_ok_of_toOption reads⟩
  obtain ⟨whole, found, assembled⟩ : ∃ whole,
      (guardedHead (n + 1)).restriction.condition [] = some whole ∧
        Assembled ([] ++ (List.replicate (n + 1) a).map (·.expr)) whole :=
    ⟨_, congrArg _ conditions, assembled_foldl .none each⟩
  have total := assembled.operators_eq
  simp only [List.nil_append, List.map_replicate, List.sum_replicate, leaf] at total
  cases whole with
  | none => simp at total
  | some c => exact ⟨c, found, by simpa using total.symm⟩

private theorem Lexeme.next_letter {c b : Char} (letter : c = 'A' ∨ c = 'a')
    (mark : b = '[' ∨ b = ']') (cs : List Char) :
    Lexeme.next c (b :: cs) = (.ident (String.ofList [c]), 0) := by
  have name : Lexeme.takeName (c :: b :: cs) = ([c], 1) := by
    have continues : Lexeme.continuesName c = true ∧ Lexeme.plain c = c ∧ c ≠ '\\' := by
      rcases letter with rfl | rfl <;> decide
    have stops : Lexeme.continuesName b = false ∧ b ≠ '\\' := by
      rcases mark with rfl | rfl <;> decide
    simp [Lexeme.takeName, continues, stops]
  have starts : Lexeme.atName (c :: b :: cs) = true := by
    rcases letter with rfl | rfl <;> rfl
  have number : Lexeme.atNumber (c :: b :: cs) = false := by
    rcases letter with rfl | rfl <;> rfl
  have arrow : ¬['-', '-', '>'] <+: c :: b :: cs := by
    rcases letter with rfl | rfl <;> simp
  have round : ¬['('] <+: (c :: b :: cs).drop (Lexeme.takeName (c :: b :: cs)).2 := by
    rw [name]
    rcases mark with rfl | rfl <;> simp
  rw [Lexeme.next_of_atName starts number arrow, Lexeme.takeWord_of_not_round round, name]
  rfl

private theorem legible_guards (n : Nat) {rest : List Token}
    (h : Token.Legible (Token.lexed rest) []) :
    Token.Legible (Token.lexed ((List.replicate n guard).flatten ++ rest)) [] := by
  induction n with
  | zero => exact h
  | succ n ih =>
      rw [List.replicate_succ, List.flatten_cons, List.append_assoc, Token.lexed_append,
        Token.legible_append]
      exact ⟨⟨⟨'[', [], .mark '[', rfl, rfl, rfl⟩, ⟨'a', [], .ident "a", by decide,
          Lexeme.next_letter (.inr rfl) (.inr rfl) _, rfl⟩,
        ⟨']', [], .mark ']', rfl, rfl, rfl⟩, trivial⟩, ih⟩

private theorem closes_guards (n : Nat) (rest : List Token) :
    Token.Closes [] ((List.replicate n guard).flatten ++ rest) ↔ Token.Closes [] rest := by
  induction n with
  | zero => exact Iff.rfl
  | succ n ih =>
      rw [List.replicate_succ, List.flatten_cons, List.append_assoc, ← ih]
      exact ⟨fun h => h.2.2.2, fun h => ⟨fun _ => by decide, nofun, nofun, h⟩⟩

private theorem closes_guardedBy (n : Nat) : Token.Closes [] (guardedBy n) := by
  refine ⟨nofun, (closes_guards n _).2 ?_⟩
  decide

private theorem start_ne_assign {n : Nat} :
    ∀ token ∈ guardedBy n, token.kind.start ≠ .operator .assign := by
  have inside : ∀ token ∈ guard, token.kind.start ≠ .operator .assign :=
    List.forall_mem_cons.2 ⟨nofun,
      List.forall_mem_cons.2 ⟨nofun, List.forall_mem_singleton.2 nofun⟩⟩
  refine List.forall_mem_cons.2 ⟨nofun, List.forall_mem_append.2 ⟨fun token member => ?_,
    List.forall_mem_cons.2 ⟨nofun, List.forall_mem_singleton.2 nofun⟩⟩⟩
  obtain ⟨group, listed, here⟩ := List.mem_flatten.1 member
  rw [List.eq_of_mem_replicate listed] at here
  exact inside token here

private theorem scan_guardedBy (n : Nat) : ∃ read,
    Token.scan (Token.render (guardedBy (n + 1))) none = .ok read ∧
      Alike (guardedBy (n + 1)) read := by
  have legible : Token.Legible (Token.lexed (guardedBy (n + 1))) [] := by
    rw [guardedBy, Token.lexed_cons, Token.legible_append, List.append_nil]
    refine ⟨⟨⟨'A', [], .ident "A", by decide, ?_, rfl⟩, trivial⟩, legible_guards _ ?_⟩
    · rw [List.replicate_succ]
      exact Lexeme.next_letter (.inl rfl) (.inl rfl) _
    · exact ⟨⟨'\x7b', [], .mark '\x7b', rfl, rfl, rfl⟩, ⟨'\x7d', [], .mark '\x7d', rfl, rfl, rfl⟩,
        trivial⟩
  have unjoined : (guardedBy (n + 1)).IsChain Token.Unjoined :=
    (List.pairwise_of_forall_mem_list fun _ _ next member assign =>
      absurd assign (start_ne_assign next member)).isChain
  obtain ⟨closes, faces⟩ := Token.scan_render_unspaced rfl legible unjoined none
  obtain ⟨read, scanned⟩ := closes.2 (closes_guardedBy (n + 1))
  exact ⟨read, scanned, Draft.alike_of_faces (faces read scanned).symm⟩

/-- So many brackets, and one operator less: no limit holds for all stylesheets. -/
theorem exists_operators (registry : Registry) (serial n : Nat) : ∃ tokens s e c,
    Token.scan (Token.render (guardedBy (n + 1))) none = .ok tokens ∧
      build registry serial tokens = .ok s ∧ e ∈ s.sheet.rules.entries ∧
      e.selector.condition = some c ∧ c.expr.operators = n := by
  obtain ⟨c, guarded, operators⟩ := exists_condition_guardedHead n
  let selector : Selector := ⟨.className "A", none, some c⟩
  have head : (guardedHead (n + 1)).selector [] = some selector := by
    rw [Outline.Head.selector, guarded]
    rfl
  have effect : [Outline.Block.rules (guardedHead (n + 1)) [] .done].foldlM
      (Outline.Block.effect (Draft.semantics registry)) (.start serial) =
        some ((State.start serial).introduceAll [selector]) := by
    rw [List.foldlM_cons, Draft.effect_rules]
    have heads : [guardedHead (n + 1)].mapM
        (Outline.Head.selector (State.start serial).definitions) = some [selector] :=
      mapM_cons_eq_some.2 ⟨selector, [], head, rfl, rfl⟩
    rw [heads]
    rfl
  have accepted : build registry serial (guardedBy (n + 1)) = .ok _ :=
    (build_eq_ok_iff_effect (written_guardedBy (n + 1))).2 effect
  -- The tokens of the text have places of their own, on which nothing depends.
  obtain ⟨tokens, scanned, alike⟩ := scan_guardedBy n
  have agree := build_alike registry serial alike
  rw [accepted] at agree
  generalize built : build registry serial tokens = result at agree
  cases agree with
  | @ok _ s same =>
      refine ⟨tokens, s, ⟨selector, ∅⟩, c, scanned, built, ?_, rfl, operators⟩
      rw [← same.sheet]
      exact List.mem_singleton.2 rfl

/-- A condition with more operators than one pair of brackets may have. -/
theorem operators_exceed_limit : ∃ (source : String) (tokens : List Token) (s : State) (e : Entry)
    (c : Condition), Token.scan source none = .ok tokens ∧ build .builtins 0 tokens = .ok s ∧
      e ∈ s.sheet.rules.entries ∧ e.selector.condition = some c ∧
      operatorLimit < c.expr.operators := by
  obtain ⟨tokens, s, e, c, scanned, accepted, listed, guarded, operators⟩ :=
    exists_operators .builtins 0 (operatorLimit + 1)
  exact ⟨_, tokens, s, e, c, scanned, accepted, listed, guarded, by omega⟩

end Builder

end ViewStyle
