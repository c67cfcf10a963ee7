/-
The grammar of equations, and that exactly its texts are read, each as the equation that it writes.
White space is taken out first, so that the grammar knows none.
-/

import ViewStyle.Except
import ViewStyle.Layout.Reader
import ViewStyle.Proofs.Decimal.Spelling

set_option autoImplicit false

namespace ViewStyle

namespace Text

variable {m : Char} {mark cs before behind : List Char}

private theorem splitFirst?_append {front : List Char} (absent : m ∉ front) (mark cs : List Char) :
    splitFirst? (m :: mark) (front ++ cs) =
      (splitFirst? (m :: mark) cs).map fun (before, behind) => (front ++ before, behind) := by
  induction front with
  | nil => simp
  | cons c front ih =>
      have differs : (m == c) = false := by
        simpa using fun same : m = c => absent (same ▸ List.mem_cons_self)
      rw [List.cons_append, splitFirst?, List.isPrefixOf, differs,
        ih fun member => absent (List.mem_cons_of_mem _ member)]
      cases splitFirst? (m :: mark) cs <;> rfl

private theorem splitFirst?_eq_none (absent : m ∉ cs) : splitFirst? (m :: mark) cs = none := by
  rw [← List.append_nil cs, splitFirst?_append absent]
  rfl

private theorem isPrefixOf_eq_false (absent : m ∉ cs) : (m :: mark).isPrefixOf cs = false := by
  refine Bool.eq_false_iff.2 fun starts => absent ?_
  exact (List.isPrefixOf_iff_prefix.1 starts).subset List.mem_cons_self

private theorem eq_of_splitFirst? (h : splitFirst? mark cs = some (before, behind)) :
    cs = before ++ (mark ++ behind) := by
  induction cs generalizing before with
  | nil =>
      unfold splitFirst? at h
      split at h
      · rename_i empty
        cases h
        simpa using empty
      · cases h
  | cons c cs ih =>
      unfold splitFirst? at h
      split at h
      · rename_i starts
        cases h
        obtain ⟨rest, same⟩ := List.isPrefixOf_iff_prefix.1 starts
        simp [← same]
      · obtain ⟨⟨front, back⟩, found, same⟩ := Option.map_eq_some_iff.1 h
        cases same
        rw [ih found]
        rfl

private theorem not_mem_of_splitFirst? (h : splitFirst? [m] cs = some (before, behind)) :
    m ∉ before := by
  induction cs generalizing before with
  | nil => cases h
  | cons c cs ih =>
      unfold splitFirst? at h
      split at h
      · cases h
        exact List.not_mem_nil
      · rename_i other
        obtain ⟨⟨front, back⟩, found, same⟩ := Option.map_eq_some_iff.1 h
        cases same
        have differs : m ≠ c := by
          rintro rfl
          exact other (by simp)
        exact List.not_mem_cons_of_ne_of_not_mem differs (ih found)

private theorem splitFirst?_eq_some_iff :
    splitFirst? [m] cs = some (before, behind) ↔ cs = before ++ m :: behind ∧ m ∉ before := by
  constructor
  · exact fun h => ⟨eq_of_splitFirst? h, not_mem_of_splitFirst? h⟩
  · rintro ⟨rfl, absent⟩
    rw [splitFirst?_append absent]
    simp [splitFirst?]

end Text

namespace Layout

open Decimal (Numeral WrittenDigits WrittenMantissa)

inductive WrittenItem : Item → List Char → Prop
  | itself : WrittenItem .itself "__self".toList
  | subview {key : List Char} : key ≠ [] → (∀ c ∈ key, Text.isWord c = true) →
      '_' :: key ≠ "__self".toList → '_' :: key ≠ "__constant".toList →
        WrittenItem (.subview (String.ofList key)) ('_' :: key)

/-- A view and one of its attributes. -/
inductive WrittenAnchor : Anchor → List Char → Prop
  | intro {item : Item} {name : List Char} (attr : Attribute) : WrittenItem item name →
      WrittenAnchor ⟨item, attr⟩ (name ++ '.' :: attr.name.toList)

/-- The anchor on the right; `__constant` stands for none, with any word as its attribute. -/
inductive WrittenSecond : Option Anchor → List Char → Prop
  | anchor {a : Anchor} {cs : List Char} : WrittenAnchor a cs → WrittenSecond (some a) cs
  | constant {letters : List Char} : letters ≠ [] → (∀ c ∈ letters, c.isAlpha = true) →
      WrittenSecond none ("__constant".toList ++ '.' :: letters)

private theorem Attribute.ofName?_eq_some_iff {name : String} {attr : Attribute} :
    ofName? name = some attr ↔ attr.name = name := by
  constructor
  · intro h
    simpa using List.find?_some h
  · rintro rfl
    cases attr <;> rfl

private theorem Attribute.name_letters (attr : Attribute) :
    attr.name.toList ≠ [] ∧ attr.name.toList.all Char.isAlpha = true := by
  cases attr <;> exact ⟨by decide, by decide⟩

private theorem isItem_iff {cs : List Char} : isItem cs = true ↔
    ∃ key, cs = '_' :: key ∧ key ≠ [] ∧ ∀ c ∈ key, Text.isWord c = true := by
  constructor
  · intro h
    unfold isItem at h
    split at h
    · exact ⟨_, rfl, List.cons_ne_nil _ _, List.all_eq_true.1 h⟩
    · cases h
  · rintro ⟨key, rfl, nonempty, word⟩
    cases key with
    | nil => exact absurd rfl nonempty
    | cons c key => exact List.all_eq_true.2 word

private theorem point_notMem_of_isItem {cs : List Char} (h : isItem cs = true) : '.' ∉ cs := by
  obtain ⟨key, rfl, -, word⟩ := isItem_iff.1 h
  intro member
  rcases List.mem_cons.1 member with same | inside
  · cases same
  · exact Bool.noConfusion (word '.' inside)

private theorem anchorParts?_eq_some_iff {cs item attr : List Char} :
    anchorParts? cs = some (item, attr) ↔ cs = item ++ '.' :: attr ∧ isItem item = true ∧
      attr ≠ [] ∧ ∀ c ∈ attr, c.isAlpha = true := by
  unfold anchorParts?
  constructor
  · intro h
    split at h
    · rename_i item' attr' split
      split at h
      · rename_i parts
        cases h
        simp only [Bool.and_eq_true, Bool.not_eq_true', List.isEmpty_eq_false_iff,
          List.all_eq_true] at parts
        exact ⟨(Text.splitFirst?_eq_some_iff.1 split).1, parts.1.1, parts.1.2, parts.2⟩
      · cases h
    · cases h
  · rintro ⟨rfl, word, nonempty, letters⟩
    rw [Text.splitFirst?_eq_some_iff.2 ⟨rfl, point_notMem_of_isItem word⟩]
    simpa [word, nonempty] using letters

private theorem WrittenItem.isItem {item : Item} {name : List Char} (h : WrittenItem item name) :
    isItem name = true ∧ String.ofList name ≠ "__constant" := by
  cases h with
  | itself => exact ⟨by decide +kernel, by decide⟩
  | subview nonempty word _ other =>
      exact ⟨isItem_iff.2 ⟨_, rfl, nonempty, word⟩, fun same => other (String.ofList_eq.1 same)⟩

private theorem readAnchor_of_parts {cs item attr : List Char}
    (parts : anchorParts? cs = some (item, attr)) (other : String.ofList item ≠ "__constant") :
    readAnchor cs = match Attribute.ofName? (String.ofList attr) with
      | none => .error (.unknownAttribute (String.ofList attr))
      | some attr => .ok (some ⟨if String.ofList item = selfKey then .itself
          else .subview (String.ofList (item.drop 1)), attr⟩) := by
  unfold readAnchor
  rw [parts]
  dsimp only
  rw [if_neg other]
  cases Attribute.ofName? (String.ofList attr) with
  | none => rfl
  | some attr =>
      dsimp only
      split <;> rfl

private theorem readAnchor_eq_ok_iff {cs : List Char} {second : Option Anchor} :
    readAnchor cs = .ok second ↔ WrittenSecond second cs := by
  constructor
  · intro h
    cases parts : anchorParts? cs with
    | none =>
        unfold readAnchor at h
        rw [parts] at h
        cases h
    | some found =>
        obtain ⟨item, name⟩ := found
        obtain ⟨rfl, word, nonempty, letters⟩ := anchorParts?_eq_some_iff.1 parts
        by_cases constant : String.ofList item = "__constant"
        · have none_there : readAnchor (item ++ '.' :: name) = .ok none := by
            unfold readAnchor
            rw [parts]
            exact if_pos constant
          rw [none_there] at h
          cases h
          rw [String.ofList_eq.1 constant]
          exact .constant nonempty letters
        · rw [readAnchor_of_parts parts constant] at h
          split at h
          · cases h
          · rename_i attr found
            cases h
            have named : name = attr.name.toList := by
              rw [Attribute.ofName?_eq_some_iff.1 found, String.toList_ofList]
            rw [named]
            obtain ⟨key, rfl, nonempty, word⟩ := isItem_iff.1 word
            split
            · rename_i itself
              rw [String.ofList_eq.1 itself]
              exact .anchor (.intro attr .itself)
            · rename_i other
              exact .anchor (.intro attr (.subview nonempty word
                (fun same => other (String.ofList_eq.2 same))
                fun same => constant (String.ofList_eq.2 same)))
  · intro h
    cases h with
    | anchor written =>
        obtain @⟨item, name, attr, named⟩ := written
        obtain ⟨word, other⟩ := named.isItem
        have parts := anchorParts?_eq_some_iff.2 ⟨rfl, word, attr.name_letters.1,
          List.all_eq_true.1 attr.name_letters.2⟩
        rw [readAnchor_of_parts parts other, String.ofList_toList,
          Attribute.ofName?_eq_some_iff.2 rfl]
        cases named with
        | itself => rfl
        | subview _ _ distinct _ =>
            have view : String.ofList _ ≠ selfKey := fun same => distinct (String.ofList_eq.1 same)
            dsimp only
            rw [if_neg view]
            rfl
    | @constant letters nonempty alpha =>
        have parts := anchorParts?_eq_some_iff.2
          ⟨rfl, (by decide +kernel : isItem "__constant".toList = true), nonempty, alpha⟩
        unfold readAnchor
        rw [parts]
        exact if_pos (String.ofList_toList)

inductive WrittenPlain : Numeral → List Char → Prop
  | whole {digits : List Char} : WrittenDigits digits →
      WrittenPlain (.decimal false (Decimal.digitsValue digits) 0) digits
  | pointed {whole fraction : List Char} : (∀ c ∈ whole, c.isDigit = true) →
      WrittenDigits fraction →
        WrittenPlain (.decimal false (Decimal.digitsValue (whole ++ fraction)) (-fraction.length))
          (whole ++ '.' :: fraction)

private theorem WrittenPlain.written {n : Numeral} {cs : List Char} (h : WrittenPlain n cs) :
    n.Written cs := by
  cases h with
  | whole digits =>
      have written := Numeral.Written.decimal .absent (.whole digits) .absent
      simpa using written
  | @pointed whole fraction digits behind =>
      have both : WrittenDigits (whole ++ fraction) :=
        ⟨fun none => behind.nonempty (List.append_eq_nil_iff.1 none).2,
          fun c member => (List.mem_append.1 member).elim (digits c) (behind.digits c)⟩
      have written := Numeral.Written.decimal .absent (.pointed both) .absent
      simpa using written

private theorem isDecimalDigit_of_isDigit {c : Char} (h : c.isDigit = true) :
    Text.isDecimalDigit c = true := by
  have bounds := Decimal.isDigit_iff.1 h
  rw [Text.isDecimalDigit, if_pos (by omega)]
  exact h

private theorem takeNumeral?_eq_some {cs numeral rest : List Char}
    (h : takeNumeral? cs = some (numeral, rest)) : cs = numeral ++ rest ∧
      ((numeral ≠ [] ∧ ∀ c ∈ numeral, Text.isDecimalDigit c = true) ∨
        ∃ whole fraction, numeral = whole ++ '.' :: fraction ∧ fraction ≠ [] ∧
          (∀ c ∈ whole, Text.isDecimalDigit c = true) ∧
            ∀ c ∈ fraction, Text.isDecimalDigit c = true) := by
  have split : cs = cs.takeWhile Text.isDecimalDigit ++ cs.dropWhile Text.isDecimalDigit :=
    List.takeWhile_append_dropWhile.symm
  have before : ∀ c ∈ cs.takeWhile Text.isDecimalDigit, Text.isDecimalDigit c = true :=
    fun c member => List.mem_takeWhile_imp member
  unfold takeNumeral? at h
  dsimp only at h
  split at h
  · rename_i behind point
    split at h
    · split at h
      · cases h
      · rename_i nonempty
        cases h
        exact ⟨split, .inl ⟨by simpa using nonempty, before⟩⟩
    · rename_i nonempty
      cases h
      refine ⟨?_, .inr ⟨_, _, rfl, by simpa using nonempty, before,
        fun c member => List.mem_takeWhile_imp member⟩⟩
      rw [List.append_assoc, List.cons_append, List.takeWhile_append_dropWhile, ← point]
      exact split
  · split at h
    · cases h
    · rename_i nonempty
      cases h
      exact ⟨split, .inl ⟨by simpa using nonempty, before⟩⟩

private theorem isDigit_of_written {n : Numeral} {cs : List Char} (h : n.Written cs) {c : Char}
    (member : c ∈ cs) (digit : Text.isDecimalDigit c = true) : c.isDigit = true := by
  have low : c.toNat < 128 := by
    rcases h.characters c member with alpha | digit | rfl | rfl | rfl
    · have ranges := Decimal.isAlpha_iff.1 alpha
      omega
    · have bounds := Decimal.isDigit_iff.1 digit
      omega
    all_goals decide
  rwa [Text.isDecimalDigit, if_pos low] at digit

private theorem writtenPlain_of_takeNumeral? {cs numeral rest : List Char} {n : Numeral}
    (h : takeNumeral? cs = some (numeral, rest)) (written : n.Written numeral) :
    WrittenPlain n numeral := by
  have digit {c : Char} := isDigit_of_written written (c := c)
  obtain ⟨-, ⟨nonempty, digits⟩ | ⟨whole, fraction, rfl, nonempty, before, behind⟩⟩ :=
    takeNumeral?_eq_some h
  · have plain := WrittenPlain.whole ⟨nonempty, fun c member => digit member (digits c member)⟩
    rwa [written.unique plain.written]
  · have plain := WrittenPlain.pointed
      (fun c member => digit (List.mem_append_left _ member) (before c member))
      ⟨nonempty, fun c member =>
        digit (List.mem_append_right _ (List.mem_cons_of_mem _ member)) (behind c member)⟩
    rwa [written.unique plain.written]

private theorem takeNumeral?_append {n : Numeral} {cs rest : List Char} (h : WrittenPlain n cs)
    (stops : ∀ c ∈ rest.head?, Text.isDecimalDigit c = false ∧ c ≠ '.') :
    takeNumeral? (cs ++ rest) = some (cs, rest) := by
  have ends : ∀ c ∈ rest.head?, Text.isDecimalDigit c = false := fun c first => (stops c first).1
  unfold takeNumeral?
  cases h with
  | whole digits =>
      obtain ⟨taken, left⟩ := Decimal.takeWhile_dropWhile_append
        (fun c member => isDecimalDigit_of_isDigit (digits.digits c member)) ends
      rw [taken, left]
      dsimp only
      split
      · exact absurd rfl (stops '.' rfl).2
      · simp [digits.nonempty]
  | @pointed whole fraction before behind =>
      have point : ∀ c ∈ ('.' :: (fraction ++ rest)).head?, Text.isDecimalDigit c = false := by
        rintro c ⟨⟩
        rfl
      obtain ⟨taken, left⟩ := Decimal.takeWhile_dropWhile_append
        (fun c member => isDecimalDigit_of_isDigit (before c member)) point
      obtain ⟨taken', left'⟩ := Decimal.takeWhile_dropWhile_append
        (fun c member => isDecimalDigit_of_isDigit (behind.digits c member)) ends
      rw [List.append_assoc, List.cons_append, taken, left]
      show (if ((fraction ++ rest).takeWhile Text.isDecimalDigit).isEmpty then _
        else some (whole ++ '.' :: (fraction ++ rest).takeWhile Text.isDecimalDigit,
          (fraction ++ rest).dropWhile Text.isDecimalDigit)) = _
      rw [taken', left', if_neg (by simpa using behind.nonempty)]

/-- A factor behind a star. -/
inductive WrittenFactor : Option Numeral → List Char → Prop
  | absent : WrittenFactor none []
  | present {n : Numeral} {cs : List Char} : WrittenPlain n cs → WrittenFactor (some n) ('*' :: cs)

/-- A summand behind its sign; the flag is true for a minus. -/
inductive WrittenSummand : Option (Bool × Numeral) → List Char → Prop
  | absent : WrittenSummand none []
  | plus {n : Numeral} {cs : List Char} : WrittenPlain n cs →
      WrittenSummand (some (false, n)) ('+' :: cs)
  | minus {n : Numeral} {cs : List Char} : WrittenPlain n cs →
      WrittenSummand (some (true, n)) ('-' :: cs)

private theorem readNumber_eq_ok_iff {cs : List Char} {x : Float} :
    readNumber cs = .ok x ↔ ∃ n : Numeral, n.Written cs ∧ n.toFloat = x := by
  unfold readNumber
  constructor
  · intro h
    split at h
    · rename_i n read
      cases h
      exact ⟨n, Numeral.read?_eq_some_iff.1 read, rfl⟩
    · cases h
  · rintro ⟨n, written, rfl⟩
    rw [Numeral.read?_eq_some_iff.2 written]

private theorem finiteNumber?_eq_some_iff {cs : List Char} {x : Float} : finiteNumber? cs = some x ↔
    ∃ n : Numeral, n.Written cs ∧ n.toFloat.isFinite = true ∧ n.toFloat = x := by
  unfold finiteNumber?
  constructor
  · intro h
    split at h
    · rename_i y read
      split at h
      · rename_i finite
        cases h
        obtain ⟨n, found, rfl⟩ := Option.map_eq_some_iff.1 read
        exact ⟨n, Numeral.read?_eq_some_iff.1 found, finite, rfl⟩
      · cases h
    · cases h
  · rintro ⟨n, written, finite, rfl⟩
    rw [Numeral.read?_eq_some_iff.2 written]
    exact if_pos finite

/-- The right side of an equation: a number, or a multiple of an attribute and a summand. -/
inductive Side
  | number (n : Numeral)
  | linear (second : Option Anchor) (factor : Option Numeral) (summand : Option (Bool × Numeral))

namespace Side

def second : Side → Option Anchor
  | .number _ => none
  | .linear second _ _ => second

def multiplier : Side → Float
  | .number _ => 1
  | .linear _ factor _ => factor.elim 1 Numeral.toFloat

def constant : Side → Float
  | .number n => n.toFloat
  | .linear _ _ summand =>
      summand.elim 0 fun (negative, n) => if negative then -n.toFloat else n.toFloat

/-- A number alone is any numeral of a finite number. -/
inductive Written : Side → List Char → Prop
  | number {n : Numeral} {cs : List Char} : n.Written cs → n.toFloat.isFinite = true →
      Written (.number n) cs
  | linear {second : Option Anchor} {f : Option Numeral} {s : Option (Bool × Numeral)}
      {anchor factor summand : List Char} : WrittenSecond second anchor → WrittenFactor f factor →
        WrittenSummand s summand → Written (.linear second f s) (anchor ++ (factor ++ summand))

end Side

def factorValue (factor : Option (List Char)) : Except Fault Float :=
  factor.elim (.ok 1) readNumber

def summandValue : Option (Bool × List Char) → Except Fault Float
  | none => .ok 0
  | some (negative, numeral) => do
      let magnitude ← readNumber numeral
      return if negative then -magnitude else magnitude

private theorem readRightSide_of_parts {cs : List Char} (not_number : finiteNumber? cs = none)
    {side : RightSide} (parts : splitRightSide? cs = some side) :
    readRightSide cs = (do
      let second ← readAnchor side.anchor
      let multiplier ← factorValue side.factor
      let constant ← summandValue side.summand
      return (second, multiplier, constant)) := by
  obtain ⟨anchor, factor, summand⟩ := side
  unfold readRightSide
  rw [not_number]
  dsimp only
  rw [parts]
  dsimp only
  cases summand with
  | none => cases factor <;> rfl
  | some summand =>
      obtain ⟨negative, numeral⟩ := summand
      simp only [summandValue, bind_assoc]
      cases factor <;> rfl

private theorem factor_of_takeFactor? {rest rest' : List Char} {factor : Option (List Char)}
    (taken : takeFactor? rest = some (factor, rest')) {x : Float} (value : factorValue factor = .ok x) :
    ∃ f text, rest = text ++ rest' ∧ WrittenFactor f text ∧ f.elim 1 Numeral.toFloat = x := by
  unfold takeFactor? at taken
  split at taken
  · obtain ⟨⟨numeral, rest⟩, found, same⟩ := Option.map_eq_some_iff.1 taken
    cases same
    obtain ⟨n, written, rfl⟩ := readNumber_eq_ok_iff.1 value
    rw [(takeNumeral?_eq_some found).1]
    exact ⟨some n, _, rfl, .present (writtenPlain_of_takeNumeral? found written), rfl⟩
  · cases taken
    cases value
    exact ⟨none, [], rfl, .absent, rfl⟩

private theorem takeFactor?_append {f : Option Numeral} {factor rest : List Char}
    (h : WrittenFactor f factor) (stops : ∀ c ∈ rest.head?, c = '+' ∨ c = '-') :
    ∃ taken, takeFactor? (factor ++ rest) = some (taken, rest) ∧
      factorValue taken = .ok (f.elim 1 Numeral.toFloat) := by
  have ends : ∀ c ∈ rest.head?, Text.isDecimalDigit c = false ∧ c ≠ '.' := by
    intro c first
    rcases stops c first with rfl | rfl <;> exact ⟨rfl, by decide⟩
  cases h with
  | absent =>
      refine ⟨none, ?_, rfl⟩
      rw [List.nil_append]
      unfold takeFactor?
      split
      · exact absurd (stops '*' rfl) (by decide)
      · rfl
  | @present n cs plain =>
      refine ⟨some cs, ?_, readNumber_eq_ok_iff.2 ⟨n, plain.written, rfl⟩⟩
      show (takeNumeral? (cs ++ rest)).map (fun (numeral, rest) => (some numeral, rest)) = _
      rw [takeNumeral?_append plain ends]
      rfl

private theorem summand_of_endSummand? {text : List Char} {summand : Option (Bool × List Char)}
    (taken : endSummand? text = some summand) {x : Float} (value : summandValue summand = .ok x) :
    ∃ s, WrittenSummand s text ∧
      s.elim 0 (fun (negative, n) => if negative then -n.toFloat else n.toFloat) = x := by
  unfold endSummand? at taken
  split at taken
  · cases taken
    cases value
    exact ⟨none, .absent, rfl⟩
  · rename_i c cs
    split at taken
    · rename_i sign
      split at taken
      · rename_i numeral found
        cases taken
        obtain ⟨magnitude, read, value⟩ := bind_eq_ok value
        cases value
        obtain ⟨n, written, rfl⟩ := readNumber_eq_ok_iff.1 read
        have plain := writtenPlain_of_takeNumeral? found written
        have whole := (takeNumeral?_eq_some found).1
        rw [List.append_nil] at whole
        rw [whole]
        rcases sign with rfl | rfl
        · exact ⟨_, .plus plain, rfl⟩
        · exact ⟨_, .minus plain, rfl⟩
      · cases taken
    · cases taken

private theorem endSummand?_written {s : Option (Bool × Numeral)} {summand : List Char}
    (h : WrittenSummand s summand) : ∃ taken, endSummand? summand = some taken ∧
      summandValue taken =
        .ok (s.elim 0 fun (negative, n) => if negative then -n.toFloat else n.toFloat) := by
  have taken {n : Numeral} {cs : List Char} (plain : WrittenPlain n cs) :
      takeNumeral? cs = some (cs, []) := by
    have found : takeNumeral? (cs ++ []) = some (cs, []) := takeNumeral?_append plain nofun
    rwa [List.append_nil] at found
  have read {n : Numeral} {cs : List Char} (plain : WrittenPlain n cs) :
      readNumber cs = .ok n.toFloat := readNumber_eq_ok_iff.2 ⟨n, plain.written, rfl⟩
  cases h with
  | absent => exact ⟨none, rfl, rfl⟩
  | @plus n cs plain =>
      refine ⟨some (false, cs), ?_, ?_⟩
      · rw [endSummand?, if_pos (.inl rfl), taken plain]
        rfl
      · rw [summandValue, read plain]
        rfl
  | @minus n cs plain =>
      refine ⟨some (true, cs), ?_, ?_⟩
      · rw [endSummand?, if_pos (.inr rfl), taken plain]
        rfl
      · rw [summandValue, read plain]
        rfl

private theorem splitRightSide?_eq_some {cs : List Char} {side : RightSide}
    (h : splitRightSide? cs = some side) : ∃ rest rest', cs = side.anchor ++ rest ∧
      takeFactor? rest = some (side.factor, rest') ∧ endSummand? rest' = some side.summand := by
  unfold splitRightSide? at h
  obtain ⟨⟨item, behind⟩, found, h⟩ := Option.bind_eq_some_iff.1 h
  dsimp only at h
  split at h
  · cases h
  · obtain ⟨⟨factor, rest⟩, factored, h⟩ := Option.bind_eq_some_iff.1 h
    obtain ⟨summand, ended, same⟩ := Option.bind_eq_some_iff.1 h
    cases same
    refine ⟨_, rest, ?_, factored, ended⟩
    rw [(Text.splitFirst?_eq_some_iff.1 found).1, List.append_assoc, List.cons_append,
      List.takeWhile_append_dropWhile]

private theorem WrittenSecond.exists_parts {second : Option Anchor} {cs : List Char}
    (h : WrittenSecond second cs) : ∃ item attr, cs = item ++ '.' :: attr ∧ isItem item = true ∧
      attr ≠ [] ∧ ∀ c ∈ attr, c.isAlpha = true := by
  have read := readAnchor_eq_ok_iff.2 h
  unfold readAnchor at read
  split at read
  · cases read
  · rename_i item attr parts
    exact ⟨item, attr, anchorParts?_eq_some_iff.1 parts⟩

private theorem splitRightSide?_append {second : Option Anchor} {anchor rest rest' : List Char}
    (h : WrittenSecond second anchor) (stops : ∀ c ∈ rest.head?, c.isAlpha = false)
    {factor : Option (List Char)} (factored : takeFactor? rest = some (factor, rest'))
    {summand : Option (Bool × List Char)} (ended : endSummand? rest' = some summand) :
    splitRightSide? (anchor ++ rest) = some ⟨anchor, factor, summand⟩ := by
  obtain ⟨item, attr, rfl, word, nonempty, letters⟩ := h.exists_parts
  obtain ⟨taken, left⟩ := Decimal.takeWhile_dropWhile_append letters stops
  have found : Text.splitFirst? ['.'] (item ++ '.' :: attr ++ rest) = some (item, attr ++ rest) :=
    Text.splitFirst?_eq_some_iff.2 ⟨by simp, point_notMem_of_isItem word⟩
  have proper : (!isItem item || attr.isEmpty) = false := by simp [word, nonempty]
  simp only [splitRightSide?, found, Option.bind_eq_bind, Option.bind_some, taken, left, proper,
    Bool.false_eq_true, if_false, factored, ended]

private theorem WrittenFactor.head {f : Option Numeral} {factor : List Char}
    (h : WrittenFactor f factor) : ∀ c ∈ factor.head?, c = '*' := by
  cases h with
  | absent => nofun
  | present => rintro c ⟨⟩; rfl

private theorem WrittenSummand.head {s : Option (Bool × Numeral)} {summand : List Char}
    (h : WrittenSummand s summand) : ∀ c ∈ summand.head?, c = '+' ∨ c = '-' := by
  cases h with
  | absent => nofun
  | plus => rintro c ⟨⟩; exact .inl rfl
  | minus => rintro c ⟨⟩; exact .inr rfl

private theorem WrittenSecond.not_number {second : Option Anchor} {anchor : List Char}
    (h : WrittenSecond second anchor) (rest : List Char) : finiteNumber? (anchor ++ rest) = none := by
  obtain ⟨item, attr, rfl, word, -, -⟩ := h.exists_parts
  obtain ⟨key, rfl, -, -⟩ := isItem_iff.1 word
  refine Option.eq_none_iff_forall_ne_some.2 fun x found => ?_
  obtain ⟨n, written, -, -⟩ := finiteNumber?_eq_some_iff.1 found
  exact absurd (written.characters '_' (by simp)) (by decide)

private theorem readRightSide_eq_ok_iff {cs : List Char} {second : Option Anchor}
    {multiplier constant : Float} : readRightSide cs = .ok (second, multiplier, constant) ↔
      ∃ side : Side, side.Written cs ∧ side.second = second ∧ side.multiplier = multiplier ∧
        side.constant = constant := by
  constructor
  · intro h
    cases alone : finiteNumber? cs with
    | some x =>
        obtain ⟨n, written, finite, rfl⟩ := finiteNumber?_eq_some_iff.1 alone
        unfold readRightSide at h
        rw [alone] at h
        cases h
        exact ⟨.number n, .number written finite, rfl, rfl, rfl⟩
    | none =>
        cases parts : splitRightSide? cs with
        | none =>
            unfold readRightSide at h
            rw [alone] at h
            dsimp only at h
            rw [parts] at h
            cases h
        | some side =>
            rw [readRightSide_of_parts alone parts] at h
            obtain ⟨second', anchored, h⟩ := bind_eq_ok h
            obtain ⟨multiplier', multiplied, h⟩ := bind_eq_ok h
            obtain ⟨constant', added, h⟩ := bind_eq_ok h
            cases h
            obtain ⟨rest, rest', rfl, factored, ended⟩ := splitRightSide?_eq_some parts
            obtain ⟨f, factor, rfl, of_factor, rfl⟩ := factor_of_takeFactor? factored multiplied
            obtain ⟨s, of_summand, rfl⟩ := summand_of_endSummand? ended added
            exact ⟨.linear second f s,
              .linear (readAnchor_eq_ok_iff.1 anchored) of_factor of_summand, rfl, rfl, rfl⟩
  · rintro ⟨side, written, rfl, rfl, rfl⟩
    cases written with
    | number written finite =>
        unfold readRightSide
        rw [finiteNumber?_eq_some_iff.2 ⟨_, written, finite, rfl⟩]
        rfl
    | @linear second f s anchor factor summand anchored of_factor of_summand =>
        obtain ⟨taken, factored, multiplied⟩ := takeFactor?_append of_factor of_summand.head
        obtain ⟨taken', ended, added⟩ := endSummand?_written of_summand
        have stops : ∀ c ∈ (factor ++ summand).head?, c.isAlpha = false := by
          intro c first
          rw [List.head?_append, Option.mem_def, Option.or_eq_some_iff] at first
          rcases first with first | ⟨-, first⟩
          · rw [of_factor.head c first]
            rfl
          · rcases of_summand.head c first with rfl | rfl <;> rfl
        have parts := splitRightSide?_append anchored stops factored ended
        rw [readRightSide_of_parts (anchored.not_number _) parts, readAnchor_eq_ok_iff.2 anchored,
          ok_bind, multiplied, ok_bind, added]
        rfl

def IsInner (c : Char) : Prop :=
  Text.isWord c = true ∨ c = '.' ∨ c = '*' ∨ c = '+' ∨ c = '-'

private theorem isInner_of_isAlpha {c : Char} (h : c.isAlpha = true) : IsInner c := by
  have ranges := Decimal.isAlpha_iff.1 h
  left
  rw [Text.isWord, if_pos (by omega), Char.isAlphanum, h]
  rfl

private theorem isInner_of_isDigit {c : Char} (h : c.isDigit = true) : IsInner c := by
  have bounds := Decimal.isDigit_iff.1 h
  left
  rw [Text.isWord, if_pos (by omega), Char.isAlphanum, h, Bool.or_true]
  rfl

private theorem isInner_of_written {n : Numeral} {cs : List Char} (h : n.Written cs) :
    ∀ c ∈ cs, IsInner c := by
  intro c member
  rcases h.characters c member with alpha | digit | rfl | rfl | rfl
  · exact isInner_of_isAlpha alpha
  · exact isInner_of_isDigit digit
  · exact .inr (.inr (.inr (.inl rfl)))
  · exact .inr (.inr (.inr (.inr rfl)))
  · exact .inr (.inl rfl)

private theorem IsInner.ne_mark {c : Char} (h : IsInner c) :
    c ≠ '<' ∧ c ≠ '>' ∧ c ≠ '=' ∧ c ≠ ',' := by
  rcases h with word | rfl | rfl | rfl | rfl
  · refine ⟨?_, ?_, ?_, ?_⟩ <;> rintro rfl <;> exact Bool.noConfusion word
  all_goals decide

private theorem WrittenSecond.inner {second : Option Anchor} {cs : List Char}
    (h : WrittenSecond second cs) : ∀ c ∈ cs, IsInner c := by
  obtain ⟨item, attr, rfl, word, -, letters⟩ := h.exists_parts
  obtain ⟨key, rfl, -, word⟩ := isItem_iff.1 word
  intro c member
  rcases List.mem_append.1 member with inside | inside
  · rcases List.mem_cons.1 inside with rfl | inside
    · exact .inl rfl
    · exact .inl (word c inside)
  · rcases List.mem_cons.1 inside with rfl | inside
    · exact .inr (.inl rfl)
    · exact isInner_of_isAlpha (letters c inside)

private theorem WrittenFactor.inner {f : Option Numeral} {cs : List Char} (h : WrittenFactor f cs) :
    ∀ c ∈ cs, IsInner c := by
  cases h with
  | absent => nofun
  | present plain =>
      exact List.forall_mem_cons.2 ⟨.inr (.inr (.inl rfl)), isInner_of_written plain.written⟩

private theorem WrittenSummand.inner {s : Option (Bool × Numeral)} {cs : List Char}
    (h : WrittenSummand s cs) : ∀ c ∈ cs, IsInner c := by
  cases h with
  | absent => nofun
  | plus plain =>
      exact List.forall_mem_cons.2
        ⟨.inr (.inr (.inr (.inl rfl))), isInner_of_written plain.written⟩
  | minus plain =>
      exact List.forall_mem_cons.2
        ⟨.inr (.inr (.inr (.inr rfl))), isInner_of_written plain.written⟩

private theorem Side.Written.inner {side : Side} {cs : List Char} (h : side.Written cs) :
    ∀ c ∈ cs, IsInner c := by
  cases h with
  | number written _ => exact isInner_of_written written
  | linear anchored of_factor of_summand =>
      intro c member
      rcases List.mem_append.1 member with inside | inside
      · exact anchored.inner c inside
      rcases List.mem_append.1 inside with inside | inside
      · exact of_factor.inner c inside
      · exact of_summand.inner c inside

/-- The spellings of the relations; the strict ones mean the same as the others. -/
inductive WrittenRelation : Relation → List Char → Prop
  | equal : WrittenRelation .equal ['=', '=']
  | single : WrittenRelation .equal ['=']
  | greaterEqual : WrittenRelation .greaterEqual ['>', '=']
  | greater : WrittenRelation .greaterEqual ['>']
  | lessEqual : WrittenRelation .lessEqual ['<', '=']
  | less : WrittenRelation .lessEqual ['<']

private theorem splitRelation?_eq_some {body left right : List Char} {relation : Relation}
    (h : splitRelation? body = some (left, relation, right)) :
    ∃ mark, WrittenRelation relation mark ∧ body = left ++ (mark ++ right) := by
  obtain ⟨⟨mark, relation'⟩, member, found⟩ := List.exists_of_findSome?_eq_some h
  obtain ⟨⟨before, behind⟩, split, same⟩ := Option.map_eq_some_iff.1 found
  cases same
  refine ⟨mark, ?_, Text.eq_of_splitFirst? split⟩
  simp only [relations, List.mem_cons, List.not_mem_nil, or_false, Prod.mk.injEq] at member
  rcases member with ⟨rfl, rfl⟩ | ⟨rfl, rfl⟩ | ⟨rfl, rfl⟩ | ⟨rfl, rfl⟩ | ⟨rfl, rfl⟩ | ⟨rfl, rfl⟩
  all_goals constructor

private theorem splitRelation?_append {relation : Relation} {mark left right : List Char}
    (h : WrittenRelation relation mark) (before : ∀ c ∈ left, IsInner c)
    (behind : ∀ c ∈ right, IsInner c) :
    splitRelation? (left ++ (mark ++ right)) = some (left, relation, right) := by
  have equal : '=' ∉ left ∧ '=' ∉ right :=
    ⟨fun inside => (before _ inside).ne_mark.2.2.1 rfl,
      fun inside => (behind _ inside).ne_mark.2.2.1 rfl⟩
  have greater : '>' ∉ left ∧ '>' ∉ right :=
    ⟨fun inside => (before _ inside).ne_mark.2.1 rfl, fun inside => (behind _ inside).ne_mark.2.1 rfl⟩
  have less : '<' ∉ left ∧ '<' ∉ right :=
    ⟨fun inside => (before _ inside).ne_mark.1 rfl, fun inside => (behind _ inside).ne_mark.1 rfl⟩
  -- No mark that is looked for earlier stands in the text.
  cases h <;>
    simp [splitRelation?, relations, Text.splitFirst?_append equal.1,
      Text.splitFirst?_append greater.1, Text.splitFirst?_append less.1, Text.splitFirst?,
      List.isPrefixOf, Text.splitFirst?_eq_none equal.2, Text.splitFirst?_eq_none greater.2,
      Text.splitFirst?_eq_none less.2, Text.isPrefixOf_eq_false equal.2]

inductive WrittenPriority : Option Numeral → List Char → Prop
  | absent : WrittenPriority none []
  | present {n : Numeral} {cs : List Char} : n.Written cs → 1 ≤ n.toFloat32 →
      n.toFloat32 ≤ 1000 → WrittenPriority (some n) (',' :: cs)

private theorem readPriority_eq_ok_iff {cs : List Char} {x : Float32} : readPriority cs = .ok x ↔
    ∃ n : Numeral, n.Written cs ∧ 1 ≤ n.toFloat32 ∧ n.toFloat32 ≤ 1000 ∧ n.toFloat32 = x := by
  unfold readPriority
  constructor
  · intro h
    split at h
    · cases h
    · rename_i n read
      dsimp only at h
      split at h
      · rename_i within
        cases h
        rw [Bool.and_eq_true, decide_eq_true_eq, decide_eq_true_eq] at within
        exact ⟨n, Numeral.read?_eq_some_iff.1 read, within.1, within.2, rfl⟩
      · cases h
  · rintro ⟨n, written, low, high, rfl⟩
    rw [Numeral.read?_eq_some_iff.2 written]
    exact if_pos (by simp [low, high])

/-- An equation as it is written. -/
structure Formula where
  first : Anchor
  relation : Relation
  side : Side
  priority : Option Numeral

namespace Formula

inductive Written (f : Formula) : List Char → Prop
  | intro {first mark side priority : List Char} : WrittenAnchor f.first first →
      WrittenRelation f.relation mark → f.side.Written side → WrittenPriority f.priority priority →
        Written f (first ++ (mark ++ (side ++ priority)))

def equation (f : Formula) : Equation where
  first := f.first
  relation := f.relation
  second := f.side.second
  multiplier := f.side.multiplier
  constant := f.side.constant
  priority := f.priority.elim defaultPriority Numeral.toFloat32

end Formula

def readBody (body : List Char) (priority : Float32) : Except Fault Equation :=
  match splitRelation? body with
  | none => .error (.noRelation (String.ofList body))
  | some (left, relation, right) =>
      if right.any fun c => c == '<' || c == '>' || c == '=' then
        .error (.manyRelations (String.ofList body))
      else
        readAnchor left >>= fun
          | none => .error .constantOnLeft
          | some first =>
              readRightSide right >>= fun (second, multiplier, constant) =>
                .ok ⟨first, relation, second, multiplier, constant, priority⟩

private theorem readEquation_eq (text : List Char) : readEquation text =
    match Text.splitLast? ',' (Text.squeeze text) with
    | some (body, priority) => readPriority priority >>= readBody body
    | none => readBody (Text.squeeze text) defaultPriority := by
  unfold readEquation
  dsimp only
  cases Text.splitLast? ',' (Text.squeeze text) with
  | none => rfl
  | some found =>
      obtain ⟨body, priority⟩ := found
      cases readPriority priority <;> rfl

private theorem readBody_eq_ok_iff {body : List Char} {priority : Float32} {e : Equation} :
    readBody body priority = .ok e ↔ ∃ first relation side left mark right,
      body = left ++ (mark ++ right) ∧ WrittenAnchor first left ∧ WrittenRelation relation mark ∧
        Side.Written side right ∧
          e = ⟨first, relation, side.second, side.multiplier, side.constant, priority⟩ := by
  unfold readBody
  constructor
  · intro h
    split at h
    · cases h
    · rename_i left relation right split
      obtain ⟨mark, of_mark, rfl⟩ := splitRelation?_eq_some split
      split at h
      · cases h
      · obtain ⟨found, anchored, rest⟩ := bind_eq_ok h
        cases found with
        | none => cases rest
        | some first =>
            have of_first : WrittenAnchor first left := by
              cases readAnchor_eq_ok_iff.1 anchored with
              | anchor of_first => exact of_first
            obtain ⟨⟨second, multiplier, constant⟩, sided, same⟩ := bind_eq_ok rest
            cases same
            obtain ⟨side, written, rfl, rfl, rfl⟩ := readRightSide_eq_ok_iff.1 sided
            exact ⟨_, relation, side, left, mark, right, rfl, of_first, of_mark, written, rfl⟩
  · rintro ⟨first, relation, side, left, mark, right, rfl, of_first, of_mark, written, rfl⟩
    have inner := written.inner
    have one : (right.any fun c => c == '<' || c == '>' || c == '=') = false := by
      refine List.any_eq_false.2 fun c member => ?_
      have other := (inner c member).ne_mark
      simp [other]
    rw [splitRelation?_append of_mark (WrittenSecond.anchor of_first).inner inner]
    dsimp only
    rw [one, readAnchor_eq_ok_iff.2 (.anchor of_first),
      readRightSide_eq_ok_iff.2 ⟨side, written, rfl, rfl, rfl⟩]
    rfl

private theorem Formula.comma_notMem {first mark side : List Char} {a : Anchor}
    {relation : Relation} {s : Side} (of_first : WrittenAnchor a first)
    (of_mark : WrittenRelation relation mark) (of_side : s.Written side) :
    ',' ∉ first ++ (mark ++ side) := by
  intro member
  rcases List.mem_append.1 member with inside | inside
  · exact ((WrittenSecond.anchor of_first).inner _ inside).ne_mark.2.2.2 rfl
  rcases List.mem_append.1 inside with inside | inside
  · cases of_mark <;> simp at inside
  · exact (of_side.inner _ inside).ne_mark.2.2.2 rfl

theorem Formula.exists_of_readEquation {text : List Char} {e : Equation}
    (h : readEquation text = .ok e) :
    ∃ f : Formula, f.Written (Text.squeeze text) ∧ f.equation = e := by
  rw [readEquation_eq] at h
  split at h
  · rename_i body priority split
    obtain ⟨x, prior, h⟩ := bind_eq_ok h
    obtain ⟨n, written, low, high, rfl⟩ := readPriority_eq_ok_iff.1 prior
    obtain ⟨first, relation, side, left, mark, right, rfl, of_first, of_mark, of_side, rfl⟩ :=
      readBody_eq_ok_iff.1 h
    refine ⟨⟨first, relation, side, some n⟩, ?_, rfl⟩
    have formula := Formula.Written.intro (f := ⟨first, relation, side, some n⟩) of_first of_mark
      of_side (.present written low high)
    rw [(Text.splitLast?_eq_some_iff.1 split).1]
    simpa using formula
  · obtain ⟨first, relation, side, left, mark, right, same, of_first, of_mark, of_side, rfl⟩ :=
      readBody_eq_ok_iff.1 h
    refine ⟨⟨first, relation, side, none⟩, ?_, rfl⟩
    have formula := Formula.Written.intro (f := ⟨first, relation, side, none⟩) of_first of_mark
      of_side .absent
    rw [same]
    simpa using formula

/-- A text is read as an equation if and only if it spells one, white space apart, and it is read as
the one that it spells. -/
theorem readEquation_eq_ok_iff {text : List Char} {e : Equation} : readEquation text = .ok e ↔
    ∃ f : Formula, f.Written (Text.squeeze text) ∧ f.equation = e := by
  constructor
  · exact Formula.exists_of_readEquation
  · rintro ⟨f, written, rfl⟩
    rw [readEquation_eq]
    generalize Text.squeeze text = squeezed at written
    obtain @⟨left, mark, right, last, of_first, of_mark, of_side, of_priority⟩ := written
    have body (x : Float32) : readBody (left ++ (mark ++ right)) x =
        .ok ⟨f.first, f.relation, f.side.second, f.side.multiplier, f.side.constant, x⟩ :=
      readBody_eq_ok_iff.2 ⟨_, _, _, _, _, _, rfl, of_first, of_mark, of_side, rfl⟩
    unfold Formula.equation
    generalize f.priority = p at of_priority
    cases of_priority with
    | absent =>
        rw [List.append_nil,
          Text.splitLast?_eq_none_iff.2 (Formula.comma_notMem of_first of_mark of_side)]
        exact body _
    | @present n cs written low high =>
        have outside : ',' ∉ cs := fun inside =>
          (isInner_of_written written _ inside).ne_mark.2.2.2 rfl
        have split : Text.splitLast? ',' (left ++ (mark ++ (right ++ ',' :: cs))) =
            some (left ++ (mark ++ right), cs) :=
          Text.splitLast?_eq_some_iff.2 ⟨by simp, outside⟩
        rw [split]
        dsimp only
        rw [readPriority_eq_ok_iff.2 ⟨n, written, low, high, rfl⟩, ok_bind]
        exact body _

end Layout

end ViewStyle
