/-
Colors and their hexadecimal texts. A text is a color if it is made of three, four, six or eight
digits; a reader that cuts the digits out of the encoded text never goes wrong, whatever the text
is; and the text of a color is scanned as a single hash, which is that color again.
-/

import Mathlib.Data.String.Basic
import ViewStyle.Proofs.Literal.Colors
import ViewStyle.Proofs.Text.Shown
import ViewStyle.Proofs.Token.Lookahead
import ViewStyle.Proofs.Token.Pieces

set_option autoImplicit false

namespace ViewStyle

namespace Color

/-! ### Digits -/

private theorem isHexDigit_induction {motive : Char → Prop} (lower : ∀ n < 16, motive n.digitChar)
    (upper : ∀ n < 16, motive n.digitChar.toUpper) {c : Char} (h : Lexeme.isHexDigit c = true) :
    motive c := by
  obtain ⟨small, case⟩ := isDigit_hexDigit h
  rcases case with equal | equal
  · rw [equal]
    exact lower _ small
  · rw [equal]
    exact upper _ small

private theorem utf8Size_of_isHexDigit {c : Char} (h : Lexeme.isHexDigit c = true) :
    c.utf8Size = 1 :=
  isHexDigit_induction (motive := fun c => c.utf8Size = 1) (by decide) (by decide) h

private theorem continuesName_of_isHexDigit {c : Char} (h : Lexeme.isHexDigit c = true) :
    Lexeme.continuesName c = true ∧ Lexeme.plain c = c ∧ c ≠ '\\' :=
  isHexDigit_induction
    (motive := fun c => Lexeme.continuesName c = true ∧ Lexeme.plain c = c ∧ c ≠ '\\')
    (by decide) (by decide) h

private theorem atHash_of_isHexDigit {c : Char} (h : Lexeme.isHexDigit c = true) (cs : List Char) :
    Lexeme.atHash (c :: cs) = true := by
  obtain ⟨hyphen, backslash, start⟩ :
      c ≠ '-' ∧ c ≠ '\\' ∧ (Lexeme.startsName c || c.isDigit) = true :=
    isHexDigit_induction
      (motive := fun c => c ≠ '-' ∧ c ≠ '\\' ∧ (Lexeme.startsName c || c.isDigit) = true)
      (by decide) (by decide) h
  rw [Lexeme.atHash, Lexeme.atName_cons hyphen backslash, start, Bool.true_or]

private theorem exists_isDigit_iff {c : Char} : (∃ n, IsDigit c n) ↔ Lexeme.isHexDigit c = true :=
  ⟨fun ⟨_, digit⟩ => (hexDigit_of_isDigit digit).1, fun h => ⟨_, isDigit_hexDigit h⟩⟩

/-! ### The forms of a color -/

private theorem exists_digits {cs : List Char}
    (length : cs.length = 3 ∨ cs.length = 4 ∨ cs.length = 6 ∨ cs.length = 8)
    (digits : ∀ d ∈ cs, Lexeme.isHexDigit d = true) : ∃ c, Digits cs c := by
  rcases length with length | length | length | length
  · match cs, length with
    | [r, g, b], _ =>
      simp only [List.forall_mem_cons] at digits
      obtain ⟨r, g, b, -⟩ := digits
      exact ⟨⟨_, _, _, 255⟩,
        .three (isPair_channel r r) (isPair_channel g g) (isPair_channel b b) rfl⟩
  · match cs, length with
    | [r, g, b, a], _ =>
      simp only [List.forall_mem_cons] at digits
      obtain ⟨r, g, b, a, -⟩ := digits
      exact ⟨⟨_, _, _, _⟩,
        .four (isPair_channel r r) (isPair_channel g g) (isPair_channel b b) (isPair_channel a a)⟩
  · match cs, length with
    | [r, r', g, g', b, b'], _ =>
      simp only [List.forall_mem_cons] at digits
      obtain ⟨r, r', g, g', b, b', -⟩ := digits
      exact ⟨⟨_, _, _, 255⟩,
        .six (isPair_channel r r') (isPair_channel g g') (isPair_channel b b') rfl⟩
  · match cs, length with
    | [r, r', g, g', b, b', a, a'], _ =>
      simp only [List.forall_mem_cons] at digits
      obtain ⟨r, r', g, g', b, b', a, a', -⟩ := digits
      exact ⟨⟨_, _, _, _⟩, .eight (isPair_channel r r') (isPair_channel g g')
        (isPair_channel b b') (isPair_channel a a')⟩

private theorem Digits.shape {cs : List Char} {c : Color} (h : Digits cs c) :
    (cs.length = 3 ∨ cs.length = 4 ∨ cs.length = 6 ∨ cs.length = 8) ∧
      ∀ d ∈ cs, Lexeme.isHexDigit d = true := by
  cases h with
  | three red green blue _ =>
      simp [red.eq_channel.1, green.eq_channel.1, blue.eq_channel.1]
  | four red green blue alpha =>
      simp [red.eq_channel.1, green.eq_channel.1, blue.eq_channel.1, alpha.eq_channel.1]
  | six red green blue _ =>
      obtain ⟨r, r', -⟩ := red.eq_channel
      obtain ⟨g, g', -⟩ := green.eq_channel
      obtain ⟨b, b', -⟩ := blue.eq_channel
      simp [r, r', g, g', b, b']
  | eight red green blue alpha =>
      obtain ⟨r, r', -⟩ := red.eq_channel
      obtain ⟨g, g', -⟩ := green.eq_channel
      obtain ⟨b, b', -⟩ := blue.eq_channel
      obtain ⟨a, a', -⟩ := alpha.eq_channel
      simp [r, r', g, g', b, b', a, a']

/-! ### Reading by places -/

/-- What may go wrong in a reading by places: a place behind the end or inside a character, and a
channel of more than eight bits. -/
inductive Fault
  | place
  | overflow

abbrev Reading := OptionT (Except Fault)

def Reading.fail {α : Type} (fault : Fault) : Reading α := .mk (.error fault)

def cut (text : String) (first last : Nat) : Reading String :=
  if first ≤ last ∧ String.Pos.Raw.IsValid text ⟨first⟩ ∧ String.Pos.Raw.IsValid text ⟨last⟩ then
    pure (String.Pos.Raw.extract text ⟨first⟩ ⟨last⟩)
  else .fail .place

def unsigned : List Char → List Char
  | '+' :: d :: ds => d :: ds
  | ds => ds

def byte? (numeral : List Char) : Option UInt8 :=
  let digits := unsigned numeral
  if digits ≠ [] ∧ digits.all Lexeme.isHexDigit ∧ Text.hexadecimalValue digits < 256 then
    some (UInt8.ofNat (Text.hexadecimalValue digits))
  else none

def byteAt (text : String) (first count : Nat) : Reading UInt8 := do
  let digits ← cut text first (first + count)
  .mk (.ok (byte? digits.toList))

def widened (n : UInt8) : Reading UInt8 :=
  if n.toNat * 17 < 256 then pure (n * 17) else .fail .overflow

/-- Reads a color by the places of its digits. -/
def ofPlaces (text : String) : Reading Color :=
  let digit (i : Nat) := do widened (← byteAt text i 1)
  let pair (i : Nat) := byteAt text i 2
  if text.toList.all Lexeme.isHexDigit then
    match text.utf8ByteSize with
    | 3 => return ⟨← digit 0, ← digit 1, ← digit 2, 255⟩
    | 4 => return ⟨← digit 0, ← digit 1, ← digit 2, ← digit 3⟩
    | 6 => return ⟨← pair 0, ← pair 2, ← pair 4, 255⟩
    | 8 => do
        let alpha ← pair 6
        return ⟨← pair 0, ← pair 2, ← pair 4, alpha⟩
    | _ => failure
  else failure

private theorem utf8Len_of_digits {cs : List Char} (h : ∀ d ∈ cs, Lexeme.isHexDigit d = true) :
    String.utf8Len cs = cs.length := by
  induction cs with
  | nil => rfl
  | cons c cs ih =>
      rw [List.forall_mem_cons] at h
      rw [String.utf8Len_cons, ih h.2, utf8Size_of_isHexDigit h.1, List.length_cons]

private theorem isValid_of_digits {front : List Char} (behind : List Char)
    (h : ∀ d ∈ front, Lexeme.isHexDigit d = true) :
    String.Pos.Raw.IsValid (String.ofList (front ++ behind)) ⟨front.length⟩ := by
  refine String.Pos.Raw.isValid_iff_exists_append.2
    ⟨String.ofList front, String.ofList behind, String.ofList_append, ?_⟩
  rw [String.rawEndPos, String.utf8ByteSize_ofList, utf8Len_of_digits h]

private theorem cut_digits (front part behind : List Char)
    (h : ∀ d ∈ front ++ part ++ behind, Lexeme.isHexDigit d = true) :
    cut (String.ofList (front ++ part ++ behind)) front.length (front.length + part.length) =
      pure (String.ofList part) := by
  have both : ∀ d ∈ front ++ part, Lexeme.isHexDigit d = true := fun d member =>
    h d (List.mem_append_left _ member)
  have here : ∀ d ∈ front, Lexeme.isHexDigit d = true := fun d member =>
    both d (List.mem_append_left _ member)
  have there : ∀ d ∈ part, Lexeme.isHexDigit d = true := fun d member =>
    both d (List.mem_append_right _ member)
  -- Every digit is one byte, so places in the text are lengths of lists.
  have start := isValid_of_digits (part ++ behind) here
  have stop := isValid_of_digits behind both
  rw [← List.append_assoc] at start
  rw [List.length_append] at stop
  have extracted := String.extract_of_valid front part behind
  rw [utf8Len_of_digits here, utf8Len_of_digits there] at extracted
  rw [cut, if_pos ⟨Nat.le_add_right _ _, start, stop⟩, extracted]

private theorem byte?_digits {digits : List Char} (nonempty : digits ≠ [])
    (h : ∀ d ∈ digits, Lexeme.isHexDigit d = true)
    (small : Text.hexadecimalValue digits < 256) :
    byte? digits = some (UInt8.ofNat (Text.hexadecimalValue digits)) := by
  -- A sign is no digit, so there is none to pass over.
  have bare : unsigned digits = digits := by
    unfold unsigned
    split
    · exact absurd (h '+' List.mem_cons_self) (by decide)
    · rfl
  rw [byte?, bare, if_pos ⟨nonempty, List.all_eq_true.2 h, small⟩]

private theorem byteAt_digits {cs : List Char} {first : Nat} (part : List Char)
    (h : ∀ d ∈ cs, Lexeme.isHexDigit d = true) (taken : (cs.drop first).take part.length = part)
    (nonempty : part ≠ []) (small : Text.hexadecimalValue part < 256) :
    byteAt (String.ofList cs) first part.length =
      pure (UInt8.ofNat (Text.hexadecimalValue part)) := by
  have inside : first ≤ cs.length := by
    by_contra beyond
    rw [List.drop_of_length_le (by omega), List.take_nil] at taken
    exact nonempty taken.symm
  have front : (cs.take first).length = first := List.length_take_of_le inside
  have parts : cs = cs.take first ++ part ++ (cs.drop first).drop part.length := by
    conv => rhs; lhs; rhs; rw [← taken]
    rw [List.append_assoc, List.take_append_drop, List.take_append_drop]
  have digits : ∀ d ∈ part, Lexeme.isHexDigit d = true := fun d member =>
    h d (List.mem_of_mem_drop (List.mem_of_mem_take (taken.symm ▸ member)))
  have found := cut_digits (cs.take first) part ((cs.drop first).drop part.length) (parts ▸ h)
  rw [front, ← parts] at found
  rw [byteAt, found, pure_bind, String.toList_ofList, byte?_digits nonempty digits small]
  rfl

private theorem widened_digit {c : Char} (h : Lexeme.isHexDigit c = true) :
    widened (UInt8.ofNat (Lexeme.hexDigit c)) = pure (channel c c) := by
  have small : Lexeme.hexDigit c < 16 := (isDigit_hexDigit h).1
  have value : (UInt8.ofNat (Lexeme.hexDigit c)).toNat = Lexeme.hexDigit c := by
    rw [UInt8.toNat_ofNat']
    omega
  have seventeen : Lexeme.hexDigit c * 17 = 16 * Lexeme.hexDigit c + Lexeme.hexDigit c := by omega
  rw [widened, if_pos (by omega), channel, ← seventeen, UInt8.ofNat_mul]
  rfl

private theorem digitAt_eq {cs : List Char} {first : Nat} {d : Char}
    (h : ∀ d ∈ cs, Lexeme.isHexDigit d = true) (taken : (cs.drop first).take 1 = [d]) :
    (do widened (← byteAt (String.ofList cs) first 1)) = pure (channel d d) := by
  have digit : Lexeme.isHexDigit d = true :=
    h d (List.mem_of_mem_drop (List.mem_of_mem_take (taken ▸ List.mem_singleton_self d)))
  have value : Text.hexadecimalValue [d] = Lexeme.hexDigit d := by
    simp [Text.hexadecimalValue]
  have small : Lexeme.hexDigit d < 16 := (isDigit_hexDigit digit).1
  have read := byteAt_digits [d] h taken (List.cons_ne_nil _ _) (by omega)
  rw [List.length_singleton] at read
  rw [read, pure_bind, value, widened_digit digit]

private theorem pairAt_eq {cs : List Char} {first : Nat} {d e : Char}
    (h : ∀ d ∈ cs, Lexeme.isHexDigit d = true) (taken : (cs.drop first).take 2 = [d, e]) :
    byteAt (String.ofList cs) first 2 = pure (channel d e) := by
  have digit : ∀ c ∈ [d, e], Lexeme.isHexDigit c = true := fun c member =>
    h c (List.mem_of_mem_drop (List.mem_of_mem_take (taken ▸ member)))
  have high : Lexeme.hexDigit d < 16 := (isDigit_hexDigit (digit d (by simp))).1
  have low : Lexeme.hexDigit e < 16 := (isDigit_hexDigit (digit e (by simp))).1
  have value : Text.hexadecimalValue [d, e] = 16 * Lexeme.hexDigit d + Lexeme.hexDigit e := by
    simp [Text.hexadecimalValue]
  have read := byteAt_digits [d, e] h taken (List.cons_ne_nil _ _) (by omega)
  rwa [value] at read

private theorem ofPlaces_of_digits {cs : List Char} {c : Color} (h : Digits cs c) :
    ofPlaces (String.ofList cs) = pure c := by
  obtain ⟨-, hex⟩ := h.shape
  unfold ofPlaces
  dsimp only
  rw [String.toList_ofList, if_pos (List.all_eq_true.2 hex), String.utf8ByteSize_ofList,
    utf8Len_of_digits hex]
  obtain ⟨red, green, blue, alpha⟩ := c
  cases h with
  | three r g b a =>
      obtain ⟨-, -, rfl⟩ := r.eq_channel
      obtain ⟨-, -, rfl⟩ := g.eq_channel
      obtain ⟨-, -, rfl⟩ := b.eq_channel
      cases a
      dsimp only [List.length]
      rw [digitAt_eq hex rfl, digitAt_eq hex rfl, digitAt_eq hex rfl]
      rfl
  | four r g b a =>
      obtain ⟨-, -, rfl⟩ := r.eq_channel
      obtain ⟨-, -, rfl⟩ := g.eq_channel
      obtain ⟨-, -, rfl⟩ := b.eq_channel
      obtain ⟨-, -, rfl⟩ := a.eq_channel
      dsimp only [List.length]
      rw [digitAt_eq hex rfl, digitAt_eq hex rfl, digitAt_eq hex rfl, digitAt_eq hex rfl]
      rfl
  | six r g b a =>
      obtain ⟨-, -, rfl⟩ := r.eq_channel
      obtain ⟨-, -, rfl⟩ := g.eq_channel
      obtain ⟨-, -, rfl⟩ := b.eq_channel
      cases a
      dsimp only [List.length]
      rw [pairAt_eq hex rfl, pairAt_eq hex rfl, pairAt_eq hex rfl]
      rfl
  | eight r g b a =>
      obtain ⟨-, -, rfl⟩ := r.eq_channel
      obtain ⟨-, -, rfl⟩ := g.eq_channel
      obtain ⟨-, -, rfl⟩ := b.eq_channel
      obtain ⟨-, -, rfl⟩ := a.eq_channel
      dsimp only [List.length]
      rw [pairAt_eq hex rfl, pairAt_eq hex rfl, pairAt_eq hex rfl, pairAt_eq hex rfl]
      rfl

private theorem run_ofPlaces (text : String) : (ofPlaces text).run = .ok (ofHex? text) := by
  cases found : ofHex? text with
  | some c =>
      have read := ofPlaces_of_digits (ofHex?_eq_some_iff.1 found)
      rw [String.ofList_toList] at read
      rw [read]
      rfl
  | none =>
      unfold ofPlaces
      dsimp only
      split
      · rename_i digits
        have hex := List.all_eq_true.1 digits
        have bytes : text.utf8ByteSize = text.toList.length := by
          rw [← utf8Len_of_digits hex, ← String.utf8ByteSize_ofList, String.ofList_toList]
        -- Only texts of digits come here, and of the four lengths each is a color.
        have impossible (length : text.toList.length = 3 ∨ text.toList.length = 4 ∨
            text.toList.length = 6 ∨ text.toList.length = 8) : False := by
          obtain ⟨c, color⟩ := exists_digits length hex
          rw [ofHex?_eq_some_iff.2 color] at found
          cases found
        rw [bytes]
        split
        · exact absurd (.inl ‹_›) impossible
        · exact absurd (.inr (.inl ‹_›)) impossible
        · exact absurd (.inr (.inr (.inl ‹_›))) impossible
        · exact absurd (.inr (.inr (.inr ‹_›))) impossible
        · rfl
      · rfl

/-! ### The text of a color -/

def digits (c : Color) : List Char :=
  [c.red, c.green, c.blue, c.alpha].flatMap fun n =>
    [(n.toNat / 16).digitChar, (n.toNat % 16).digitChar]

private theorem paddedHexadecimal_two {n : Nat} (small : n < 256) :
    Text.paddedHexadecimal 2 n = String.ofList [(n / 16).digitChar, (n % 16).digitChar] := by
  unfold Text.paddedHexadecimal
  by_cases single : n < 16
  · rw [Nat.toDigits_of_lt_base single, Nat.div_eq_of_lt single, Nat.mod_eq_of_lt single]
    rfl
  · have split := Nat.toDigits_append_toDigits (b := 16) (n := n / 16) (d := n % 16) (by decide)
      (by omega) (Nat.mod_lt _ (by decide))
    rw [Nat.div_add_mod, Nat.toDigits_of_lt_base (show n / 16 < 16 by omega),
      Nat.toDigits_of_lt_base (Nat.mod_lt _ (by decide))] at split
    rw [← split]
    rfl

private theorem hex_eq (c : Color) : c.hex = "#" ++ String.ofList c.digits := by
  have channel (n : UInt8) : Text.paddedHexadecimal 2 n.toNat =
      String.ofList [(n.toNat / 16).digitChar, (n.toNat % 16).digitChar] :=
    paddedHexadecimal_two n.toNat_lt
  simp only [hex, channel, digits, List.flatMap_cons, List.flatMap_nil, String.append_assoc,
    String.ofList_append, List.append_nil]

private theorem digits_digits (c : Color) : Digits c.digits c := by
  have pair (n : UInt8) : IsPair (n.toNat / 16).digitChar (n.toNat % 16).digitChar n := by
    have small := n.toNat_lt
    exact ⟨_, _, ⟨by omega, .inl rfl⟩, ⟨Nat.mod_lt _ (by decide), .inl rfl⟩,
      (Nat.div_add_mod _ _).symm⟩
  exact .eight (pair c.red) (pair c.green) (pair c.blue) (pair c.alpha)

private theorem scan_hash {digits : List Char} (nonempty : digits ≠ [])
    (h : ∀ d ∈ digits, Lexeme.isHexDigit d = true) (origin : Option String) :
    Token.scan ("#" ++ String.ofList digits) origin =
      .ok [⟨.hash (String.ofList digits), ⟨origin, .start⟩, false⟩] := by
  have unescaped : '\\' ∉ Lexeme.ahead digits :=
    Lexeme.not_mem_ahead fun member => (continuesName_of_isHexDigit (h _ member)).2.2 rfl
  have whole : digits.takeWhile Lexeme.continuesName = digits :=
    List.takeWhile_eq_self_iff.2 fun d member => (continuesName_of_isHexDigit (h d member)).1
  have same : digits.map Lexeme.plain = digits :=
    (List.map_congr_left fun d member => (continuesName_of_isHexDigit (h d member)).2.1).trans
      (List.map_id _)
  have name := Lexeme.takeName_eq unescaped
  rw [whole, same] at name
  have start : Lexeme.atHash digits = true := by
    cases digits with
    | nil => exact absurd rfl nonempty
    | cons d ds => exact atHash_of_isHexDigit (h d List.mem_cons_self) ds
  have next : Lexeme.next '#' digits = (.hash (String.ofList digits), digits.length) := by
    simp only [Lexeme.next, start, if_true, name]
  have text : ("#" ++ String.ofList digits).toList = '#' :: digits := by
    simp
  rw [Token.scan, text, Scan.run_cons, next, List.drop_length]
  show Scan.run origin _ [] = _
  rw [Scan.run]
  rfl

/-! ### Short forms -/

/-- Every character of a text twice. -/
def doubled (text : String) : String := String.ofList (text.toList.flatMap fun d => [d, d])

private theorem digits_doubled_iff {cs : List Char} (short : cs.length = 3 ∨ cs.length = 4)
    {c : Color} : Digits (cs.flatMap fun d => [d, d]) c ↔ Digits cs c := by
  rcases short with short | short
  · match cs, short with
    | [r, g, b], _ =>
      constructor
      · rintro (_ | _ | ⟨red, green, blue, alpha⟩)
        exact .three red green blue alpha
      · rintro (⟨red, green, blue, alpha⟩)
        exact .six red green blue alpha
  · match cs, short with
    | [r, g, b, a], _ =>
      constructor
      · rintro (_ | _ | _ | ⟨red, green, blue, alpha⟩)
        exact .four red green blue alpha
      · rintro (_ | ⟨red, green, blue, alpha⟩)
        exact .eight red green blue alpha

private theorem ofHex?_doubled {text : String} (short : text.length = 3 ∨ text.length = 4) :
    ofHex? (doubled text) = ofHex? text := by
  ext c
  rw [ofHex?_eq_some_iff, ofHex?_eq_some_iff, doubled, String.toList_ofList]
  exact digits_doubled_iff short

/-- Colors and texts: a text is read as a color without ever going wrong, and it is one if and only
if it has three, four, six or eight digits and nothing else; in the short forms every digit counts
twice; and the text of a color, with or without its number sign, is that color. -/
theorem hexadecimal_text (text : String) (c : Color) (origin : Option String) :
    (ofPlaces text).run = .ok (ofHex? text) ∧
      ((∃ c, ofHex? text = some c) ↔
        (text.length = 3 ∨ text.length = 4 ∨ text.length = 6 ∨ text.length = 8) ∧
          ∀ d ∈ text.toList, ∃ n, IsDigit d n) ∧
      (text.length = 3 ∨ text.length = 4 → ofHex? (doubled text) = ofHex? text) ∧
      ∃ digits tokens, c.hex = "#" ++ digits ∧ ofHex? digits = some c ∧
        Token.scan c.hex origin = .ok tokens ∧ tokens.map (·.kind) = [.hash digits] ∧
        Literal.ofTokens tokens = .color c := by
  refine ⟨run_ofPlaces text, ?_, ofHex?_doubled, ?_⟩
  · simp only [ofHex?_eq_some_iff, exists_isDigit_iff, ← String.length_toList]
    exact ⟨fun ⟨_, color⟩ => color.shape, fun ⟨length, digits⟩ => exists_digits length digits⟩
  · have written := c.digits_digits
    have read : ofHex? (String.ofList c.digits) = some c :=
      ofHex?_eq_some_iff.2 (by rwa [String.toList_ofList])
    have nonempty : c.digits ≠ [] := List.cons_ne_nil _ _
    have scanned := scan_hash nonempty written.shape.2 origin
    rw [hex_eq]
    refine ⟨_, _, rfl, read, scanned, rfl, ?_⟩
    rw [Literal.ofTokens, read]
    rfl

/-- A short form in both cases, and the text that it stands for. -/
theorem hexadecimal_text_short : ofHex? (doubled "F0a") = ofHex? "F0a" ∧
    ofHex? "F0a" = some ⟨255, 0, 170, 255⟩ :=
  ⟨(hexadecimal_text "F0a" ⟨255, 0, 170, 255⟩ none).2.2.1 (.inl rfl), by decide⟩

end Color

end ViewStyle
