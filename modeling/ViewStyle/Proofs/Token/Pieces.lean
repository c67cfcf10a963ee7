/-
A source text cut into its lexemes, each with its text and the place where it starts. The scanner
reads these pieces one after the other.
-/

import ViewStyle.Token.Scan

set_option autoImplicit false

namespace ViewStyle

open Text (Position)

structure Piece where
  lexeme : Lexeme
  text : List Char
  position : Position
  deriving DecidableEq

def pieces (position : Position) : List Char → List Piece
  | [] => []
  | c :: cs =>
      let (lexeme, n) := Lexeme.next c cs
      let text := c :: cs.take n
      ⟨lexeme, text, position⟩ :: pieces (position.after text) (cs.drop n)
termination_by cs => cs.length

/-- The pieces of a whole source text. -/
def Lexeme.piecesOf (source : String) : List Piece := pieces .start source.toList

/-- A piece that makes the scan of a text fail wherever it stands: a string or a comment without its
end, or characters that form no token. -/
def Piece.IsBad (p : Piece) : Prop :=
  match p.lexeme with
  | .string _ false => True
  | .comment false => True
  | .refused => True
  | _ => False

theorem pieces_cons (position : Position) (c : Char) (cs : List Char) :
    pieces position (c :: cs) =
      ⟨(Lexeme.next c cs).1, c :: cs.take (Lexeme.next c cs).2, position⟩ ::
        pieces (position.after (c :: cs.take (Lexeme.next c cs).2))
          (cs.drop (Lexeme.next c cs).2) := by
  rw [pieces]

theorem Lexeme.pieces_induction {motive : List Char → Prop} (nil : motive [])
    (cons : ∀ c cs, motive (cs.drop (next c cs).2) → motive (c :: cs)) (cs : List Char) :
    motive cs := by
  induction n : cs.length using Nat.strongRecOn generalizing cs with
  | _ n ih =>
    cases cs with
    | nil => exact nil
    | cons c cs =>
        subst n
        refine cons c cs (ih _ ?_ _ rfl)
        simp only [List.length_drop, List.length_cons]
        omega

theorem flatMap_text_pieces (position : Position) (cs : List Char) :
    (pieces position cs).flatMap Piece.text = cs := by
  induction cs using Lexeme.pieces_induction generalizing position with
  | nil => rw [pieces, List.flatMap_nil]
  | cons c cs ih =>
      rw [pieces_cons, List.flatMap_cons, ih]
      simp

namespace Scan

/-- A text that starts with some piece is read piece by piece. -/
theorem run_cons (origin : Option String) (s : State) (c : Char) (cs : List Char) :
    run origin s (c :: cs) =
      (s.read origin (c :: cs.take (Lexeme.next c cs).2) (Lexeme.next c cs).1) >>= fun s' =>
        run origin { s' with position := s'.position.after (c :: cs.take (Lexeme.next c cs).2) }
          (cs.drop (Lexeme.next c cs).2) := by
  conv => lhs; unfold run
  dsimp only
  cases s.read origin (c :: cs.take (Lexeme.next c cs).2) (Lexeme.next c cs).1 <;> rfl

theorem position_read {origin : Option String} {s s' : State} {text : List Char} {lexeme : Lexeme}
    (read : s.read origin text lexeme = .ok s') : s'.position = s.position := by
  have enter (kind : Token.Kind) (bracket : Bracket) (h : s.enter origin kind bracket = .ok s') :
      s'.position = s.position := by
    unfold State.enter at h
    dsimp only at h
    split at h
    · cases h
    · cases h
      rfl
  cases lexeme with
  | comment closed =>
      cases closed <;> cases read
      rfl
  | string text closed =>
      cases closed <;> cases read
      rfl
  | function name => exact enter _ _ read
  | mark c =>
      simp only [State.read] at read
      split at read
      · exact enter _ _ read
      · cases read
        unfold State.leave
        dsimp only
        split
        · rfl
        · split <;> rfl
      · cases read
        rfl
  | refused => cases read
  | _ =>
      cases read
      rfl

end Scan

end ViewStyle
