import VisualProgram.Text.Digits

/-!
Templates: text with holes. A hole is a `$` and the longest run of digits behind it. The number it
writes counts from one; it stands for the position before it, which counts from zero.
-/

namespace VisualProgram.Template

open Text

inductive Piece where
  | char (c : Char)
  | hole (digits : List Char)
  deriving DecidableEq

def pieces : List Char → List Piece
  | [] => []
  | '$' :: cs => .hole (cs.takeWhile Char.isDigit) :: pieces (cs.dropWhile Char.isDigit)
  | c :: cs => .char c :: pieces cs
termination_by cs => cs.length
decreasing_by
  · exact Nat.lt_succ_of_le (List.dropWhile_sublist _).length_le
  · exact Nat.lt_succ_self _

def Piece.chars : Piece → List Char
  | .char c => [c]
  | .hole digits => '$' :: digits

theorem flatMap_chars_pieces (cs : List Char) : (pieces cs).flatMap Piece.chars = cs := by
  fun_induction pieces cs with
  | case1 => rfl
  | case2 cs ih => simp [Piece.chars, ih, List.takeWhile_append_dropWhile]
  | case3 c cs _ ih => simp [Piece.chars, ih]

def Piece.position? : Piece → Option Nat
  | .char _ => none
  | .hole digits =>
    let n := digitsValue digits
    if digits ≠ [] ∧ 1 ≤ n ∧ n < UInt64.size then some (n - 1) else none

def Piece.fill (value : Nat → Option String) (piece : Piece) : List Char :=
  match piece.position?.bind value with
  | some text => text.toList
  | none => piece.chars

def substitute (template : String) (value : Nat → Option String) : String :=
  String.ofList ((pieces template.toList).flatMap (Piece.fill value))

def positions (template : String) : List Nat :=
  (pieces template.toList).filterMap Piece.position?

end VisualProgram.Template
