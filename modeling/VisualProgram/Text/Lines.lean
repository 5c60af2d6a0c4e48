import VisualProgram.Text.Blank

/-!
Lines of a text. A line ends at a line feed, which is not part of it, nor is a carriage return
directly before that feed. What follows the last feed is a line of its own unless it is empty, and
keeps a carriage return at its end.
-/

namespace VisualProgram.Text

def lines : List Char → List (List Char)
  | [] => []
  | '\n' :: cs => [] :: lines cs
  | '\r' :: '\n' :: cs => [] :: lines cs
  | c :: cs =>
    match lines cs with
    | [] => [[c]]
    | l :: ls => (c :: l) :: ls

def indentLine (unit line : List Char) : List Char :=
  (if line.isEmpty then [] else unit ++ line) ++ ['\n']

def indentChars (unit text : List Char) : List Char :=
  (lines (dropTrailing (· == '\n') text)).flatMap (indentLine unit)

def indent (unit text : String) : String :=
  String.ofList (indentChars unit.toList text.toList)

def leadLines (lead text : String) : String :=
  String.intercalate "\n" ((lines text.toList).map fun l => lead ++ String.ofList l)

def closeLines (parts : List String) : String :=
  String.join (parts.map (· ++ "\n"))

end VisualProgram.Text
