import VisualProgram.Rule
import VisualProgram.Text.Escaped

namespace VisualProgram.Rule

open Text

def describeSockets (sockets : List Nat) : String :=
  "[" ++ String.intercalate ", " (sockets.map toString) ++ "]"

def describeModule : Option String → String
  | none => "None"
  | some module => "Some(" ++ escaped module ++ ")"

def describeParts (title : String) (parts : List (String × String)) : String :=
  title ++ " \x7b " ++ String.intercalate ", " (parts.map fun p => p.1 ++ ": " ++ p.2) ++ " \x7d"

def describe : Rule → String
  | constant text module =>
    describeParts "Constant" [("text", escaped text), ("module", describeModule module)]
  | call name missing sockets module =>
    describeParts "Call"
      [("name", escaped name), ("missing", escaped missing), ("sockets", describeSockets sockets),
        ("module", describeModule module)]
  | operator token missing sockets =>
    describeParts "Operator"
      [("token", escaped token), ("missing", escaped missing), ("sockets", describeSockets sockets)]
  | handler _ => "Handler(..)"

end VisualProgram.Rule
