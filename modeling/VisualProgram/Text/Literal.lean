/-!
String literals of the generated script. A literal is the text between two quotation marks; nothing
in it is escaped.
-/

namespace VisualProgram.Text

def quote (text : String) : String :=
  "\"" ++ text ++ "\""

def unquoteChars? : List Char → Option (List Char)
  | '"' :: cs => if cs.getLast? = some '"' then some cs.dropLast else none
  | _ => none

def unquote (text : String) : String :=
  match unquoteChars? text.toList with
  | some cs => String.ofList cs
  | none => text

theorem unquote_quote (text : String) : unquote (quote text) = text := by
  have h : (quote text).toList = '"' :: (text.toList ++ ['"']) := by
    simp [quote, String.toList_append]
  simp [unquote, h, unquoteChars?, String.ofList_toList]

end VisualProgram.Text
