namespace VisualProgram.Json

inductive Value where
  | number (n : Nat)
  | string (text : String)
  | array (items : List Value)
  | object (members : List (String × Value))

def quoteChar (c : Char) : List Char :=
  match c with
  | '"' => ['\\', '"']
  | '\\' => ['\\', '\\']
  | '\x08' => ['\\', 'b']
  | '\t' => ['\\', 't']
  | '\n' => ['\\', 'n']
  | '\x0c' => ['\\', 'f']
  | '\r' => ['\\', 'r']
  | c =>
    if c.toNat < 0x20 then
      ['\\', 'u', '0', '0', Nat.digitChar (c.toNat / 16), Nat.digitChar (c.toNat % 16)]
    else [c]

def quoteText (s : String) : List Char :=
  '"' :: s.toList.flatMap quoteChar ++ ['"']

def newLine (depth : Nat) : List Char :=
  '\n' :: List.replicate (2 * depth) ' '

namespace Value

mutual

def layout (depth : Nat) : Value → List Char
  | number n => Nat.toDigits 10 n
  | string s => quoteText s
  | array [] => ['[', ']']
  | array (v :: vs) =>
    '[' :: newLine (depth + 1) ++ layout (depth + 1) v ++ layoutItems (depth + 1) vs ++
      newLine depth ++ [']']
  | object [] => ['\x7b', '\x7d']
  | object ((k, v) :: ms) =>
    '\x7b' :: newLine (depth + 1) ++ quoteText k ++ [':', ' '] ++ layout (depth + 1) v ++
      layoutMembers (depth + 1) ms ++ newLine depth ++ ['\x7d']

def layoutItems (depth : Nat) : List Value → List Char
  | [] => []
  | v :: vs => ',' :: newLine depth ++ layout depth v ++ layoutItems depth vs

def layoutMembers (depth : Nat) : List (String × Value) → List Char
  | [] => []
  | (k, v) :: ms =>
    ',' :: newLine depth ++ quoteText k ++ [':', ' '] ++ layout depth v ++ layoutMembers depth ms

end

def pretty (v : Value) : String :=
  String.ofList (v.layout 0)

end Value

end VisualProgram.Json
