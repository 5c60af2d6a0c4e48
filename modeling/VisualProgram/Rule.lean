namespace VisualProgram

inductive Event where
  | appear
  | vanish
  | change
  deriving DecidableEq

inductive Handler where
  | literal
  | name
  | screenshot
  | getter
  | functionKey
  | sequence
  | conditional
  | alternative
  | repetition
  | loop
  | event (event : Event)
  | comment
  | call
  | importedCall
  | definition
  | inlineCode
  deriving DecidableEq

inductive Rule where
  | constant (text : String) (module : Option String)
  | call (name missing : String) (sockets : List Nat) (module : Option String)
  /-- An operator before one operand or between two; `missing` stands for a block that is not
  there. -/
  | operator (token missing : String) (sockets : List Nat)
  | handler (handler : Handler)
  deriving DecidableEq

namespace Rule

def withMissing (placeholder : String) : Rule → Rule
  | call name _ sockets module => call name placeholder sockets module
  | operator token _ sockets => operator token placeholder sockets
  | rule => rule

def withModule (required : String) : Rule → Rule
  | constant text _ => constant text (some required)
  | call name missing sockets _ => call name missing sockets (some required)
  | rule => rule

end Rule

end VisualProgram
