import VisualProgram.Options
import VisualProgram.Rule.Slots
import VisualProgram.Text.Lines
import VisualProgram.Text.Literal
import VisualProgram.Text.Template

namespace VisualProgram

open Text

def callText (name : String) (arguments : List String) : String :=
  name ++ "(" ++ String.intercalate "," arguments ++ ")"

def operatorText (token missing : String) : List String → String
  | [a] => token ++ " " ++ a
  | [a, b] => a ++ " " ++ token ++ " " ++ b
  | _ => missing

def statementText (o : Options) (indented : Bool) (statement : String) : String :=
  if indented then indent o.indent statement else dropFeeds statement ++ "\n"

/-- A body under its header: the statements that are not blank with empty lines between them. An
indented body is never empty. -/
def bodyText (o : Options) (header : Option String) (indented : Bool)
    (statements : List String) : String :=
  let lead := (header.map (· ++ "\n")).getD ""
  let shown := (statements.filter fun s => !blankText s).map (statementText o indented)
  if shown.isEmpty then
    lead ++ if indented then o.indent ++ "pass\n" else ""
  else lead ++ String.intercalate "\n" shown

structure Rendered where
  text : String
  modules : List String
  deriving DecidableEq

def Rendered.ofText (text : String) : Rendered :=
  ⟨text, []⟩

def dropStart (start text : String) : String :=
  if start.toList.isPrefixOf text.toList then
    String.ofList (text.toList.drop start.toList.length)
  else text

def Event.registration : Event → String
  | appear => "onAppear"
  | vanish => "onVanish"
  | change => "onChange"

def Fillings.name (f : Fillings) (index : Nat) : String :=
  unquote ((f.value index).getD "")

def Fillings.importedModule (f : Fillings) : String :=
  trim (dropStart "import " (f.name 1))

def qualify (module name : String) : String :=
  if module.isEmpty || name.toList.contains '.' then name else module ++ "." ++ name

def keyNumber (value : Option String) : String :=
  (value.filter fun n => n ≠ "" ∧ n ≠ "None").getD "1"

namespace Handler

def header (f : Fillings) (before missing after : String) : String :=
  before ++ (f.value 0).getD missing ++ after

def render (o : Options) (b : Block) (f : Fillings) : Handler → Rendered
  | literal => .ofText (quote (b.label.getD ""))
  | name => .ofText (b.label.getD "None")
  | screenshot => .ofText (quote ((b.property? "screenshot-path").getD ""))
  | getter => .ofText ((f.value 0).getD "None")
  | functionKey => .ofText ("Key.F" ++ keyNumber (f.value 0))
  | sequence => .ofText (bodyText o none false (f.body 0))
  | conditional => .ofText (bodyText o (header f "if " "True" ":") true (f.body 1))
  | alternative =>
    .ofText (bodyText o (header f "if " "True" ":") true (f.body 1) ++
      bodyText o "else:" true (f.body 2))
  | repetition => .ofText (bodyText o (header f "for i in range(" "1" "):") true (f.body 1))
  | loop => .ofText (bodyText o (header f "while " "True" ":") true (f.body 1))
  | event e =>
    .ofText (bodyText o ("def " ++ b.compactLabel ++ "(event):" : String) true (f.body 1) ++
      e.registration ++ "(" ++ (f.value 0).getD "" ++ ", " ++ b.compactLabel ++ ")")
  | comment => .ofText (leadLines "# " (b.label.getD ""))
  | call => .ofText (callText (f.name 0) (f.present 1 (b.sockets.length - 1)))
  | importedCall =>
    ⟨callText (qualify f.importedModule (f.name 0)) (f.present 2 (b.sockets.length - 2)),
      [f.importedModule]⟩
  | definition =>
    .ofText (bodyText o
      ("def " ++ callText (f.name 0) (f.present 1 (b.bodyIndex - 1)) ++ ":" : String) true
      (f.body b.bodyIndex))
  | inlineCode => .ofText (Template.substitute (b.label.getD "") f.value)

end Handler

/-- A socket that the block does not have is no argument; one that is empty is the placeholder. -/
def Fillings.arguments (f : Fillings) (b : Block) (missing : String) (sockets : List Nat) :
    List String :=
  (sockets.filter (· < b.sockets.length)).map fun i => (f.value i).getD missing

def Rule.render (o : Options) (b : Block) (f : Fillings) : Rule → Rendered
  | constant text module => ⟨text, module.toList⟩
  | call name missing sockets module =>
    ⟨callText name (f.arguments b missing sockets), module.toList⟩
  | operator token missing sockets =>
    .ofText (operatorText token missing (sockets.map fun i => (f.value i).getD missing))
  | handler h => h.render o b f

end VisualProgram
