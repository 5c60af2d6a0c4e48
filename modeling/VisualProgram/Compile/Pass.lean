import VisualProgram.Compile.Walk

namespace VisualProgram

structure Pass where
  context : Context
  log : Log

namespace Pass

def start (c : Context) : Pass :=
  ⟨c, .empty⟩

def perform {α : Type} (p : Pass) (work : Context → Logged α) : α × Pass :=
  ((work p.context).value, { p with log := p.log ++ (work p.context).log })

theorem perform_snd {α : Type} (p : Pass) (work : Context → Logged α) :
    (p.perform work).2 = ⟨p.context, p.log ++ (work p.context).log⟩ :=
  rfl

end Pass

namespace Context

def compileBlock? (c : Context) : Option Block → Logged String
  | some b => c.compileBlock .empty b
  | none => pure ""

def compileSocket (c : Context) (b : Block) (index : Nat) : Logged (Option String) := do
  match ← c.compileSlot .empty b (.value index) with
  | .value text => return text
  | .body _ => return none

def compileSocketOr (c : Context) (b : Block) (index : Nat) (missing : String) : Logged String :=
  (·.getD missing) <$> c.compileSocket b index

def compileCall (c : Context) (b : Block) (name missing : String) (slots : List (Option Nat)) :
    Logged String :=
  c.applyRule .empty (.call name missing (slots.filterMap id) none) b

def compileOperator (c : Context) (b : Block) (token missing : String) (sockets : List Nat) :
    Logged String :=
  c.applyRule .empty (.operator token missing sockets) b

def compileBody (c : Context) (b : Block) (index : Nat) (header : Option String)
    (indented : Bool) : Logged String := do
  match ← c.compileSlot .empty b (.body index) with
  | .body statements => return bodyText c.options header indented statements
  | .value _ => return bodyText c.options header indented []

end Context

end VisualProgram
