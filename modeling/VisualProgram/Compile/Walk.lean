import VisualProgram.Compile.Log
import VisualProgram.Compile.Trail
import VisualProgram.Graph.Lookup
import VisualProgram.Registry
import VisualProgram.Rule.Render

/-!
Compiling a block: the blocks in its slots are compiled first, then its rule makes the text. A block
inside itself is refused, and so is a block that comes again in its own chain; since there are only
so many ids, the walk ends on every graph.
-/

namespace VisualProgram

structure Context where
  lookup : Lookup
  registry : Registry
  options : Options

namespace Context

def resolve (c : Context) (owner target : BlockId) : Logged (Option Block) :=
  if c.lookup.isValid target then pure (c.lookup.find target)
  else ⟨none, .report (.malformedReference owner target)⟩

def child (c : Context) (b : Block) (index : Nat) : Logged (Option Block) :=
  match b.target? index with
  | some target => c.resolve b.id target
  | none => pure none

def successor (c : Context) (b : Block) : Logged (Option Block) :=
  match b.successor? with
  | some target => c.resolve b.id target
  | none => pure none

theorem resolve_value (c : Context) (owner target : BlockId) :
    (c.resolve owner target).value = c.lookup.block? target := by
  unfold resolve Lookup.block?
  split <;> rfl

theorem child_value (c : Context) (b : Block) (index : Nat) :
    (c.child b index).value = (b.target? index).bind c.lookup.block? := by
  unfold child
  cases b.target? index with
  | none => rfl
  | some target => exact resolve_value c b.id target

theorem successor_value (c : Context) (b : Block) :
    (c.successor b).value = b.successor?.bind c.lookup.block? := by
  unfold successor
  cases b.successor? with
  | none => rfl
  | some target => exact resolve_value c b.id target

mutual

/-- The blocks of `path` are those inside which the block is compiled. -/
def compileBlock (c : Context) (path : Trail) (b : Block) : Logged String :=
  if h : b.id ∈ path then ⟨"", .report (.cyclicStructure b.id)⟩
  else
    match c.registry.rule? b.genus with
    | none => ⟨"", .report (.unsupportedGenus b.id b.genus)⟩
    | some rule => do
      let text ← c.applyRule (path.push b.id h) rule b
      Logged.tell (.done b.id)
      return text
termination_by (path.room, 0, 0)
decreasing_by exact .left _ _ (Trail.room_push_lt h)

def applyRule (c : Context) (path : Trail) (rule : Rule) (b : Block) : Logged String := do
  let fillings ← Logged.traverse (fun slot => c.compileSlot path b slot) (rule.slots b)
  let rendered := rule.render c.options b ((rule.slots b).zip fillings)
  Logged.tell (.require rendered.modules)
  return rendered.text
termination_by (path.room, 3, 0)
decreasing_by exact .right _ (.left _ _ (by decide))

def compileSlot (c : Context) (path : Trail) (b : Block) (slot : Slot) : Logged Filling := do
  match slot, ← c.child b slot.index with
  | .value _, none => return .value none
  | .value _, some inner => return .value (some (← c.compileBlock path inner))
  | .body _, none => return .body []
  | .body _, some first => return .body (← c.compileChain path .empty first)
termination_by (path.room, 2, 0)
decreasing_by all_goals exact .right _ (.left _ _ (by decide))

/-- The blocks of `seen` are those of the chain before the block. -/
def compileChain (c : Context) (path seen : Trail) (b : Block) : Logged (List String) :=
  if h : b.id ∈ seen then ⟨[], .report (.cyclicStructure b.id)⟩
  else if c.options.chainIsFull seen.length then
    ⟨[], .report (.chainTooLong b.id c.options.maxChainLength)⟩
  else do
    let text ← c.compileBlock path b
    match ← c.successor b with
    | none => return [text]
    | some next => return text :: (← c.compileChain path (seen.push b.id h) next)
termination_by (path.room, 1, seen.room)
decreasing_by
  · exact .right _ (.left _ _ (by decide))
  · exact .right _ (.right _ (Trail.room_push_lt h))

end

def compileId (c : Context) (id : BlockId) : Logged String :=
  match c.lookup.block? id with
  | some b => c.compileBlock .empty b
  | none => pure ""

end Context

end VisualProgram
