import VisualProgram.Block
import VisualProgram.Rule

/-!
What a rule reads of a block: for some sockets the value plugged in, for others the chain that
starts there. The order is the one in which the blocks are compiled.
-/

namespace VisualProgram

inductive Slot where
  | value (index : Nat)
  | body (index : Nat)
  deriving DecidableEq

def Slot.index : Slot → Nat
  | .value i => i
  | .body i => i

def Block.bodyIndex (b : Block) : Nat :=
  if 2 ≤ b.sockets.length then b.sockets.length - 1 else b.sockets.length

def Handler.slots (b : Block) : Handler → List Slot
  | literal | name | screenshot | comment => []
  | getter | functionKey => [.value 0]
  | sequence => [.body 0]
  | conditional | repetition | loop => [.value 0, .body 1]
  | alternative => [.value 0, .body 1, .body 2]
  | event _ => [.body 1, .value 0]
  | call | importedCall => (List.range b.sockets.length).map .value
  | definition => (List.range b.bodyIndex).map .value ++ [.body b.bodyIndex]
  | inlineCode => if b.label.isSome then (List.range b.sockets.length).map .value else []

def Rule.slots (b : Block) : Rule → List Slot
  | constant _ _ => []
  | call _ _ sockets _ => sockets.map .value
  | operator _ _ sockets => sockets.map .value
  | handler h => h.slots b

inductive Filling where
  | value (text : Option String)
  | body (statements : List String)
  deriving DecidableEq

abbrev Fillings :=
  List (Slot × Filling)

namespace Fillings

def value (f : Fillings) (index : Nat) : Option String :=
  match f.lookup (.value index) with
  | some (.value text) => text
  | _ => none

def body (f : Fillings) (index : Nat) : List String :=
  match f.lookup (.body index) with
  | some (.body statements) => statements
  | _ => []

def present (f : Fillings) (first count : Nat) : List String :=
  (List.range' first count).filterMap f.value

end Fillings

end VisualProgram
