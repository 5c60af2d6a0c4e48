import VisualProgram.Graph
import VisualProgram.Json.Value

namespace VisualProgram

open Json

def optionalMember {α : Type} (name : String) (write : α → Value) : Option α → List (String × Value)
  | none => []
  | some a => [(name, write a)]

def BlockId.toJson (id : BlockId) : Value :=
  .number id.toNat

def Socket.toJson (s : Socket) : Value :=
  .object <|
    [("name", .string s.name), ("kind", .string s.kind)] ++
      optionalMember "block" BlockId.toJson s.block

def Table.toJson (t : Table) : Value :=
  .object (t.entries.map fun e => (e.1, .string e.2))

def Block.toJson (b : Block) : Value :=
  .object <|
    [("id", b.id.toJson), ("genus", .string b.genus)] ++
      optionalMember "label" .string b.label ++
      (if b.properties.isEmpty then [] else [("properties", b.properties.toJson)]) ++
      (if b.sockets.isEmpty then [] else [("sockets", .array (b.sockets.map Socket.toJson))]) ++
      optionalMember "plug" Socket.toJson b.plug ++
      optionalMember "next" BlockId.toJson b.next

def BlockGraph.toJson (g : BlockGraph) : Value :=
  .object [("blocks", .array (g.blocks.map Block.toJson))]

def BlockGraph.document (g : BlockGraph) : String :=
  g.toJson.pretty

end VisualProgram
