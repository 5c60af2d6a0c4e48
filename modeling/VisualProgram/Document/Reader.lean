import VisualProgram.Graph
import VisualProgram.Json.Record

namespace VisualProgram

open Json

def BlockId.reader : Reader BlockId := do
  return .ofNat (← Reader.natural "u64")

structure SocketDraft where
  name : Option String
  kind : Option String
  block : Option (Option BlockId)

def SocketDraft.finish (d : SocketDraft) : Socket where
  name := d.name.getD ""
  kind := d.kind.getD Socket.anyKind
  block := d.block.getD none

def Socket.record : Record SocketDraft Socket where
  title := "struct Socket"
  fields :=
    [.of "name" SocketDraft.name (fun d x => { d with name := some x }) .string,
      .of "kind" SocketDraft.kind (fun d x => { d with kind := some x }) .string,
      .of "block" SocketDraft.block (fun d x => { d with block := some x })
        (.optional BlockId.reader)]
  draft := ⟨none, none, none⟩
  ofObject d := .ok d.finish
  ofArray d := .ok d.finish

structure BlockDraft where
  id : Option BlockId
  genus : Option String
  label : Option (Option String)
  properties : Option Table
  sockets : Option (List Socket)
  plug : Option (Option Socket)
  next : Option (Option BlockId)

def BlockDraft.finish (missing : Mismatch) (d : BlockDraft) : Except Mismatch Block :=
  match d.genus with
  | none => .error missing
  | some genus =>
    .ok
      { id := d.id.getD .null
        genus
        label := d.label.getD none
        properties := d.properties.getD .empty
        sockets := d.sockets.getD []
        plug := d.plug.getD none
        next := d.next.getD none }

def Block.record : Record BlockDraft Block where
  title := "struct Block"
  fields :=
    [.of "id" BlockDraft.id (fun d x => { d with id := some x }) BlockId.reader,
      .of "genus" BlockDraft.genus (fun d x => { d with genus := some x }) .string,
      .of "label" BlockDraft.label (fun d x => { d with label := some x }) (.optional .string),
      .of "properties" BlockDraft.properties (fun d x => { d with properties := some x }) .table,
      .of "sockets" BlockDraft.sockets (fun d x => { d with sockets := some x })
        (.list (.record Socket.record)),
      .of "plug" BlockDraft.plug (fun d x => { d with plug := some x })
        (.optional (.record Socket.record)),
      .of "next" BlockDraft.next (fun d x => { d with next := some x })
        (.optional BlockId.reader)]
  draft := ⟨none, none, none, none, none, none, none⟩
  ofObject := BlockDraft.finish (.missingField "genus")
  ofArray := BlockDraft.finish (.invalidLength 1 "struct Block with 7 elements")

def blocksRecord : Record (Option (List Block)) (List Block) where
  title := "struct GraphDocument"
  fields := [.of "blocks" id (fun _ x => some x) (.list (.record Block.record))]
  draft := none
  ofObject d := .ok (d.getD [])
  ofArray d := .ok (d.getD [])

inductive DocumentError where
  | json (fault : Fault)
  | ids (error : IdError)
  deriving DecidableEq

def DocumentError.message? : DocumentError → Option String
  | .json (.mismatch m) => some ("invalid block document: " ++ m.message)
  | .json _ => none
  | .ids e => some ("invalid block document: " ++ e.message)

/-- Ids are checked once all blocks have been read, and before anything that follows the document. -/
def BlockGraph.ofDocument (text : String) : Except DocumentError BlockGraph :=
  match (Reader.record blocksRecord).run text.toList with
  | .error e => .error (.json e)
  | .ok (blocks, rest) =>
    match BlockGraph.ofBlocks blocks with
    | .error e => .error (.ids e)
    | .ok g => if (skipSpace rest).isEmpty then .ok g else .error (.json .malformed)

inductive LoadError where
  | unreadable
  | document (error : DocumentError)
  deriving DecidableEq

def BlockGraph.load (stored : Option ByteArray) : Except LoadError BlockGraph :=
  match stored.bind String.fromUTF8? with
  | none => .error .unreadable
  | some text => (BlockGraph.ofDocument text).mapError .document

end VisualProgram
