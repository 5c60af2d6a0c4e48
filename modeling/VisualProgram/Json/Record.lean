import VisualProgram.Json.Skip
import VisualProgram.Table

/-!
Values of a known type: texts, numbers, lists, tables and records. A record is written as an object
of its fields in any order, or as an array of them in the order of their declaration.
-/

namespace VisualProgram.Json

variable {α β σ : Type}

namespace Reader

def found : Reader Found := do
  match ← peek with
  | none => fail .endOfInput
  | some 'n' => do
    exactly ['n', 'u', 'l', 'l']
    pure .null
  | some 't' => do
    exactly ['t', 'r', 'u', 'e']
    pure (.boolean true)
  | some 'f' => do
    exactly ['f', 'a', 'l', 's', 'e']
    pure (.boolean false)
  | some '"' => do
    let _ ← next
    return .string (← readQuoted)
  | some '[' => pure .sequence
  | some '{' => pure .map
  | some c => if c == '-' || c.isDigit then return (← number).found else fail .malformed

def wrongType (expected : String) : Reader α := do
  let f ← found
  fail (.mismatch (.invalidType f expected))

def natural (expected : String) : Reader Nat := do
  match ← peek with
  | some c =>
    if c == '-' || c.isDigit then
      match ← number with
      | .natural n => pure n
      | .negative n => fail (.mismatch (.invalidValue (.integer (-n)) expected))
      | .double bits => fail (.mismatch (.invalidType (.double bits) expected))
    else wrongType expected
  | none => wrongType expected

def string : Reader String := do
  match ← peek with
  | some '"' => do
    let _ ← next
    readQuoted
  | _ => wrongType "a string"

def optional (r : Reader α) : Reader (Option α) := do
  match ← peek with
  | some 'n' => do
    exactly ['n', 'u', 'l', 'l']
    pure none
  | _ => some <$> r

def list (item : Reader α) : Reader (List α) := do
  match ← peek with
  | some '[' => do
    let _ ← next
    group ']' (fun items => do return items ++ [← item]) []
  | _ => wrongType "a sequence"

def table : Reader Table := do
  match ← peek with
  | some '{' => do
    let _ ← next
    group '}' (fun t => do
      mark '"'
      let key ← readQuoted
      mark ':'
      let value ← string
      return t.insert key value) .empty
  | _ => wrongType "a map"

end Reader

structure Field (σ : Type) where
  name : String
  isSet : σ → Bool
  read : σ → Reader σ

def Field.of (name : String) (get : σ → Option β) (set : σ → β → σ) (value : Reader β) :
    Field σ where
  name
  isSet draft := (get draft).isSome
  read draft := do return set draft (← value)

structure Record (σ α : Type) where
  title : String
  fields : List (Field σ)
  draft : σ
  ofObject : σ → Except Mismatch α
  ofArray : σ → Except Mismatch α

namespace Reader

/-- No field may be given twice; what is no field is passed over. -/
def member (fields : List (Field σ)) (draft : σ) : Reader σ := do
  mark '"'
  let key ← readQuoted
  match fields.find? (·.name == key) with
  | some field =>
    if field.isSet draft then fail (.mismatch (.duplicateField key))
    else do
      mark ':'
      field.read draft
  | none => do
    mark ':'
    skipValue
    pure draft

def elements (lead : Reader Unit) : List (Field σ) → σ → Reader σ
  | [], draft => do
    mark ']'
    pure draft
  | field :: fields, draft => do
    match ← peek with
    | some ']' => do
      let _ ← next
      pure draft
    | _ => do
      lead
      elements (mark ',') fields (← field.read draft)

def record (r : Record σ α) : Reader α := do
  match ← peek with
  | some '{' => do
    let _ ← next
    check (r.ofObject (← group '}' (member r.fields) r.draft))
  | some '[' => do
    let _ ← next
    check (r.ofArray (← elements (pure ()) r.fields r.draft))
  | _ => wrongType r.title

end Reader

end VisualProgram.Json
