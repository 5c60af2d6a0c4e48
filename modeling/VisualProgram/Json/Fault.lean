import VisualProgram.Decimal.Layout
import VisualProgram.Text.Escaped

/-!
Why a JSON text cannot be read as a value of the kind asked for. A text is read once, from the left,
and the first fault met is the one reported.
-/

namespace VisualProgram.Json

inductive Found where
  | null
  | boolean (value : Bool)
  | integer (value : Int)
  | double (bits : UInt64)
  | string (text : String)
  | sequence
  | map
  deriving DecidableEq

def Found.text : Found → String
  | .null => "null"
  | .boolean b => "boolean `" ++ toString b ++ "`"
  | .integer n => "integer `" ++ toString n ++ "`"
  | .double bits => "floating point `" ++ doubleText bits ++ "`"
  | .string s => "string " ++ Text.escaped s
  | .sequence => "sequence"
  | .map => "map"

inductive Mismatch where
  | missingField (name : String)
  | duplicateField (name : String)
  | invalidType (found : Found) (expected : String)
  | invalidValue (found : Found) (expected : String)
  | invalidLength (length : Nat) (expected : String)
  deriving DecidableEq

def Mismatch.message : Mismatch → String
  | .missingField name => "missing field `" ++ name ++ "`"
  | .duplicateField name => "duplicate field `" ++ name ++ "`"
  | .invalidType found expected => "invalid type: " ++ found.text ++ ", expected " ++ expected
  | .invalidValue found expected => "invalid value: " ++ found.text ++ ", expected " ++ expected
  | .invalidLength length expected =>
    "invalid length " ++ toString length ++ ", expected " ++ expected

inductive Fault where
  | endOfInput
  | malformed
  | mismatch (m : Mismatch)
  deriving DecidableEq

end VisualProgram.Json
