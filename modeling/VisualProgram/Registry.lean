import VisualProgram.Rule
import VisualProgram.Sorted

namespace VisualProgram

structure Registry where
  /-- The last registered rule first. -/
  rules : List (String × Rule)
  deriving DecidableEq

namespace Registry

def empty : Registry :=
  ⟨[]⟩

def register (r : Registry) (genus : String) (rule : Rule) : Registry :=
  ⟨(genus, rule) :: r.rules⟩

def rule? (r : Registry) (genus : String) : Option Rule :=
  r.rules.lookup genus

theorem rule?_register (r : Registry) (genus x : String) (rule : Rule) :
    (r.register genus rule).rule? x = if x = genus then some rule else r.rule? x := by
  by_cases h : x = genus
  · simp [rule?, register, h]
  · have hx : (x == genus) = false := by simpa using h
    simp [rule?, register, List.lookup_cons, h, hx]

def contains (r : Registry) (genus : String) : Bool :=
  (r.rule? genus).isSome

def genera (r : Registry) : List String :=
  Sorted.ofList (r.rules.map Prod.fst)

def size (r : Registry) : Nat :=
  r.genera.length

end Registry

end VisualProgram
