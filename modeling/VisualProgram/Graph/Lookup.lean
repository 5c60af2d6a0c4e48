import VisualProgram.Graph

namespace VisualProgram

structure Lookup where
  find : BlockId → Option Block
  find_null : find .null = none
  isValid : BlockId → Bool

namespace Lookup

def ofFind (find : BlockId → Option Block) (find_null : find .null = none) : Lookup where
  find
  find_null
  isValid id := id ≠ .null && (find id).isSome

def ofGraph (g : BlockGraph) : Lookup where
  find := g.get?
  find_null := g.get?_null
  isValid id := id ≠ .null && g.contains id

def hide (l : Lookup) (ids : List BlockId) : Lookup :=
  ofFind (fun id => if id ∈ ids then none else l.find id) (by simp [l.find_null])

def block? (l : Lookup) (id : BlockId) : Option Block :=
  if l.isValid id then l.find id else none

theorem isSome_get? (g : BlockGraph) (id : BlockId) : (g.get? id).isSome = g.contains id := by
  rw [Bool.eq_iff_iff]
  simp [BlockGraph.get?, BlockGraph.contains]

theorem ofGraph_eq_ofFind (g : BlockGraph) : ofGraph g = ofFind g.get? g.get?_null := by
  simp [ofGraph, ofFind, isSome_get?]

theorem isValid_ofFind_iff {find : BlockId → Option Block} {h : find .null = none} {id : BlockId} :
    (ofFind find h).isValid id = true ↔ ∃ b, find id = some b := by
  simp only [ofFind, Bool.and_eq_true, decide_eq_true_eq, Option.isSome_iff_exists]
  refine ⟨And.right, fun hb => ⟨fun hn => ?_, hb⟩⟩
  obtain ⟨b, hb⟩ := hb
  simp [hn, h] at hb

theorem isValid_ofGraph_iff {g : BlockGraph} {id : BlockId} :
    (ofGraph g).isValid id = true ↔ ∃ b, g.get? id = some b := by
  rw [ofGraph_eq_ofFind, isValid_ofFind_iff]

theorem block?_ofGraph (g : BlockGraph) (id : BlockId) : (ofGraph g).block? id = g.get? id := by
  cases h : g.get? id with
  | none => simp [block?, ofGraph, h]
  | some b =>
    rw [block?, isValid_ofGraph_iff.2 ⟨b, h⟩, if_pos rfl]
    exact h

end Lookup

end VisualProgram
