import VisualProgram.Block

namespace VisualProgram

inductive IdError where
  | reserved
  | duplicate (id : BlockId)
  deriving DecidableEq

def IdError.message : IdError → String
  | .reserved => "block id " ++ BlockId.null.text ++ " is reserved and cannot name a block"
  | .duplicate id => "duplicate block id " ++ id.text

structure BlockGraph where
  blocks : List Block
  named : ∀ b ∈ blocks, b.id ≠ .null
  distinct : (blocks.map Block.id).Nodup
  deriving DecidableEq

namespace BlockGraph

theorem ext {g h : BlockGraph} (e : g.blocks = h.blocks) : g = h := by
  cases g
  cases h
  simp_all

def empty : BlockGraph :=
  ⟨[], by simp, by simp⟩

def size (g : BlockGraph) : Nat :=
  g.blocks.length

def get? (g : BlockGraph) (id : BlockId) : Option Block :=
  g.blocks.find? fun b => b.id = id

theorem id_of_get? {g : BlockGraph} {id : BlockId} {b : Block} (h : g.get? id = some b) :
    b.id = id := by
  simpa using List.find?_some h

theorem mem_of_get? {g : BlockGraph} {id : BlockId} {b : Block} (h : g.get? id = some b) :
    b ∈ g.blocks :=
  List.mem_of_find?_eq_some h

theorem get?_null (g : BlockGraph) : g.get? .null = none := by
  simpa [get?] using g.named

def contains (g : BlockGraph) (id : BlockId) : Bool :=
  g.blocks.any fun b => b.id = id

def insert (g : BlockGraph) (b : Block) : Except IdError BlockGraph :=
  if hn : b.id = .null then .error .reserved
  else if hd : b.id ∈ g.blocks.map Block.id then .error (.duplicate b.id)
  else
    .ok
      { blocks := g.blocks ++ [b]
        named := by
          intro c hc
          rcases List.mem_append.1 hc with hc | hc
          · exact g.named c hc
          · exact List.mem_singleton.1 hc ▸ hn
        distinct := by
          rw [List.map_append, List.nodup_append]
          refine ⟨g.distinct, by simp, fun x hx y hy => ?_⟩
          rintro rfl
          exact hd ((List.mem_singleton.1 hy) ▸ hx) }

def ofBlocks (blocks : List Block) : Except IdError BlockGraph :=
  blocks.foldlM insert empty

def modify (g : BlockGraph) (id : BlockId) (f : Block → Block) (hf : ∀ b, (f b).id = b.id) :
    BlockGraph :=
  have ids : (g.blocks.map fun b => if b.id = id then f b else b).map Block.id =
      g.blocks.map Block.id := by
    rw [List.map_map]
    refine List.map_congr_left fun b _ => ?_
    by_cases h : b.id = id <;> simp [h, hf]
  { blocks := g.blocks.map fun b => if b.id = id then f b else b
    named := by
      intro c hc h
      have : c.id ∈ g.blocks.map Block.id := ids ▸ List.mem_map_of_mem hc
      obtain ⟨b, hb, hbc⟩ := List.mem_map.1 this
      exact g.named b hb (hbc.trans h)
    distinct := ids ▸ g.distinct }

def successors (g : BlockGraph) : List BlockId :=
  Sorted.ofList (g.blocks.filterMap Block.successor?)

theorem mem_successors {g : BlockGraph} {id : BlockId} :
    id ∈ g.successors ↔ ∃ b ∈ g.blocks, b.successor? = some id := by
  simp [successors, Sorted.mem_ofList]

end BlockGraph

end VisualProgram
