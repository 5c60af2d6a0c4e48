import VisualProgram.Graph

namespace VisualProgram

structure Builder where
  graph : BlockGraph
  numbered : graph.blocks.map (BlockId.toNat ∘ Block.id) = List.range' 1 graph.size

namespace Builder

def empty : Builder :=
  ⟨.empty, rfl⟩

def freshId (b : Builder) : BlockId :=
  .ofNat (b.graph.size + 1)

theorem freshId_notMem {b : Builder} (h : b.graph.size + 1 < UInt64.size) :
    b.freshId ∉ b.graph.blocks.map Block.id := by
  intro hm
  have hm := List.mem_map_of_mem hm (f := BlockId.toNat)
  rw [List.map_map, b.numbered, freshId, BlockId.toNat_ofNat h, List.mem_range'_1] at hm
  omega

theorem freshId_ne_null {b : Builder} (h : b.graph.size + 1 < UInt64.size) : b.freshId ≠ .null := by
  intro hn
  have := congrArg BlockId.toNat hn
  rw [freshId, BlockId.toNat_ofNat h] at this
  exact absurd this (by simp [BlockId.null, BlockId.toNat])

/-- Adds a block under the next id, whatever id it had. A builder whose ids are used up stays as it
is. -/
def add (b : Builder) (block : Block) : Builder :=
  if h : b.graph.size + 1 < UInt64.size then
    { graph :=
        { blocks := b.graph.blocks ++ [{ block with id := b.freshId }]
          named := by
            intro c hc
            rcases List.mem_append.1 hc with hc | hc
            · exact b.graph.named c hc
            · exact List.mem_singleton.1 hc ▸ freshId_ne_null h
          distinct := by
            rw [List.map_append, List.nodup_append]
            refine ⟨b.graph.distinct, by simp, fun x hx y hy => ?_⟩
            rintro rfl
            have hy : x = b.freshId := by simpa using hy
            exact freshId_notMem h (hy ▸ hx) }
      numbered := by
        have := b.numbered
        simp only [BlockGraph.size] at h this
        simp [BlockGraph.size, this, freshId, BlockId.toNat_ofNat h, List.range'_concat,
          Nat.add_comm] }
  else b

def modify (b : Builder) (id : BlockId) (f : Block → Block) (hf : ∀ c, (f c).id = c.id) :
    Builder :=
  ⟨b.graph.modify id f hf, by
    have h := b.numbered
    simp only [BlockGraph.modify, BlockGraph.size, List.map_map, List.length_map] at h ⊢
    rw [← h]
    refine List.map_congr_left fun c _ => ?_
    by_cases hc : c.id = id <;> simp [hc, hf]⟩

def growSockets (sockets : List Socket) (index : Nat) : List Socket :=
  sockets ++ (List.range' sockets.length (index + 1 - sockets.length)).map fun i =>
    Socket.any (Socket.argName i)

def connect (b : Builder) (parent : BlockId) (index : Nat) (child : BlockId) : Builder :=
  b.modify parent
    (fun p => { p with sockets := (growSockets p.sockets index).modify index (·.connect child) })
    fun _ => rfl

def chain (b : Builder) : List BlockId → Builder
  | id :: next :: ids =>
    (b.modify id (fun c => { c with next := some next }) fun _ => rfl).chain (next :: ids)
  | _ => b

def setLabel (b : Builder) (id : BlockId) (label : String) : Builder :=
  b.modify id (fun c => { c with label := some label }) fun _ => rfl

end Builder

end VisualProgram
