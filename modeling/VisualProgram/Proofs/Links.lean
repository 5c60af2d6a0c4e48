import Mathlib.Logic.Relation
import VisualProgram.Compile.Walk

namespace VisualProgram

namespace Block

def links (b : Block) : List BlockId :=
  b.sockets.filterMap Socket.block ++ b.successor?.toList

theorem mem_links_of_target? {b : Block} {index : Nat} {id : BlockId}
    (h : b.target? index = some id) : id ∈ b.links := by
  obtain ⟨s, hs, hid⟩ := Option.bind_eq_some_iff.1 h
  apply List.mem_append_left
  exact List.mem_filterMap.2 ⟨s, List.mem_of_getElem? hs, hid⟩

theorem mem_links_of_successor? {b : Block} {id : BlockId} (h : b.successor? = some id) :
    id ∈ b.links := by
  apply List.mem_append_right
  exact Option.mem_toList.2 h

end Block

namespace Lookup

def Link (l : Lookup) (b d : Block) : Prop :=
  ∃ id ∈ b.links, l.block? id = some d

def Reaches (l : Lookup) : Block → Block → Prop :=
  Relation.ReflTransGen l.Link

theorem mem_of_link {g : BlockGraph} {b d : Block} (h : (ofGraph g).Link b d) : d ∈ g.blocks := by
  obtain ⟨id, _, hd⟩ := h
  rw [block?_ofGraph] at hd
  exact BlockGraph.mem_of_get? hd

end Lookup

namespace BlockGraph

def Descending (g : BlockGraph) : Prop :=
  ∀ b ∈ g.blocks, ∀ id ∈ b.links, id.toNat < b.id.toNat

instance (g : BlockGraph) : Decidable g.Descending :=
  inferInstanceAs (Decidable (∀ b ∈ g.blocks, ∀ id ∈ b.links, id.toNat < b.id.toNat))

theorem Descending.link_lt {g : BlockGraph} (hg : g.Descending) {b d : Block} (hb : b ∈ g.blocks)
    (h : (Lookup.ofGraph g).Link b d) : d.id.toNat < b.id.toNat := by
  obtain ⟨id, hid, hd⟩ := h
  rw [Lookup.block?_ofGraph] at hd
  rw [id_of_get? hd]
  exact hg b hb id hid

theorem Descending.reaches_le {g : BlockGraph} (hg : g.Descending) {b d : Block}
    (hb : b ∈ g.blocks) (h : (Lookup.ofGraph g).Reaches b d) :
    d ∈ g.blocks ∧ d.id.toNat ≤ b.id.toNat := by
  induction h with
  | refl => exact ⟨hb, Nat.le_refl _⟩
  | tail _ hl ih =>
    have hlt := hg.link_lt ih.1 hl
    exact ⟨Lookup.mem_of_link hl, by omega⟩

theorem Descending.acyclic {g : BlockGraph} (hg : g.Descending) :
    ∀ b ∈ g.blocks, ¬Relation.TransGen (Lookup.ofGraph g).Link b b := by
  intro b hb hcycle
  obtain ⟨d, hl, hback⟩ := Relation.TransGen.head'_iff.1 hcycle
  have hlt := hg.link_lt hb hl
  have hle := (hg.reaches_le (Lookup.mem_of_link hl) hback).2
  omega

def sharedOperand : BlockGraph where
  blocks :=
    [{ Block.ofGenus "if" with
        id := .ofNat 3
        sockets := [(Socket.any "test").connect (.ofNat 2), (Socket.any "then").connect .null] },
      { Block.ofGenus "sum" with
        id := .ofNat 2
        sockets := [(Socket.any "a").connect (.ofNat 1), (Socket.any "b").connect (.ofNat 1)] },
      { Block.ofGenus "number" with id := .ofNat 1, label := some "4" }]
  named := by decide
  distinct := by decide

theorem descending_sharedOperand : sharedOperand.Descending := by
  decide

end BlockGraph

namespace Context

variable {c : Context} {b d : Block}

theorem child_eq_some_iff {index : Nat} : (c.child b index).value = some d ↔
    ∃ id, b.target? index = some id ∧ c.lookup.block? id = some d := by
  rw [child_value, Option.bind_eq_some_iff]

theorem successor_eq_some_iff : (c.successor b).value = some d ↔
    ∃ id, b.successor? = some id ∧ c.lookup.block? id = some d := by
  rw [successor_value, Option.bind_eq_some_iff]

theorem link_of_child {index : Nat} (h : (c.child b index).value = some d) : c.lookup.Link b d := by
  obtain ⟨id, hid, hd⟩ := child_eq_some_iff.1 h
  exact ⟨id, Block.mem_links_of_target? hid, hd⟩

theorem link_of_successor (h : (c.successor b).value = some d) : c.lookup.Link b d := by
  obtain ⟨id, hid, hd⟩ := successor_eq_some_iff.1 h
  exact ⟨id, Block.mem_links_of_successor? hid, hd⟩

end Context

end VisualProgram
