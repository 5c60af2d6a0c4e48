import VisualProgram.Program
import VisualProgram.Proofs.Locality
import VisualProgram.Proofs.Walks
import VisualProgram.Registry.Standard

namespace VisualProgram

namespace Lookup

inductive Meets (l : Lookup) (root : BlockId) : BlockId → Prop
  | root : Meets l root root
  | link {id target : BlockId} {b : Block} : Meets l root id → l.block? id = some b →
      target ∈ b.links → Meets l root target

structure SameAt (l l' : Lookup) (id : BlockId) : Prop where
  find : l.find id = l'.find id
  isValid : l.isValid id = l'.isValid id

theorem SameAt.block? {l l' : Lookup} {id : BlockId} (h : l.SameAt l' id) :
    l.block? id = l'.block? id := by
  rw [Lookup.block?, Lookup.block?, h.isValid, h.find]

theorem sameAt_ofFind {find find' : BlockId → Option Block} {h : find .null = none}
    {h' : find' .null = none} {id : BlockId} (hid : find id = find' id) :
    (ofFind find h).SameAt (ofFind find' h') id where
  find := hid
  isValid := by simp only [ofFind, hid]

theorem block?_ofFind (find : BlockId → Option Block) (h : find .null = none) (id : BlockId) :
    (ofFind find h).block? id = find id := by
  cases hb : find id with
  | none => simp [block?, ofFind, hb]
  | some b =>
    rw [block?, isValid_ofFind_iff.2 ⟨b, hb⟩, if_pos rfl]
    exact hb

theorem sameAt_ofGraph {g g' : BlockGraph} {id : BlockId} (h : g.get? id = g'.get? id) :
    (ofGraph g).SameAt (ofGraph g') id := by
  rw [ofGraph_eq_ofFind, ofGraph_eq_ofFind]
  exact sameAt_ofFind h

end Lookup

theorem BlockGraph.get?_congr {g g' : BlockGraph} {id : BlockId}
    (h : ∀ b : Block, b.id = id → (b ∈ g.blocks ↔ b ∈ g'.blocks)) : g.get? id = g'.get? id := by
  ext b
  rw [get?_eq_some_iff, get?_eq_some_iff]
  constructor
  · rintro ⟨hb, hid⟩
    exact ⟨(h b hid).1 hb, hid⟩
  · rintro ⟨hb, hid⟩
    exact ⟨(h b hid).2 hb, hid⟩

namespace Context

variable {c c' : Context} {root : BlockId}

structure AgreeFrom (root : BlockId) (c c' : Context) : Prop where
  options : c.options = c'.options
  lookup : ∀ id, c.lookup.Meets root id → c.lookup.SameAt c'.lookup id
  rule : ∀ id b, c.lookup.Meets root id → c.lookup.block? id = some b →
    c.registry.rule? b.genus = c'.registry.rule? b.genus

def Near (c : Context) (root : BlockId) (b : Block) : Prop :=
  ∃ id, c.lookup.Meets root id ∧ c.lookup.block? id = some b

theorem Near.meets {b : Block} (h : c.Near root b) {id : BlockId} (hid : id ∈ b.links) :
    c.lookup.Meets root id := by
  obtain ⟨_, hmeets, hb⟩ := h
  exact hmeets.link hb hid

theorem AgreeFrom.agree (h : AgreeFrom root c c') : Agree c c' (c.Near root) where
  options := h.options
  rule := by
    rintro b ⟨id, hid, hb⟩
    exact h.rule id b hid hb
  isValid _ hb id hid := (h.lookup id (hb.meets hid)).isValid
  find _ hb id hid := (h.lookup id (hb.meets hid)).find
  closed := by
    rintro b d hb ⟨id, hid, hd⟩
    exact ⟨id, hb.meets hid, hd⟩

theorem AgreeFrom.compileId (h : AgreeFrom root c c') : c.compileId root = c'.compileId root := by
  have hroot := (h.lookup root .root).block?
  unfold Context.compileId
  rw [← hroot]
  cases hb : c.lookup.block? root with
  | none => rfl
  | some b =>
    have hpath : SamePath (c.Near root) .empty .empty := fun _ _ => Iff.rfl
    exact compileBlock_congr h.agree hpath ⟨root, .root, hb⟩

end Context

namespace Script

open Context

theorem compile_congr {c c' : Context} {root : BlockId} (h : AgreeFrom root c c') :
    compile c root = compile c' root := by
  rw [compile, compile, h.compileId]

theorem compile_footprint (o : Options) (root : BlockId) :
    (∀ (l l' : Lookup) (r r' : Registry), AgreeFrom root ⟨l, r, o⟩ ⟨l', r', o⟩ →
      compile ⟨l, r, o⟩ root = compile ⟨l', r', o⟩ root) ∧
    (∀ (find find' : BlockId → Option Block) (h : find .null = none) (h' : find' .null = none)
      (r r' : Registry), (∀ id, (Lookup.ofFind find h).Meets root id → find id = find' id) →
      (∀ id b, (Lookup.ofFind find h).Meets root id → find id = some b →
        r.rule? b.genus = r'.rule? b.genus) →
      compile ⟨.ofFind find h, r, o⟩ root = compile ⟨.ofFind find' h', r', o⟩ root) ∧
    (∀ (g g' : BlockGraph) (r : Registry),
      (∀ b : Block, (Lookup.ofGraph g).Meets root b.id → (b ∈ g.blocks ↔ b ∈ g'.blocks)) →
      compile ⟨.ofGraph g, r, o⟩ root = compile ⟨.ofGraph g', r, o⟩ root) ∧
    ∀ (l : Lookup) (r : Registry) (genus : String) (rule : Rule),
      (∀ id b, l.Meets root id → l.block? id = some b → b.genus ≠ genus) →
      compile ⟨l, r.register genus rule, o⟩ root = compile ⟨l, r, o⟩ root := by
  refine ⟨fun _ _ _ _ h => compile_congr h, fun _ _ h _ _ _ hfind hrule => ?_,
    fun _ _ _ h => ?_, fun _ r _ _ h => ?_⟩
  · refine compile_congr ⟨rfl, fun id hid => Lookup.sameAt_ofFind (hfind id hid), ?_⟩
    intro id b hid hb
    rw [Lookup.block?_ofFind] at hb
    exact hrule id b hid hb
  · refine compile_congr ⟨rfl, fun id hid => ?_, fun _ _ _ _ => rfl⟩
    apply Lookup.sameAt_ofGraph
    apply BlockGraph.get?_congr
    rintro b rfl
    exact h b hid
  · refine compile_congr ⟨rfl, fun _ _ => ⟨rfl, rfl⟩, fun id b hid hb => ?_⟩
    dsimp only
    rw [Registry.rule?_register, if_neg (h id b hid hb)]

end Script

def BlockGraph.movedOperand : BlockGraph where
  blocks :=
    [{ Block.ofGenus "number" with id := .ofNat 1, label := some "4" },
      { Block.ofGenus "click" with id := .ofNat 3, next := some (.ofNat 2) },
      { Block.ofGenus "sum" with
        id := .ofNat 2
        sockets := [(Socket.any "a").connect (.ofNat 1), (Socket.any "b").connect (.ofNat 1)] }]
  named := by decide
  distinct := by decide

theorem Script.compile_footprint_movedOperand :
    let r := Registry.standard.register "if" (.plain "pass")
    let c : Context := ⟨.ofGraph .sharedOperand, .standard, .standard⟩
    let find := BlockGraph.sharedOperand.get?
    let find' := BlockGraph.movedOperand.get?
    Context.AgreeFrom (.ofNat 2) c ⟨.ofGraph .movedOperand, r, .standard⟩ ∧
      compile c (.ofNat 2) = compile ⟨.ofGraph .movedOperand, r, .standard⟩ (.ofNat 2) ∧
      compile ⟨.ofFind find (BlockGraph.get?_null _), .standard, .standard⟩ (.ofNat 2) =
        compile ⟨.ofFind find' (BlockGraph.get?_null _), r, .standard⟩ (.ofNat 2) ∧
      compile c (.ofNat 2) = compile ⟨.ofGraph .movedOperand, .standard, .standard⟩ (.ofNat 2) ∧
      compile ⟨.ofGraph .sharedOperand, r, .standard⟩ (.ofNat 2) = compile c (.ofNat 2) := by
  intro r c find find'
  have hmeets : ∀ id, (Lookup.ofGraph .sharedOperand).Meets (.ofNat 2) id →
      id = .ofNat 2 ∨ id = .ofNat 1 := by
    intro id h
    induction h with
    | root => exact .inl rfl
    | link _ hb hid ih =>
      rcases ih with rfl | rfl
      · cases hb
        right
        simpa [Block.links, Block.successor?, Block.ofGenus, Socket.any, Socket.empty,
          Socket.connect] using hid
      · cases hb
        simp [Block.links, Block.successor?, Block.ofGenus] at hid
  have hfind : ∀ id, (Lookup.ofGraph .sharedOperand).Meets (.ofNat 2) id → find id = find' id := by
    intro id hid
    rcases hmeets id hid with rfl | rfl <;> rfl
  have hgenus : ∀ id b, (Lookup.ofGraph .sharedOperand).Meets (.ofNat 2) id → find id = some b →
      b.genus ≠ "if" := by
    intro id b hid hb
    rcases hmeets id hid with rfl | rfl <;> cases hb <;> decide
  have hrule : ∀ id b, (Lookup.ofGraph .sharedOperand).Meets (.ofNat 2) id → find id = some b →
      Registry.standard.rule? b.genus = r.rule? b.genus := by
    intro id b hid hb
    rw [Registry.rule?_register, if_neg (hgenus id b hid hb)]
  have hagree : Context.AgreeFrom (.ofNat 2) c ⟨.ofGraph .movedOperand, r, .standard⟩ := by
    refine ⟨rfl, fun id hid => Lookup.sameAt_ofGraph (hfind id hid), fun id b hid hb => ?_⟩
    rw [Lookup.block?_ofGraph] at hb
    exact hrule id b hid hb
  have hblocks : ∀ b : Block, (Lookup.ofGraph .sharedOperand).Meets (.ofNat 2) b.id →
      (b ∈ BlockGraph.sharedOperand.blocks ↔ b ∈ BlockGraph.movedOperand.blocks) := by
    intro b hb
    have hmem (g : BlockGraph) : b ∈ g.blocks ↔ g.get? b.id = some b := by
      simp [BlockGraph.get?_eq_some_iff]
    have hget : BlockGraph.sharedOperand.get? b.id = BlockGraph.movedOperand.get? b.id :=
      hfind b.id hb
    rw [hmem, hmem, hget]
  obtain ⟨hcontexts, hfinds, hgraphs, hrules⟩ := compile_footprint .standard (.ofNat 2)
  refine ⟨hagree, hcontexts _ _ _ _ hagree, ?_, hgraphs _ _ _ hblocks, ?_⟩
  · apply hfinds
    · rw [← Lookup.ofGraph_eq_ofFind]
      exact hfind
    · rw [← Lookup.ofGraph_eq_ofFind]
      exact hrule
  · apply hrules
    intro id b hid hb
    rw [Lookup.block?_ofGraph] at hb
    exact hgenus id b hid hb

end VisualProgram
