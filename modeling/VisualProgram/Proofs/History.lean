import VisualProgram.Proofs.Arena
import VisualProgram.Proofs.Walks

namespace VisualProgram

inductive Edit where
  | add (b : Block)
  | connect (parent : BlockId) (index : Nat) (child : BlockId)
  | chain (ids : List BlockId)
  | setLabel (id : BlockId) (label : String)

def Edit.added? : Edit → Option Block
  | add b => some b
  | connect _ _ _ => none
  | chain _ => none
  | setLabel _ _ => none

namespace Block

def stem (b : Block) : Block :=
  { b with label := none, sockets := [], next := none }

def plugIn (index : Nat) (child : BlockId) (b : Block) : Block :=
  { b with sockets := (Builder.growSockets b.sockets index).modify index (·.connect child) }

def followedBy (next : BlockId) (b : Block) : Block :=
  { b with next := some next }

def labelled (label : String) (b : Block) : Block :=
  { b with label := some label }

end Block

namespace Builder

def apply (w : Builder) : Edit → Builder
  | .add b => w.add b
  | .connect parent index child => w.connect parent index child
  | .chain ids => w.chain ids
  | .setLabel id label => w.setLabel id label

end Builder

structure Workbench where
  arena : Arena
  last : Nat

namespace Workbench

def start : Workbench :=
  ⟨.empty, 0⟩

def add (w : Workbench) (b : Block) : Option Workbench :=
  if w.last + 1 < UInt64.size then
    some ⟨w.arena.push { b with id := .ofNat (w.last + 1) }, w.last + 1⟩
  else none

def modify (w : Workbench) (id : BlockId) (f : Block → Block) : Workbench :=
  { w with arena := w.arena.modify id f }

def link (w : Workbench) (pair : BlockId × BlockId) : Workbench :=
  w.modify pair.1 (Block.followedBy pair.2)

def apply (w : Workbench) : Edit → Option Workbench
  | .add b => w.add b
  | .connect parent index child => some (w.modify parent (Block.plugIn index child))
  | .chain ids => some ((ids.zip ids.tail).foldl link w)
  | .setLabel id label => some (w.modify id (Block.labelled label))

end Workbench

inductive History where
  | new
  | ofBlocks (blocks : List Block)
  | ofDocument (text : String)
  | build (edits : List Edit)
  | insert (before : History) (b : Block)

def numbered (blocks : List Block) : List Block :=
  (blocks.zipIdx 1).map fun p => { p.1 with id := .ofNat p.2 }

def documentBlocks (text : String) : List Block :=
  match (Json.Reader.record blocksRecord).run text.toList with
  | .ok (blocks, _) => blocks
  | .error _ => []

namespace History

def run : History → Option Arena
  | new => some .empty
  | ofBlocks blocks => (Arena.ofBlocks blocks).toOption
  | ofDocument text => (Arena.ofDocument text).toOption
  | build edits => (edits.foldlM Workbench.apply .start).map Workbench.arena
  | insert before b => before.run.map fun a => (a.insert b).2

def graph : History → Option BlockGraph
  | new => some .empty
  | ofBlocks blocks => (BlockGraph.ofBlocks blocks).toOption
  | ofDocument text => (BlockGraph.ofDocument text).toOption
  | build edits => some (edits.foldl Builder.apply .empty).graph
  | insert before b => before.graph.map fun g => (g.insert b).toOption.getD g

/-- The blocks in the order in which they were inserted. An insertion of an id that is taken or
reserved adds none. -/
def inserted : History → List Block
  | new => []
  | ofBlocks blocks => blocks
  | ofDocument text => documentBlocks text
  | build edits => numbered (edits.filterMap Edit.added?)
  | insert before b =>
    if b.id = .null ∨ b.id ∈ before.inserted.map Block.id then before.inserted
    else before.inserted ++ [b]

end History

theorem length_numbered (bs : List Block) : (numbered bs).length = bs.length := by
  simp [numbered]

theorem numbered_append (bs : List Block) (b : Block) :
    numbered (bs ++ [b]) = numbered bs ++ [{ b with id := .ofNat (bs.length + 1) }] := by
  simp [numbered, List.zipIdx_append, Nat.add_comm]

theorem map_id_numbered (bs : List Block) :
    (numbered bs).map Block.id = (List.range' 1 bs.length).map BlockId.ofNat := by
  rw [numbered, List.map_map, ← List.zipIdx_map_snd 1 bs, List.map_map]
  rfl

theorem map_id_of_stem {bs cs : List Block} (h : bs.map Block.stem = cs.map Block.stem) :
    bs.map Block.id = cs.map Block.id := by
  have hid : Block.id ∘ Block.stem = Block.id := rfl
  rw [← hid, ← List.map_map, ← List.map_map, h]

namespace Builder

def link (w : Builder) (pair : BlockId × BlockId) : Builder :=
  w.modify pair.1 (Block.followedBy pair.2) fun _ => rfl

theorem chain_eq_foldl (w : Builder) (ids : List BlockId) :
    w.chain ids = (ids.zip ids.tail).foldl link w := by
  induction ids generalizing w with
  | nil => rfl
  | cons id ids ih =>
    cases ids with
    | nil => rfl
    | cons next ids => exact ih _

end Builder

namespace Workbench

structure Holds (w : Workbench) (built : Builder) (blocks : List Block) : Prop where
  arena : w.arena = built.graph.arena
  last : w.last = blocks.length
  stems : built.graph.blocks.map Block.stem = (numbered blocks).map Block.stem

variable {w w' : Workbench} {built : Builder} {blocks : List Block}

theorem holds_start : start.Holds .empty [] :=
  ⟨rfl, rfl, rfl⟩

theorem Holds.size_eq (h : w.Holds built blocks) : built.graph.size = blocks.length := by
  rw [← length_numbered blocks, BlockGraph.size]
  simpa using congrArg List.length h.stems

theorem Holds.modify (h : w.Holds built blocks) (id : BlockId) (f : Block → Block)
    (hid : ∀ b, (f b).id = b.id) (hstem : ∀ b, (f b).stem = b.stem) :
    (w.modify id f).Holds (built.modify id f hid) blocks where
  arena := by
    rw [Workbench.modify, h.arena]
    exact (BlockGraph.modify_arena built.graph id f hid).symm
  last := h.last
  stems := by
    rw [← h.stems]
    dsimp only [Builder.modify, BlockGraph.modify]
    rw [List.map_map]
    apply List.map_congr_left
    intro b _
    rw [Function.comp_apply]
    split
    · exact hstem b
    · rfl

theorem Holds.links (h : w.Holds built blocks) (pairs : List (BlockId × BlockId)) :
    (pairs.foldl link w).Holds (pairs.foldl Builder.link built) blocks := by
  induction pairs generalizing w built with
  | nil => exact h
  | cons p pairs ih => exact ih (h.modify p.1 (Block.followedBy p.2) (fun _ => rfl) fun _ => rfl)

theorem Holds.add (h : w.Holds built blocks) {b : Block} (hw : w.add b = some w') :
    w'.Holds (built.add b) (blocks ++ [b]) := by
  unfold Workbench.add at hw
  split at hw
  · next hlast =>
    cases hw
    rw [h.last, ← h.size_eq] at hlast
    have hfresh : built.freshId = .ofNat (blocks.length + 1) := by
      rw [Builder.freshId, h.size_eq]
    have hadd : (built.add b).graph.blocks =
        built.graph.blocks ++ [{ b with id := .ofNat (blocks.length + 1) }] := by
      rw [Builder.add, dif_pos hlast, ← hfresh]
    refine ⟨?_, ?_, ?_⟩
    · rw [h.arena, h.last]
      apply BlockGraph.push_arena _ hadd
      rw [← hfresh]
      exact Builder.freshId_notMem hlast
    · rw [h.last, List.length_append, List.length_singleton]
    · rw [hadd, numbered_append, List.map_append, List.map_append, h.stems]
  · cases hw

theorem Holds.apply (h : w.Holds built blocks) {e : Edit} (hw : w.apply e = some w') :
    w'.Holds (built.apply e) (blocks ++ e.added?.toList) := by
  cases e with
  | add b => exact h.add hw
  | connect parent index child =>
    cases hw
    rw [Edit.added?, Option.toList_none, List.append_nil]
    exact h.modify parent (Block.plugIn index child) (fun _ => rfl) fun _ => rfl
  | chain ids =>
    cases hw
    rw [Edit.added?, Option.toList_none, List.append_nil, Builder.apply, Builder.chain_eq_foldl]
    exact h.links _
  | setLabel id label =>
    cases hw
    rw [Edit.added?, Option.toList_none, List.append_nil]
    exact h.modify id (Block.labelled label) (fun _ => rfl) fun _ => rfl

theorem Holds.run (h : w.Holds built blocks) {edits : List Edit}
    (hw : edits.foldlM Workbench.apply w = some w') :
    w'.Holds (edits.foldl Builder.apply built) (blocks ++ edits.filterMap Edit.added?) := by
  induction edits generalizing w built blocks with
  | nil =>
    cases hw
    rwa [List.filterMap_nil, List.append_nil]
  | cons e edits ih =>
    rw [List.foldlM_cons] at hw
    obtain ⟨w₁, hstep, hrest⟩ := Option.bind_eq_some_iff.1 hw
    have hadded : (e :: edits).filterMap Edit.added? =
        e.added?.toList ++ edits.filterMap Edit.added? := by
      cases h : e.added? <;> simp [h]
    rw [hadded, ← List.append_assoc]
    exact ih (h.apply hstep) hrest

theorem last_links (w : Workbench) (pairs : List (BlockId × BlockId)) :
    (pairs.foldl link w).last = w.last := by
  induction pairs generalizing w with
  | nil => rfl
  | cons p pairs ih => exact ih (w.link p)

theorem exists_run (w : Workbench) (edits : List Edit)
    (h : w.last + (edits.filterMap Edit.added?).length < UInt64.size) :
    ∃ w', edits.foldlM Workbench.apply w = some w' := by
  induction edits generalizing w with
  | nil => exact ⟨w, rfl⟩
  | cons e edits ih =>
    rw [List.foldlM_cons]
    cases e with
    | add b =>
      have hlast : w.last + 1 + (edits.filterMap Edit.added?).length < UInt64.size := by
        rw [List.filterMap_cons, Edit.added?, List.length_cons] at h
        omega
      have hroom : w.last + 1 < UInt64.size := by omega
      rw [apply, add, if_pos hroom]
      exact ih _ hlast
    | connect _ _ _ => exact ih _ h
    | chain ids =>
      apply ih
      rw [last_links]
      exact h
    | setLabel _ _ => exact ih _ h

end Workbench

theorem toOption_map {ε α β : Type} (f : α → β) (x : Except ε α) :
    (f <$> x).toOption = x.toOption.map f := by
  cases x <;> rfl

namespace BlockGraph

theorem blocks_of_ofDocument {text : String} {g : BlockGraph} (h : ofDocument text = .ok g) :
    g.blocks = documentBlocks text := by
  unfold ofDocument at h
  unfold documentBlocks
  cases hread : (Json.Reader.record blocksRecord).run text.toList with
  | error e =>
    rw [hread] at h
    cases h
  | ok p =>
    rw [hread] at h
    cases hof : ofBlocks p.1 with
    | error e => simp [hof] at h
    | ok g' =>
      simp only [hof] at h
      split at h
      · cases h
        exact foldlM_insert_eq_ok_iff.1 hof
      · cases h

theorem taken_of_insert_error {g : BlockGraph} {b : Block} {e : IdError}
    (h : g.insert b = .error e) : b.id = .null ∨ b.id ∈ g.blocks.map Block.id := by
  by_contra hfree
  rw [not_or] at hfree
  rw [insert, dif_neg hfree.1, dif_neg hfree.2] at h
  cases h

theorem free_of_insert_ok {g g' : BlockGraph} {b : Block} (h : g.insert b = .ok g') :
    ¬(b.id = .null ∨ b.id ∈ g.blocks.map Block.id) := by
  rintro (hnull | hid)
  · rw [insert, dif_pos hnull] at h
    cases h
  · by_cases hnull : b.id = .null
    · rw [insert, dif_pos hnull] at h
      cases h
    · rw [insert, dif_neg hnull, dif_pos hid] at h
      cases h

end BlockGraph

theorem eq_ok_of_toOption {ε α : Type} {x : Except ε α} {a : α} (h : x.toOption = some a) :
    x = .ok a := by
  cases x with
  | error e => cases h
  | ok a' => exact congrArg _ (Option.some.inj h)

namespace History

theorem graph_of_run {h : History} {a : Arena} (hrun : h.run = some a) :
    ∃ g, h.graph = some g ∧ a = g.arena ∧
      g.blocks.map Block.stem = h.inserted.map Block.stem := by
  induction h generalizing a with
  | new =>
    cases hrun
    exact ⟨.empty, rfl, rfl, rfl⟩
  | ofBlocks bs =>
    rw [run, BlockGraph.ofBlocks_arena, toOption_map] at hrun
    obtain ⟨g, hg, rfl⟩ := Option.map_eq_some_iff.1 hrun
    have hblocks := BlockGraph.foldlM_insert_eq_ok_iff.1 (eq_ok_of_toOption hg)
    exact ⟨g, hg, rfl, congrArg _ hblocks⟩
  | ofDocument text =>
    rw [run, BlockGraph.ofDocument_arena, toOption_map] at hrun
    obtain ⟨g, hg, rfl⟩ := Option.map_eq_some_iff.1 hrun
    have hblocks := BlockGraph.blocks_of_ofDocument (eq_ok_of_toOption hg)
    exact ⟨g, hg, rfl, congrArg _ hblocks⟩
  | build edits =>
    obtain ⟨w, hw, rfl⟩ := Option.map_eq_some_iff.1 hrun
    have hholds := Workbench.holds_start.run hw
    exact ⟨_, rfl, hholds.arena, hholds.stems⟩
  | insert before b ih =>
    obtain ⟨_, hbefore, rfl⟩ := Option.map_eq_some_iff.1 hrun
    obtain ⟨g, hg, rfl, hstems⟩ := ih hbefore
    have hids : before.inserted.map Block.id = g.blocks.map Block.id :=
      (map_id_of_stem hstems).symm
    rw [graph, hg, inserted, hids, BlockGraph.insert_arena, Option.map_some]
    cases hinsert : g.insert b with
    | error e =>
      rw [if_pos (BlockGraph.taken_of_insert_error hinsert)]
      exact ⟨g, rfl, rfl, hstems⟩
    | ok g' =>
      rw [if_neg (BlockGraph.free_of_insert_ok hinsert)]
      refine ⟨g', rfl, rfl, ?_⟩
      rw [BlockGraph.insert_eq_ok_iff.1 hinsert, List.map_append, List.map_append, hstems]

theorem run_inStep (h : History) :
    (∀ a, h.run = some a →
      a.InStep ∧
      (∀ id b, a.get? id = some b ↔ b ∈ a.blocks ∧ b.id = id) ∧
      (∀ id, a.isValid id = (id ≠ .null && (a.block? id).isSome)) ∧
      (∀ b e a', a.insert b = (.error e, a') → a' = a) ∧
      a.blocks.map Block.stem = h.inserted.map Block.stem ∧
      ∃ g, h.graph = some g ∧ a = g.arena ∧
        ∀ id, a.block? id = (Lookup.ofGraph g).find id ∧
          a.isValid id = (Lookup.ofGraph g).isValid id) ∧
    ∀ edits, h = .build edits → (edits.filterMap Edit.added?).length < 2 ^ 64 - 1 →
      ∃ a, h.run = some a ∧ a.blocks.map Block.id =
        (List.range' 1 (edits.filterMap Edit.added?).length).map BlockId.ofNat := by
  constructor
  · intro a hrun
    obtain ⟨g, hg, rfl, hstems⟩ := graph_of_run hrun
    have hstep := g.inStep_arena
    refine ⟨hstep, fun _ _ => hstep.get?_iff, hstep.isValid_eq,
      fun _ _ _ => Arena.insert_error, hstems, g, hg, rfl, fun id => ?_⟩
    exact ⟨g.block?_arena id, g.isValid_arena id⟩
  · rintro edits rfl hfew
    have hroom : 0 + (edits.filterMap Edit.added?).length < UInt64.size := by
      rw [UInt64.size]
      omega
    obtain ⟨w, hw⟩ := Workbench.exists_run .start edits hroom
    have hholds := Workbench.holds_start.run hw
    refine ⟨w.arena, by rw [run, hw, Option.map_some], ?_⟩
    rw [hholds.arena, ← map_id_numbered]
    exact map_id_of_stem hholds.stems

def twoBlocks : List Edit :=
  [.add { Block.ofGenus "click" with id := .ofNat 9 }, .add (.ofGenus "wait"),
    .connect (.ofNat 1) 1 (.ofNat 2), .chain [.ofNat 1, .ofNat 2, .ofNat 1, .ofNat 9],
    .setLabel (.ofNat 9) "pause"]

def rebuilt : History :=
  .insert (.insert (.build twoBlocks) { Block.ofGenus "break" with id := .ofNat 2 })
    { Block.ofGenus "break" with id := .ofNat 9 }

theorem run_inStep_rebuilt :
    (∃ a, rebuilt.run = some a ∧ a.InStep ∧
      a.blocks.map Block.id = [.ofNat 1, .ofNat 2, .ofNat 9]) ∧
    ∃ a, (build twoBlocks).run = some a ∧ a.blocks.map Block.id = [.ofNat 1, .ofNat 2] := by
  have hrun : ∃ a, rebuilt.run = some a := ⟨_, rfl⟩
  obtain ⟨a, ha⟩ := hrun
  obtain ⟨hstep, -, -, -, hstems, -⟩ := (run_inStep rebuilt).1 a ha
  refine ⟨⟨a, ha, hstep, ?_⟩, ?_⟩
  · rw [map_id_of_stem hstems]
    decide
  · obtain ⟨b, hb, hids⟩ := (run_inStep (build twoBlocks)).2 twoBlocks rfl (by decide)
    exact ⟨b, hb, hids⟩

end History

end VisualProgram
