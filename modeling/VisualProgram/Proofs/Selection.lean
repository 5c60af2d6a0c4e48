import Mathlib
import VisualProgram.Proofs.SharedPass
import VisualProgram.Proofs.Trees

namespace VisualProgram

open Text

namespace Roots

def add (o : Options) (successors : List BlockId) (r : Roots) (b : Block) : Roots :=
  if !b.isSet o.rootProperty || b.id ∈ successors then r
  else if b.isSet o.topLevelProperty then { r with deferred := r.deferred ++ [b.id] }
  else { r with ordinary := r.ordinary ++ [b.id] }

/-- `a` comes out before `b`: it is of the first group and `b` of the second, or it stands before
`b` in the document and they are of the same group. -/
def Before (r : Roots) (document : List BlockId) (a b : BlockId) : Prop :=
  a ∈ r.ordinary ∧ b ∈ r.deferred ∨
    (a ∈ r.ordinary ∧ b ∈ r.ordinary ∨ a ∈ r.deferred ∧ b ∈ r.deferred) ∧ [a, b].Sublist document

variable {o : Options} {g : BlockGraph} {b : Block} {id : BlockId}

theorem isRoot_iff (hb : b ∈ g.blocks) :
    isRoot o g b = true ↔
      b.property? o.rootProperty = some "yes" ∧ ∀ d ∈ g.blocks, d.next ≠ some b.id := by
  have hsuccessor : b.id ∈ g.successors ↔ ∃ d ∈ g.blocks, d.next = some b.id := by
    rw [BlockGraph.mem_successors]
    refine exists_congr fun d => and_congr_right fun _ => ?_
    rw [Block.successor?, Option.filter_eq_some_iff]
    exact and_iff_left (decide_eq_true (g.named b hb))
  rw [isRoot, Bool.and_eq_true, decide_eq_true_eq, hsuccessor, Block.isSet, beq_iff_eq]
  simp

-- The two groups are the filters of the blocks seen so far, whatever was there before.
theorem foldl_add (o : Options) (g : BlockGraph) (bs : List Block) (r : Roots) :
    bs.foldl (add o g.successors) r =
      { ordinary := r.ordinary ++
          ((bs.filter (isRoot o g)).filter fun b => !b.isSet o.topLevelProperty).map Block.id
        deferred := r.deferred ++
          ((bs.filter (isRoot o g)).filter fun b => b.isSet o.topLevelProperty).map Block.id } := by
  induction bs generalizing r with
  | nil => simp
  | cons b bs ih =>
    have hroot : isRoot o g b = !(!b.isSet o.rootProperty || b.id ∈ g.successors) := by
      simp [isRoot]
    rw [List.foldl_cons, ih, add]
    cases hskip : (!b.isSet o.rootProperty || decide (b.id ∈ g.successors)) with
    | true => simp [hroot, hskip]
    | false =>
      cases htop : b.isSet o.topLevelProperty with
      | true => simp [hroot, hskip, htop]
      | false => simp [hroot, hskip, htop]

theorem foldl_add_select (o : Options) (g : BlockGraph) :
    g.blocks.foldl (add o g.successors) ⟨[], []⟩ = select o g :=
  foldl_add o g g.blocks ⟨[], []⟩

theorem sublist_group (o : Options) (g : BlockGraph) (p : Block → Bool) :
    (((g.blocks.filter (isRoot o g)).filter p).map Block.id).Sublist (g.blocks.map Block.id) :=
  (List.filter_sublist.trans List.filter_sublist).map Block.id

theorem mem_group {p : Block → Bool} :
    id ∈ ((g.blocks.filter (isRoot o g)).filter p).map Block.id ↔
      ∃ b ∈ g.blocks, b.id = id ∧ b.property? o.rootProperty = some "yes" ∧
        (∀ d ∈ g.blocks, d.next ≠ some b.id) ∧ p b = true := by
  simp only [List.mem_map, List.mem_filter]
  constructor
  · rintro ⟨b, ⟨⟨hb, hroot⟩, hp⟩, hid⟩
    obtain ⟨hset, hfree⟩ := (isRoot_iff hb).1 hroot
    exact ⟨b, hb, hid, hset, hfree, hp⟩
  · rintro ⟨b, hb, hid, hset, hfree, hp⟩
    exact ⟨b, ⟨⟨hb, (isRoot_iff hb).2 ⟨hset, hfree⟩⟩, hp⟩, hid⟩

theorem before_of_sublist {r : Roots} {document ids : List BlockId}
    (h : ids.Sublist r.inOutputOrder) (hordinary : r.ordinary.Sublist document)
    (hdeferred : r.deferred.Sublist document) : ids.Pairwise (r.Before document) := by
  refine List.Pairwise.sublist h (List.pairwise_append.2 ⟨?_, ?_, ?_⟩)
  · apply List.pairwise_iff_forall_sublist.2
    intro a b hab
    have ha : a ∈ r.ordinary := hab.subset (by simp)
    have hb : b ∈ r.ordinary := hab.subset (by simp)
    exact .inr ⟨.inl ⟨ha, hb⟩, hab.trans hordinary⟩
  · apply List.pairwise_iff_forall_sublist.2
    intro a b hab
    have ha : a ∈ r.deferred := hab.subset (by simp)
    have hb : b ∈ r.deferred := hab.subset (by simp)
    exact .inr ⟨.inr ⟨ha, hb⟩, hab.trans hdeferred⟩
  · intro a ha b hb
    exact .inl ⟨ha, hb⟩

end Roots

namespace Program

def shown (c : Context) (ids : List BlockId) : List (BlockId × String) :=
  (ids.map fun id => (id, dropFeeds (Script.compile c id).source)).filter fun e => !blankText e.2

theorem mem_shown {c : Context} {ids : List BlockId} {id : BlockId} {text : String} :
    (id, text) ∈ shown c ids ↔
      id ∈ ids ∧ text = dropFeeds (Script.compile c id).source ∧ blankText text = false := by
  simp only [shown, List.mem_filter, List.mem_map, Prod.mk.injEq, Bool.not_eq_true']
  constructor
  · rintro ⟨⟨x, hx, rfl, rfl⟩, hblank⟩
    exact ⟨hx, rfl, hblank⟩
  · rintro ⟨hid, rfl, hblank⟩
    exact ⟨⟨id, hid, rfl, rfl⟩, hblank⟩

theorem sublist_shown (c : Context) (ids : List BlockId) :
    ((shown c ids).map Prod.fst).Sublist ids := by
  have hids : (ids.map fun id => (id, dropFeeds (Script.compile c id).source)).map Prod.fst = ids := by
    rw [List.map_map]
    exact List.map_id ids
  have h : (shown c ids).Sublist (ids.map fun id => (id, dropFeeds (Script.compile c id).source)) :=
    List.filter_sublist
  simpa only [hids] using h.map Prod.fst

theorem texts_shown (c : Context) (roots : Roots) :
    (shown c roots.inOutputOrder).map Prod.snd =
      sections (roots.inOutputOrder.map fun id => (c.compileId id).value) := by
  simp only [shown, sections, List.filter_map, List.map_map]
  rfl

theorem source_compile (registry : Registry) (o : Options) (g : BlockGraph) :
    let p := compile registry o g
    let lead := closeLines (p.modules.map ("import " ++ ·)) ++ closeLines o.prelude
    let entries := shown ⟨.ofGraph g, registry, o⟩ (Roots.select o g).inOutputOrder
    p.source = lead ++ if entries = [] then "" else
      (if lead = "" then "" else "\n") ++
        String.intercalate "\n\n" (entries.map Prod.snd) ++ "\n" := by
  let c : Context := ⟨.ofGraph g, registry, o⟩
  let roots := Roots.select o g
  have hsource : (compile registry o g).source = assemble o (compile registry o g).modules
      (roots.inOutputOrder.map fun id => (c.compileId id).value) := by
    unfold compile ofRoots
    dsimp only
    rw [Logged.traverse_eq]
  intro p lead entries
  rw [hsource, assemble_eq, ← texts_shown]
  simp only [List.map_eq_nil_iff]
  rfl

end Program

theorem Roots.select_partition (registry : Registry) (o : Options) (g : BlockGraph) :
    let r := select o g
    let p := Program.compile registry o g
    let document := g.blocks.map Block.id
    let lead := closeLines (p.modules.map ("import " ++ ·)) ++ closeLines o.prelude
    g.blocks.foldl (add o g.successors) ⟨[], []⟩ = r ∧
      r.ordinary.Sublist document ∧ r.deferred.Sublist document ∧
      r.ordinary.Nodup ∧ r.deferred.Nodup ∧ r.ordinary.Disjoint r.deferred ∧
      (∀ id, id ∈ r.ordinary ↔ ∃ b ∈ g.blocks, b.id = id ∧
        b.property? o.rootProperty = some "yes" ∧ (∀ d ∈ g.blocks, d.next ≠ some b.id) ∧
        b.property? o.topLevelProperty ≠ some "yes") ∧
      (∀ id, id ∈ r.deferred ↔ ∃ b ∈ g.blocks, b.id = id ∧
        b.property? o.rootProperty = some "yes" ∧ (∀ d ∈ g.blocks, d.next ≠ some b.id) ∧
        b.property? o.topLevelProperty = some "yes") ∧
      ∃ entries : List (BlockId × String),
        (∀ id text, (id, text) ∈ entries ↔ (id ∈ r.ordinary ∨ id ∈ r.deferred) ∧
          text = dropFeeds (Script.compile ⟨.ofGraph g, registry, o⟩ id).source ∧
          blankText text = false) ∧
        (entries.map Prod.fst).Pairwise (r.Before document) ∧
        p.source = lead ++ if entries = [] then "" else
          (if lead = "" then "" else "\n") ++
            String.intercalate "\n\n" (entries.map Prod.snd) ++ "\n" := by
  intro r p document lead
  have hordinary : r.ordinary.Sublist document := sublist_group o g _
  have hdeferred : r.deferred.Sublist document := sublist_group o g _
  obtain ⟨hnodup, hnodup', hdisjoint⟩ := List.nodup_append'.1 (nodup_inOutputOrder o g)
  refine ⟨foldl_add_select o g, hordinary, hdeferred, hnodup, hnodup', hdisjoint, ?_, ?_,
    Program.shown ⟨.ofGraph g, registry, o⟩ r.inOutputOrder, ?_, ?_, ?_⟩
  · intro id
    refine mem_group.trans ?_
    simp [Block.isSet]
  · intro id
    refine mem_group.trans ?_
    simp [Block.isSet]
  · intro id text
    rw [Program.mem_shown, inOutputOrder, List.mem_append]
  · exact before_of_sublist (Program.sublist_shown _ _) hordinary hdeferred
  · exact Program.source_compile registry o g

end VisualProgram
