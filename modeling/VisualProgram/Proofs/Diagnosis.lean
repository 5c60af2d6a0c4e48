import VisualProgram.Proofs.Operations
import VisualProgram.Proofs.Walks

/-!
What a diagnostic says holds in the graph. The blocks on a path lead along links to the block that is
compiled inside them, and a chain has seen the blocks of one walk; so a block that is met again closes
a cycle of links.
-/

namespace VisualProgram

open Relation

def Diagnostic.HoldsIn (g : BlockGraph) (r : Registry) (o : Options) : Diagnostic → Prop
  | .unsupportedGenus id genus => ∃ b ∈ g.blocks, b.id = id ∧ b.genus = genus ∧ r.rule? genus = none
  | .malformedReference id target => ∃ b ∈ g.blocks, b.id = id ∧
      ((∃ s ∈ b.sockets, s.block = some target) ∨ b.next = some target) ∧
      (target = .null ∨ ∀ d ∈ g.blocks, d.id ≠ target)
  | .cyclicStructure id => ∃ b ∈ g.blocks, b.id = id ∧ TransGen (Lookup.ofGraph g).Link b b
  | .chainTooLong id limit => limit = o.maxChainLength ∧ 0 < limit ∧
      ∃ first ∈ g.blocks, ∃ bs last, (Lookup.ofGraph g).Walk first bs last ∧ last.id = id ∧
        bs.length = limit ∧ (bs.map Block.id).Nodup

namespace Lookup

theorem missing_of_isValid {g : BlockGraph} {id : BlockId} (h : (ofGraph g).isValid id = false) :
    id = .null ∨ ∀ d ∈ g.blocks, d.id ≠ id := by
  by_cases hnull : id = .null
  · exact .inl hnull
  · refine .inr fun d hd hid => ?_
    have hvalid := isValid_ofGraph_iff.2 ⟨d, hid ▸ BlockGraph.get?_of_mem hd⟩
    rw [h] at hvalid
    cases hvalid

end Lookup

namespace Context

variable {c : Context} {g : BlockGraph} {path seen : Trail} {b d : Block} {x : Diagnostic}

def Truthful {α : Type} (c : Context) (g : BlockGraph) (w : Logged α) : Prop :=
  ∀ x ∈ w.log.diagnostics, x.HoldsIn g c.registry c.options

theorem truthful_pure {α : Type} (a : α) : c.Truthful g (pure a : Logged α) :=
  fun _ hx => (List.not_mem_nil hx).elim

theorem Truthful.bind {α β : Type} {w : Logged α} {k : α → Logged β} (hw : c.Truthful g w)
    (hk : c.Truthful g (k w.value)) : c.Truthful g (w >>= k) := by
  intro x hx
  rcases List.mem_append.1 hx with hx | hx
  · exact hw x hx
  · exact hk x hx

theorem Truthful.map {α β : Type} {w : Logged α} (f : α → β) (hw : c.Truthful g w) :
    c.Truthful g (f <$> w) := by
  rw [map_eq_pure_bind]
  exact hw.bind (truthful_pure _)

theorem Truthful.traverse {α β : Type} {f : α → Logged β} {as : List α}
    (h : ∀ a ∈ as, c.Truthful g (f a)) : c.Truthful g (Logged.traverse f as) := by
  induction as with
  | nil => exact truthful_pure []
  | cons a as ih =>
    rw [Logged.traverse]
    apply (h a List.mem_cons_self).bind
    exact (ih fun b hb => h b (List.mem_cons_of_mem _ hb)).bind (truthful_pure _)

def LeadsTo (g : BlockGraph) (path : Trail) (b : Block) : Prop :=
  ∀ id ∈ path, ∃ a ∈ g.blocks, a.id = id ∧ TransGen (Lookup.ofGraph g).Link a b

def Follows (c : Context) (g : BlockGraph) (seen : Trail) (b : Block) : Prop :=
  ∃ first ∈ g.blocks, ∃ bs, (Lookup.ofGraph g).Walk first bs b ∧
    seen.ids = (bs.map Block.id).reverse ∧
    (0 < c.options.maxChainLength → bs.length ≤ c.options.maxChainLength)

theorem leadsTo_empty (g : BlockGraph) (b : Block) : LeadsTo g .empty b :=
  fun id hid => (Trail.notMem_empty id hid).elim

theorem LeadsTo.link (h : LeadsTo g path b) (hl : (Lookup.ofGraph g).Link b d) : LeadsTo g path d := by
  intro id hid
  obtain ⟨a, ha, rfl, hab⟩ := h id hid
  exact ⟨a, ha, rfl, hab.tail hl⟩

theorem LeadsTo.push (h : LeadsTo g path b) (hb : b ∈ g.blocks) (hpath : b.id ∉ path)
    (hl : (Lookup.ofGraph g).Link b d) : LeadsTo g (path.push b.id hpath) d := by
  intro id hid
  rcases (Trail.mem_push hpath).1 hid with rfl | hid
  · exact ⟨b, hb, rfl, .single hl⟩
  · exact h.link hl id hid

theorem follows_empty (hb : b ∈ g.blocks) : c.Follows g .empty b :=
  ⟨b, hb, [], .stay, rfl, fun _ => Nat.zero_le _⟩

theorem Follows.push (h : c.Follows g seen b) (hseen : b.id ∉ seen)
    (hfull : ¬c.options.chainIsFull seen.length = true) (hd : (Lookup.ofGraph g).next? b = some d) :
    c.Follows g (seen.push b.id hseen) d := by
  obtain ⟨first, hfirst, bs, hwalk, hids, -⟩ := h
  refine ⟨first, hfirst, bs ++ [b], hwalk.snoc hd, ?_, fun hmax => ?_⟩
  · simp [Trail.push, hids]
  · have hlength : seen.length = bs.length := by simp [Trail.length, hids]
    rw [Options.chainIsFull_iff] at hfull
    rw [List.length_append, List.length_singleton]
    omega

theorem holds_of_mem_path (hb : b ∈ g.blocks) (h : LeadsTo g path b) (hid : b.id ∈ path) :
    (Diagnostic.cyclicStructure b.id).HoldsIn g c.registry c.options := by
  obtain ⟨a, ha, hid, hab⟩ := h b.id hid
  obtain rfl := BlockGraph.eq_of_id_eq ha hb hid
  exact ⟨a, ha, rfl, hab⟩

theorem holds_of_mem_seen (hb : b ∈ g.blocks) (h : c.Follows g seen b) (hid : b.id ∈ seen) :
    (Diagnostic.cyclicStructure b.id).HoldsIn g c.registry c.options := by
  obtain ⟨first, hfirst, bs, hwalk, hids, -⟩ := h
  obtain ⟨a, ha, hab⟩ : ∃ a ∈ bs, a.id = b.id := by
    have hmem : b.id ∈ (bs.map Block.id).reverse := hids ▸ hid
    simpa using hmem
  obtain rfl := BlockGraph.eq_of_id_eq (hwalk.mem_of_mem hfirst ha) hb hab
  exact ⟨a, hb, rfl, hwalk.linked ha⟩

theorem holds_of_full (h : c.Follows g seen b) (hfull : c.options.chainIsFull seen.length = true) :
    (Diagnostic.chainTooLong b.id c.options.maxChainLength).HoldsIn g c.registry c.options := by
  obtain ⟨first, hfirst, bs, hwalk, hids, hle⟩ := h
  obtain ⟨hmax, hge⟩ := Options.chainIsFull_iff.1 hfull
  have hlength : seen.length = bs.length := by simp [Trail.length, hids]
  have hnodup : (bs.map Block.id).Nodup := List.nodup_reverse.1 (hids ▸ seen.nodup)
  exact ⟨rfl, hmax, first, hfirst, bs, b, hwalk, rfl, Nat.le_antisymm (hle hmax) (hlength ▸ hge),
    hnodup⟩

section

variable (hg : c.lookup = .ofGraph g)

include hg

theorem truthful_child (hb : b ∈ g.blocks) (index : Nat) : c.Truthful g (c.child b index) := by
  intro x hx
  obtain ⟨target, ht, hvalid, rfl⟩ := mem_diagnostics_child.1 hx
  obtain ⟨s, hs, hblock⟩ := Option.bind_eq_some_iff.1 ht
  exact ⟨b, hb, rfl, .inl ⟨s, List.mem_of_getElem? hs, hblock⟩,
    Lookup.missing_of_isValid (hg ▸ hvalid)⟩

theorem truthful_successor (hb : b ∈ g.blocks) : c.Truthful g (c.successor b) := by
  intro x hx
  obtain ⟨target, ht, hvalid, rfl⟩ := mem_diagnostics_successor.1 hx
  exact ⟨b, hb, rfl, .inr (Option.filter_eq_some_iff.1 ht).1,
    Lookup.missing_of_isValid (hg ▸ hvalid)⟩

theorem truthful_compileSlot (hb : b ∈ g.blocks) {s : Slot}
    (hplace : ∀ d, (c.child b s.index).value = some d →
      c.Truthful g (c.compilePlace path (s.place d))) :
    c.Truthful g (c.compileSlot path b s) := by
  intro x hx
  rcases mem_diagnostics_compileSlot.1 hx with hx | ⟨d, hd, hx⟩
  · exact truthful_child hg hb s.index x hx
  · exact hplace d hd x hx

-- The path leads to every block that is compiled inside it, and each chain walks to its next block; so
-- both guards speak of blocks that come back to themselves.
theorem truthful_compile :
    (∀ path b, b ∈ g.blocks → LeadsTo g path b → c.Truthful g (c.compileBlock path b)) ∧
      ∀ path seen b, b ∈ g.blocks → LeadsTo g path b → c.Follows g seen b →
        c.Truthful g (c.compileChain path seen b) := by
  apply compile_induct c
  · intro path b ih hb hpath x hx
    by_cases h : b.id ∈ path
    · rw [compileBlock_of_mem h] at hx
      exact List.mem_singleton.1 hx ▸ holds_of_mem_path hb hpath h
    cases hr : c.registry.rule? b.genus with
    | none =>
      rw [compileBlock_of_noRule h hr] at hx
      exact List.mem_singleton.1 hx ▸ ⟨b, hb, rfl, rfl, hr⟩
    | some r =>
      rw [diagnostics_compileBlock_of_rule h hr] at hx
      obtain ⟨s, hs, hx⟩ := mem_diagnostics_applyRule.1 hx
      refine truthful_compileSlot hg hb (fun d hd x hx => ?_) x hx
      have hl : (Lookup.ofGraph g).Link b d := hg ▸ link_of_child hd
      have hmem := Lookup.mem_of_link hl
      have hleads := hpath.push hb h hl
      cases s with
      | value i =>
        rw [Slot.place, diagnostics_compilePlace_value] at hx
        exact (ih h).1 d (.value hr hs hd) hmem hleads x hx
      | body i =>
        rw [Slot.place, diagnostics_compilePlace_chain] at hx
        exact (ih h).2 d (.body hr hs hd) hmem hleads (follows_empty hmem) x hx
  · intro path seen b ihb ih hb hpath hseen x hx
    by_cases h : b.id ∈ seen
    · rw [compileChain_of_mem h] at hx
      exact List.mem_singleton.1 hx ▸ holds_of_mem_seen hb hseen h
    by_cases hfull : c.options.chainIsFull seen.length = true
    · rw [compileChain_of_full h hfull] at hx
      exact List.mem_singleton.1 hx ▸ holds_of_full hseen hfull
    rcases (mem_diagnostics_compileChain h hfull).1 hx with hx | hx | ⟨d, hd, hx⟩
    · exact ihb hb hpath x hx
    · exact truthful_successor hg hb x hx
    · have hl : (Lookup.ofGraph g).Link b d := hg ▸ link_of_successor hd
      have hnext : (Lookup.ofGraph g).next? b = some d := by
        rw [← hg, ← hd, successor_value, Lookup.next?]
      exact ih h d (.next hd) (Lookup.mem_of_link hl) (hpath.link hl) (hseen.push h hfull hnext) x hx

theorem truthful_compileBlock (hb : b ∈ g.blocks) : c.Truthful g (c.compileBlock .empty b) :=
  (truthful_compile hg).1 .empty b hb (leadsTo_empty g b)

theorem truthful_compileChain (hb : b ∈ g.blocks) : c.Truthful g (c.compileChain .empty .empty b) :=
  (truthful_compile hg).2 .empty .empty b hb (leadsTo_empty g b) (follows_empty hb)

theorem truthful_compileId (id : BlockId) : c.Truthful g (c.compileId id) := by
  unfold compileId
  cases hb : c.lookup.block? id with
  | none => exact truthful_pure ""
  | some b =>
    rw [hg, Lookup.block?_ofGraph] at hb
    exact truthful_compileBlock hg (BlockGraph.mem_of_get? hb)

theorem truthful_slot (hb : b ∈ g.blocks) (s : Slot) : c.Truthful g (c.compileSlot .empty b s) := by
  apply truthful_compileSlot hg hb
  intro d hd
  have hmem : d ∈ g.blocks := Lookup.mem_of_link (hg ▸ link_of_child hd)
  cases s with
  | value i => exact (truthful_compileBlock hg hmem).map _
  | body i => exact (truthful_compileChain hg hmem).map _

theorem truthful_applyRule (hb : b ∈ g.blocks) (r : Rule) :
    c.Truthful g (c.applyRule .empty r b) := by
  intro x hx
  obtain ⟨s, -, hx⟩ := mem_diagnostics_applyRule.1 hx
  exact truthful_slot hg hb s x hx

theorem truthful_compileSocket (hb : b ∈ g.blocks) (index : Nat) :
    c.Truthful g (c.compileSocket b index) := by
  apply (truthful_slot hg hb (.value index)).bind
  cases (c.compileSlot .empty b (.value index)).value <;> exact truthful_pure _

theorem truthful_compileBody (hb : b ∈ g.blocks) (index : Nat) (header : Option String)
    (indented : Bool) : c.Truthful g (c.compileBody b index header indented) := by
  apply (truthful_slot hg hb (.body index)).bind
  cases (c.compileSlot .empty b (.body index)).value <;> exact truthful_pure _

theorem truthful_operation (op : Operation g) : c.Truthful g (op.logged c) := by
  cases op with
  | id i => exact (truthful_compileId hg i).map _
  | block b => exact (truthful_compileBlock hg b.2).map _
  | child b i => exact (truthful_child hg b.2 i).map _
  | socket b i => exact (truthful_compileSocket hg b.2 i).map _
  | socketOr b i missing => exact ((truthful_compileSocket hg b.2 i).map _).map _
  | call b name missing slots => exact (truthful_applyRule hg b.2 _).map _
  | operator b token missing sockets => exact (truthful_applyRule hg b.2 _).map _
  | body b i header indented => exact (truthful_compileBody hg b.2 i header indented).map _
  | chain b => exact truthful_compileChain hg b.2

end

end Context

namespace Operation

theorem reported_true (g : BlockGraph) (r : Registry) (o : Options) (ops : List (Operation g)) :
    ∃ texts s, (ops.mapM (work ⟨.ofGraph g, r, o⟩ .full)).run Session.start = some (texts, s) ∧
      (∀ x ∈ s.diagnostics, x.HoldsIn g r o) ∧
      ((∀ b ∈ g.blocks, ¬TransGen (Lookup.ofGraph g).Link b b) →
        ∀ id, .cyclicStructure id ∉ s.diagnostics) := by
  let c : Context := ⟨.ofGraph g, r, o⟩
  have htruthful : c.Truthful g (Logged.traverse (logged c) ops) :=
    .traverse fun op _ => Context.truthful_operation rfl op
  refine ⟨_, _, session_run c ops, ?_, fun hacyclic id hid => ?_⟩
  · rw [Session.record_start]
    exact htruthful
  · rw [Session.record_start] at hid
    obtain ⟨b, hb, -, hcycle⟩ := htruthful _ hid
    exact hacyclic b hb hcycle

theorem reported_true_sharedOperand :
    ∃ (b : BlockGraph.sharedOperand.Member) (texts : List (List String)) (s : Session),
      ([child b 1, block b].mapM
        (work ⟨.ofGraph .sharedOperand, .standard, .standard⟩ .full)).run Session.start =
          some (texts, s) ∧
      .malformedReference (.ofNat 3) .null ∈ s.diagnostics ∧
      ∀ id, .cyclicStructure id ∉ s.diagnostics := by
  let c : Context := ⟨.ofGraph .sharedOperand, .standard, .standard⟩
  let b : BlockGraph.sharedOperand.Member := ⟨_, List.mem_cons_self⟩
  obtain ⟨texts, s, hrun, -, hacyclic⟩ :=
    reported_true .sharedOperand .standard .standard [child b 1, block b]
  refine ⟨b, texts, s, hrun, ?_, hacyclic BlockGraph.descending_sharedOperand.acyclic⟩
  have hs := Option.some.inj (hrun.symm.trans (session_run c [child b 1, block b]))
  rw [(Prod.mk.inj hs).2, Session.record_start]
  exact List.mem_append_left _ (by decide)

end Operation

end VisualProgram
