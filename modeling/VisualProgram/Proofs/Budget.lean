import VisualProgram.Proofs.Links
import VisualProgram.Proofs.Session

namespace VisualProgram

def Budget.full : Budget :=
  ⟨UInt64.size, UInt64.size⟩

namespace Trail

def toFinset (t : Trail) : Finset BlockId :=
  ⟨t.ids, t.nodup⟩

theorem mem_toFinset {t : Trail} {id : BlockId} : id ∈ t.toFinset ↔ id ∈ t :=
  Iff.rfl

theorem card_toFinset (t : Trail) : t.toFinset.card = t.length :=
  rfl

theorem toFinset_push {t : Trail} {id : BlockId} (h : id ∉ t) :
    (t.push id h).toFinset = insert id t.toFinset := by
  ext x
  rw [Finset.mem_insert, mem_toFinset, mem_toFinset, mem_push]

theorem card_sdiff_push {ids : Finset BlockId} {t : Trail} {id : BlockId} (h : id ∉ t)
    (hid : id ∈ ids) : (ids \ (t.push id h).toFinset).card + 1 = (ids \ t.toFinset).card := by
  rw [toFinset_push, Finset.sdiff_insert]
  exact Finset.card_erase_add_one (Finset.mem_sdiff.2 ⟨hid, mt mem_toFinset.1 h⟩)

end Trail

namespace Session

noncomputable def path (s : Session) : Trail :=
  ⟨s.active.toList, s.active.nodup_toList⟩

theorem toFinset_path (s : Session) : s.path.toFinset = s.active := by
  ext x
  exact Finset.mem_toList

theorem path_of_active_empty {s : Session} (h : s.active = ∅) : s.path = .empty := by
  simp [path, Trail.empty, h]

section

variable {c : Context} {active : Finset BlockId} {path : Trail} {b : Block}
  {call : Block → Work String} {walk : Block → Work (List String)}

theorem slot_does {x : Slot}
    (hcall : ∀ i d, x = .value i → (c.child b i).value = some d →
      Does active (call d) (c.compileBlock path d))
    (hwalk : ∀ i d, x = .body i → (c.child b i).value = some d →
      Does active (walk d) (c.compileChain path .empty d)) :
    Does active (slot c call walk b x) (c.compileSlot path b x) := by
  unfold slot
  rw [Context.compileSlot]
  apply (Does.perform _).bind
  cases h : (c.child b x.index).value with
  | none => cases x <;> exact Does.pure _
  | some d =>
    cases x with
    | value i => exact (hcall i d rfl h).bind (Does.pure _)
    | body i => exact (hwalk i d rfl h).bind (Does.pure _)

theorem rule_does {r : Rule}
    (h : ∀ x ∈ r.slots b, Does active (slot c call walk b x) (c.compileSlot path b x)) :
    Does active (rule c call walk r b) (c.applyRule path r b) := by
  unfold rule
  rw [Context.applyRule]
  apply (Does.mapM h).bind
  exact (Does.perform _).bind (Does.pure _)

end

variable {c : Context} {ids : Finset BlockId} {path seen : Trail} {b : Block}

theorem mem_of_link {d : Block} (hids : ∀ id d, c.lookup.block? id = some d → d.id ∈ ids)
    (h : c.lookup.Link b d) : d.id ∈ ids := by
  obtain ⟨id, _, hd⟩ := h
  exact hids id d hd

theorem chain_does {call : Block → Work String} {active : Finset BlockId}
    (hids : ∀ id d, c.lookup.block? id = some d → d.id ∈ ids)
    (hcall : ∀ d, d.id ∈ ids → Does active (call d) (c.compileBlock path d)) {chained : Nat}
    (hroom : (ids \ seen.toFinset).card ≤ chained) (hb : b.id ∈ ids) :
    Does active (chain c call chained seen.toFinset b) (c.compileChain path seen b) := by
  -- Each block of the chain takes an id out of those that the chain has not yet seen.
  induction chained generalizing seen b with
  | zero =>
    have hs : b.id ∈ seen := by
      have hempty := Finset.card_eq_zero.1 (Nat.le_zero.1 hroom)
      exact Finset.sdiff_eq_empty_iff_subset.1 hempty hb
    unfold chain
    rw [Context.compileChain, dif_pos hs, if_pos (Trail.mem_toFinset.2 hs)]
    exact Does.perform _
  | succ n ih =>
    unfold chain
    rw [Context.compileChain]
    by_cases hs : b.id ∈ seen
    · rw [dif_pos hs, if_pos (Trail.mem_toFinset.2 hs)]
      exact Does.perform _
    · rw [dif_neg hs, if_neg (mt Trail.mem_toFinset.1 hs), Trail.card_toFinset]
      dsimp only
      by_cases hfull : c.options.chainIsFull seen.length
      · rw [if_pos hfull, if_pos hfull]
        exact Does.perform _
      · rw [if_neg hfull, if_neg hfull]
        apply (hcall b hb).bind
        apply (Does.perform _).bind
        cases h : (c.successor b).value with
        | none => exact Does.pure _
        | some d =>
          have hroom' : (ids \ (seen.push b.id hs).toFinset).card ≤ n := by
            have hcard := Trail.card_sdiff_push hs hb
            omega
          have := ih hroom' (mem_of_link hids (Context.link_of_successor h))
          rw [Trail.toFinset_push] at this
          exact this.bind (Does.pure _)

theorem block_does_of_mem {chained nested : Nat} (h : b.id ∈ path) :
    Does path.toFinset (block c chained nested b) (c.compileBlock path b) := by
  unfold block
  rw [Context.compileBlock, dif_pos h]
  apply Does.get
  intro s hs
  rw [if_pos (hs ▸ Trail.mem_toFinset.2 h)]
  exact Does.perform _

theorem block_does_of_notMem {chained nested : Nat} (h : b.id ∉ path)
    (hnested : ∃ n, nested = n + 1 ∧ ∀ r, Does (path.push b.id h).toFinset
      (rule c (block c chained n) (chain c (block c chained n) chained ∅) r b)
      (c.applyRule (path.push b.id h) r b)) :
    Does path.toFinset (block c chained nested b) (c.compileBlock path b) := by
  obtain ⟨n, rfl, hrule⟩ := hnested
  unfold block
  rw [Context.compileBlock, dif_neg h]
  apply Does.get
  intro s hs
  rw [if_neg (hs ▸ mt Trail.mem_toFinset.1 h)]
  cases c.registry.rule? b.genus with
  | none => exact Does.perform _
  | some r =>
    have := hrule r
    rw [Trail.toFinset_push] at this
    apply (this.inside (mt Trail.mem_toFinset.1 h)).bind
    exact (Does.perform _).bind (Does.pure _)

theorem block_does {chained : Nat}
    (hids : ∀ id d, c.lookup.block? id = some d → d.id ∈ ids) (hchained : ids.card ≤ chained)
    {nested : Nat} (hnested : (insert b.id ids \ path.toFinset).card ≤ nested) :
    Does path.toFinset (block c chained nested b) (c.compileBlock path b) := by
  -- Each rule takes an id out of those that are not active, or it is the rule of the first block.
  induction nested generalizing path b with
  | zero =>
    apply block_does_of_mem
    have hempty := Finset.card_eq_zero.1 (Nat.le_zero.1 hnested)
    exact Finset.sdiff_eq_empty_iff_subset.1 hempty (Finset.mem_insert_self ..)
  | succ n ih =>
    by_cases h : b.id ∈ path
    · exact block_does_of_mem h
    · apply block_does_of_notMem h
      refine ⟨n, rfl, fun r => ?_⟩
      have hroom : (ids \ (path.push b.id h).toFinset).card ≤ n := by
        have hcard := Trail.card_sdiff_push h (Finset.mem_insert_self b.id ids)
        have hle : (ids \ (path.push b.id h).toFinset).card ≤
            (insert b.id ids \ (path.push b.id h).toFinset).card :=
          Finset.card_le_card (Finset.sdiff_subset_sdiff (Finset.subset_insert ..) subset_rfl)
        omega
      have hcall : ∀ d, d.id ∈ ids → Does (path.push b.id h).toFinset (block c chained n d)
          (c.compileBlock (path.push b.id h) d) := by
        intro d hd
        apply ih
        rwa [Finset.insert_eq_of_mem hd]
      apply rule_does
      intro x _
      apply slot_does
      · intro i d _ hd
        exact hcall d (mem_of_link hids (Context.link_of_child hd))
      · intro i d _ hd
        have hempty : Trail.empty.toFinset = ∅ := rfl
        rw [← hempty]
        apply chain_does hids hcall _ (mem_of_link hids (Context.link_of_child hd))
        exact (Finset.card_le_card Finset.sdiff_subset).trans hchained

theorem compileBlock_run {k : Budget} (ids : Finset BlockId)
    (hids : ∀ id d, c.lookup.block? id = some d → d.id ∈ ids) (hchained : ids.card ≤ k.chained)
    (s : Session) (hnested : (insert b.id ids \ s.active).card ≤ k.nested) :
    (compileBlock c k b).run s =
      some ((c.compileBlock s.path b).value, s.record (c.compileBlock s.path b).log) := by
  have hpath := s.toFinset_path
  exact block_does hids hchained (by rwa [hpath]) s hpath.symm

def allIds : Finset BlockId :=
  (Finset.range UInt64.size).image BlockId.ofNat

theorem mem_allIds (id : BlockId) : id ∈ allIds := by
  apply Finset.mem_image.2
  refine ⟨id.toNat, Finset.mem_range.2 id.toNat_lt, ?_⟩
  exact BlockId.toNat_inj.1 (BlockId.toNat_ofNat id.toNat_lt)

theorem card_allIds_le : allIds.card ≤ UInt64.size := by
  calc allIds.card ≤ (Finset.range UInt64.size).card := Finset.card_image_le
    _ = UInt64.size := Finset.card_range _

theorem compileBlock_run_full {s : Session} (b : Block) :
    (compileBlock c .full b).run s =
      some ((c.compileBlock s.path b).value, s.record (c.compileBlock s.path b).log) := by
  apply compileBlock_run allIds
  · exact fun _ d _ => mem_allIds d.id
  · exact card_allIds_le
  · rw [Finset.insert_eq_of_mem (mem_allIds b.id)]
    exact (Finset.card_le_card Finset.sdiff_subset).trans card_allIds_le

def graphIds (g : BlockGraph) : Finset BlockId :=
  ⟨g.blocks.map Block.id, g.distinct⟩

theorem id_mem_graphIds {g : BlockGraph} {b : Block} (h : b ∈ g.blocks) : b.id ∈ graphIds g :=
  List.mem_map_of_mem h

theorem card_graphIds (g : BlockGraph) : (graphIds g).card = g.size :=
  List.length_map _

theorem compileBlock_run_ofGraph {g : BlockGraph} {r : Registry} {o : Options} {k : Budget}
    (hnested : g.size < k.nested) (hchained : g.size ≤ k.chained) (s : Session) (b : Block) :
    (compileBlock ⟨.ofGraph g, r, o⟩ k b).run s =
      some ((Context.compileBlock ⟨.ofGraph g, r, o⟩ s.path b).value,
        s.record (Context.compileBlock ⟨.ofGraph g, r, o⟩ s.path b).log) := by
  rw [← card_graphIds g] at hnested hchained
  apply compileBlock_run (graphIds g) _ hchained
  · calc (insert b.id (graphIds g) \ s.active).card
        ≤ (insert b.id (graphIds g)).card := Finset.card_le_card Finset.sdiff_subset
      _ ≤ (graphIds g).card + 1 := Finset.card_insert_le ..
      _ ≤ k.nested := hnested
  · intro id d hd
    rw [Lookup.block?_ofGraph] at hd
    exact id_mem_graphIds (BlockGraph.mem_of_get? hd)

/-- Rules nest no deeper than the graph has blocks, and once more for a first block that is not in
the graph; no chain takes up more blocks than the graph has. -/
theorem compileBlock_ends (g : BlockGraph) (r : Registry) (o : Options) (s : Session) (b : Block) :
    let c : Context := ⟨.ofGraph g, r, o⟩
    (compileBlock c ⟨g.size + 1, g.size⟩ b).run s =
      some ((c.compileBlock s.path b).value, s.record (c.compileBlock s.path b).log) := by
  intro c
  apply compileBlock_run_ofGraph
  · exact Nat.lt_succ_self g.size
  · exact Nat.le_refl g.size

end Session

end VisualProgram
