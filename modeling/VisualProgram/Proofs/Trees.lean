import VisualProgram.Proofs.Diagnosis
import VisualProgram.Proofs.Imports

/-!
Trees. Where no block is referred to twice, there is one way back from a block, so what one reference of
a block leads to is not found behind another one. A walk from a block to which nothing refers meets every
block once.
-/

namespace VisualProgram

open Relation

namespace Block

def references (b : Block) : List (Option BlockId) :=
  b.sockets.map Socket.block ++ [b.next]

theorem references_of_target? {b : Block} {i : Nat} {id : BlockId} (h : b.target? i = some id) :
    i < b.sockets.length ∧ b.references[i]? = some (some id) := by
  obtain ⟨s, hs, hid⟩ := Option.bind_eq_some_iff.1 h
  have hi : i < b.sockets.length := (List.getElem?_eq_some_iff.1 hs).1
  rw [socket?] at hs
  refine ⟨hi, ?_⟩
  rw [references, List.getElem?_append_left (by simpa using hi), List.getElem?_map, hs, Option.map_some,
    hid]

theorem references_of_successor? {b : Block} {id : BlockId} (h : b.successor? = some id) :
    b.references[b.sockets.length]? = some (some id) := by
  rw [references, List.getElem?_append_right (by simp), ← (Option.filter_eq_some_iff.1 h).1]
  simp

theorem some_mem_references_of_mem_links {b : Block} {id : BlockId} (h : id ∈ b.links) :
    some id ∈ b.references := by
  rcases List.mem_append.1 h with h | h
  · obtain ⟨s, hs, hid⟩ := List.mem_filterMap.1 h
    exact List.mem_append_left _ (hid ▸ List.mem_map_of_mem hs)
  · exact List.mem_of_getElem? (references_of_successor? (Option.mem_toList.1 h))

end Block

theorem eq_of_count_le_one {α : Type} [BEq α] [LawfulBEq α] {l : List α} {a : α}
    (h : l.count a ≤ 1) {i j : Nat} (hi : l[i]? = some a) (hj : l[j]? = some a) : i = j := by
  have hle {i j : Nat} (hi : l[i]? = some a) (hj : l[j]? = some a) : j ≤ i := by
    by_contra hlt
    have hbefore : a ∈ l.take j := by
      apply List.mem_of_getElem? (i := i)
      rw [List.getElem?_take_of_lt (Nat.lt_of_not_le hlt), hi]
    have hbehind : a ∈ l.drop j := by
      apply List.mem_of_getElem? (i := 0)
      rw [List.getElem?_drop, Nat.add_zero, hj]
    have hsum : (l.take j).count a + (l.drop j).count a = l.count a := by
      rw [← List.count_append, List.take_append_drop]
    have hpos := List.count_pos_iff.2 hbefore
    have hpos' := List.count_pos_iff.2 hbehind
    omega
  exact Nat.le_antisymm (hle hj hi) (hle hi hj)

theorem Lookup.mem_of_reaches {g : BlockGraph} {b d : Block} (hb : b ∈ g.blocks)
    (h : (ofGraph g).Reaches b d) : d ∈ g.blocks := by
  induction h with
  | refl => exact hb
  | tail _ hl _ => exact mem_of_link hl

namespace BlockGraph

def Unshared (g : BlockGraph) : Prop :=
  ∀ b ∈ g.blocks, (g.blocks.flatMap Block.references).count (some b.id) ≤ 1

instance (g : BlockGraph) : Decidable g.Unshared :=
  inferInstanceAs (Decidable (∀ b ∈ g.blocks, _ ≤ 1))

def Rooted (g : BlockGraph) (b : Block) : Prop :=
  ∃ r ∈ g.blocks, (∀ e ∈ g.blocks, ¬(Lookup.ofGraph g).Link e r) ∧ (Lookup.ofGraph g).Reaches r b

variable {g : BlockGraph} {b b' d d' x : Block}

theorem Rooted.mem (h : g.Rooted b) : b ∈ g.blocks := by
  obtain ⟨r, hr, -, hrb⟩ := h
  exact Lookup.mem_of_reaches hr hrb

theorem Rooted.link (h : g.Rooted b) (hl : (Lookup.ofGraph g).Link b d) : g.Rooted d := by
  obtain ⟨r, hr, hfree, hrb⟩ := h
  exact ⟨r, hr, hfree, hrb.tail hl⟩

namespace Unshared

variable (hg : g.Unshared)

include hg

theorem count_references (hb : b ∈ g.blocks) (hd : d ∈ g.blocks) :
    b.references.count (some d.id) ≤ 1 := by
  obtain ⟨before, after, hblocks⟩ := List.append_of_mem hb
  have hcount := hg d hd
  rw [hblocks, List.flatMap_append, List.flatMap_cons, List.count_append, List.count_append] at hcount
  omega

theorem link_unique (hb : b ∈ g.blocks) (hb' : b' ∈ g.blocks) (h : (Lookup.ofGraph g).Link b d)
    (h' : (Lookup.ofGraph g).Link b' d) : b = b' := by
  have hmem {e : Block} (he : (Lookup.ofGraph g).Link e d) : some d.id ∈ e.references := by
    obtain ⟨id, hid, hd⟩ := he
    rw [Lookup.block?_ofGraph] at hd
    rw [id_of_get? hd]
    exact Block.some_mem_references_of_mem_links hid
  by_contra hne
  obtain ⟨before, after, hblocks⟩ := List.append_of_mem hb
  have hother : b' ∈ before ++ after := by
    rw [hblocks, List.mem_append, List.mem_cons] at hb'
    rw [List.mem_append]
    tauto
  have hcount := hg d (Lookup.mem_of_link h)
  rw [hblocks, List.flatMap_append, List.flatMap_cons, List.count_append, List.count_append] at hcount
  have hfirst : 0 < b.references.count (some d.id) := List.count_pos_iff.2 (hmem h)
  have hsecond : 0 < ((before ++ after).flatMap Block.references).count (some d.id) :=
    List.count_pos_iff.2 (List.mem_flatMap.2 ⟨b', hother, hmem h'⟩)
  rw [List.flatMap_append, List.count_append] at hsecond
  omega

theorem reaches_total (hb : b ∈ g.blocks) (hb' : b' ∈ g.blocks) (h : (Lookup.ofGraph g).Reaches b x)
    (h' : (Lookup.ofGraph g).Reaches b' x) :
    (Lookup.ofGraph g).Reaches b b' ∨ (Lookup.ofGraph g).Reaches b' b := by
  induction h with
  | refl => exact .inr h'
  | @tail y x hby hyx ih =>
    rcases ReflTransGen.cases_tail h' with rfl | ⟨y', hby', hyx'⟩
    · exact .inl (hby.tail hyx)
    · obtain rfl := hg.link_unique (Lookup.mem_of_reaches hb hby) (Lookup.mem_of_reaches hb' hby')
        hyx hyx'
      exact ih hby'

-- On a cycle each block has its one predecessor on the cycle, so there is no way in.
theorem not_cyclic (h : g.Rooted b) : ¬TransGen (Lookup.ofGraph g).Link b b := by
  obtain ⟨r, hr, hfree, hrb⟩ := h
  induction hrb with
  | refl =>
    intro hcycle
    obtain ⟨e, hre, her⟩ := TransGen.tail'_iff.1 hcycle
    exact hfree e (Lookup.mem_of_reaches hr hre) her
  | @tail y x hry hyx ih =>
    intro hcycle
    obtain ⟨e, hxe, hex⟩ := TransGen.tail'_iff.1 hcycle
    have hx := Lookup.mem_of_link hyx
    obtain rfl := hg.link_unique (Lookup.mem_of_reaches hr hry) (Lookup.mem_of_reaches hx hxe) hyx hex
    exact ih (TransGen.head' hyx hxe)

theorem not_reaches_both (h : g.Rooted b) (hd : (Lookup.ofGraph g).Link b d)
    (hd' : (Lookup.ofGraph g).Link b d') (hne : d ≠ d') (hx : (Lookup.ofGraph g).Reaches d x) :
    ¬(Lookup.ofGraph g).Reaches d' x := by
  intro hx'
  have hback {e e' : Block} (he : (Lookup.ofGraph g).Link b e) (he' : (Lookup.ofGraph g).Link b e')
      (hne : e ≠ e') : ¬(Lookup.ofGraph g).Reaches e e' := by
    intro hreach
    obtain heq | ⟨y, hey, hye'⟩ := ReflTransGen.cases_tail hreach
    · exact hne heq.symm
    · have hy := Lookup.mem_of_reaches (Lookup.mem_of_link he) hey
      obtain rfl := hg.link_unique h.mem hy he' hye'
      exact hg.not_cyclic h (TransGen.head' he hey)
  rcases hg.reaches_total (Lookup.mem_of_link hd) (Lookup.mem_of_link hd') hx hx' with hreach | hreach
  · exact hback hd hd' hne hreach
  · exact hback hd' hd hne.symm hreach

end Unshared

end BlockGraph

def Rule.sockets : Rule → List Nat
  | constant _ _ | handler _ => []
  | call _ _ sockets _ => sockets
  | operator _ _ sockets => sockets

theorem Rule.nodup_slots {r : Rule} (h : r.sockets.Nodup) (b : Block) :
    ((r.slots b).map Slot.index).Nodup := by
  have hvalues (is : List Nat) : (is.map Slot.value).map Slot.index = is := by
    rw [List.map_map]
    exact List.map_id is
  cases r with
  | constant text module => exact List.nodup_nil
  | call name missing sockets module => rwa [slots, hvalues]
  | operator token missing sockets => rwa [slots, hvalues]
  | handler handler =>
    cases handler with
    | call | importedCall =>
      rw [slots, Handler.slots, hvalues]
      exact List.nodup_range
    | definition =>
      rw [slots, Handler.slots, List.map_append, hvalues, List.map_singleton, Slot.index,
        ← List.range_succ]
      exact List.nodup_range
    | inlineCode =>
      rw [slots, Handler.slots]
      split
      · rw [hvalues]
        exact List.nodup_range
      · exact List.nodup_nil
    | _ => simp [slots, Handler.slots, Slot.index]

def Registry.ReadsOnce (r : Registry) : Prop :=
  ∀ genus rule, r.rule? genus = some rule → rule.sockets.Nodup

theorem Registry.standard_readsOnce : standard.ReadsOnce := by
  have hrules : ∀ e ∈ standard.rules, e.2.sockets.Nodup := by decide +kernel
  exact fun genus rule h => hrules _ (mem_rules_of_rule? h)

namespace Context

variable {c : Context} {g : BlockGraph} {path seen : Trail} {b d d' x : Block}

def Contains (c : Context) (b x : Block) : Prop :=
  x = b ∨ ∃ i d, (c.child b i).value = some d ∧ c.lookup.Reaches d x

theorem Contains.reaches (h : c.Contains b x) : c.lookup.Reaches b x := by
  rcases h with rfl | ⟨i, d, hd, hx⟩
  · exact .refl
  · exact hx.head (link_of_child hd)

theorem ChainPart.reaches (h : c.ChainPart seen b d) : c.lookup.Reaches b d := by
  obtain ⟨bs, hwalk, -⟩ := h
  exact hwalk.reaches

theorem Applies.contains {a : Application c} (h : c.Applies path b a) : c.Contains b a.block := by
  induction h with
  | self => exact .inl rfl
  | value a _ hd _ ih => exact .inr ⟨_, _, hd, ih.reaches⟩
  | body a _ hd hpart _ ih => exact .inr ⟨_, _, hd, hpart.reaches.trans ih.reaches⟩

theorem contains_of_applied {id : BlockId} (h : id ∈ (c.compileBlock path b).log.applied) :
    ∃ x, c.Contains b x ∧ x.id = id := by
  obtain ⟨a, ha, hid⟩ := (((log_of_applies c).1 path b).mem_applied id).1 h
  exact ⟨a.block, ha.contains, hid⟩

theorem reaches_of_applied {id : BlockId} (h : id ∈ (c.compileChain path seen b).log.applied) :
    ∃ x, c.lookup.Reaches b x ∧ x.id = id := by
  obtain ⟨a, ⟨d, hd, ha⟩, hid⟩ := (((log_of_applies c).2 path seen b).mem_applied id).1 h
  exact ⟨a.block, hd.reaches.trans ha.contains.reaches, hid⟩

theorem applied_resolve (owner target : BlockId) : (c.resolve owner target).log.applied = [] := by
  unfold resolve
  split <;> rfl

theorem applied_child (b : Block) (index : Nat) : (c.child b index).log.applied = [] := by
  unfold child
  split
  · exact applied_resolve _ _
  · rfl

theorem applied_successor (b : Block) : (c.successor b).log.applied = [] := by
  unfold successor
  split
  · exact applied_resolve _ _
  · rfl

theorem applied_slot {s : Slot} {id : BlockId} (h : id ∈ (c.compileSlot path b s).log.applied) :
    ∃ d, (c.child b s.index).value = some d ∧ ∃ x, c.lookup.Reaches d x ∧ x.id = id := by
  cases hd : (c.child b s.index).value with
  | none =>
    rw [compileSlot_of_none hd, applied_child] at h
    cases h
  | some d =>
    refine ⟨d, rfl, ?_⟩
    rw [compileSlot_of_some hd] at h
    cases s with
    | value i =>
      rw [Slot.place, compilePlace, Logged.map_def] at h
      obtain ⟨x, hx, hid⟩ := contains_of_applied h
      exact ⟨x, hx.reaches, hid⟩
    | body i =>
      rw [Slot.place, compilePlace, Logged.map_def] at h
      exact reaches_of_applied h

section

variable (hu : g.Unshared) (hg : c.lookup = .ofGraph g)

include hg

theorem reference_of_child {i : Nat} (hd : (c.child b i).value = some d) :
    d ∈ g.blocks ∧ i < b.sockets.length ∧ b.references[i]? = some (some d.id) := by
  obtain ⟨id, hi, hid⟩ := child_eq_some_iff.1 hd
  rw [hg, Lookup.block?_ofGraph] at hid
  rw [← BlockGraph.id_of_get? hid] at hi
  exact ⟨BlockGraph.mem_of_get? hid, Block.references_of_target? hi⟩

theorem reference_of_successor (hd : (c.successor b).value = some d) :
    b.references[b.sockets.length]? = some (some d.id) := by
  obtain ⟨id, hi, hid⟩ := successor_eq_some_iff.1 hd
  rw [hg, Lookup.block?_ofGraph] at hid
  rw [← BlockGraph.id_of_get? hid] at hi
  exact Block.references_of_successor? hi

include hu

theorem children_ne (hb : b ∈ g.blocks) {i j : Nat} (hij : i ≠ j)
    (hd : (c.child b i).value = some d) (hd' : (c.child b j).value = some d') : d ≠ d' := by
  rintro rfl
  obtain ⟨hmem, -, hi⟩ := reference_of_child hg hd
  obtain ⟨-, -, hj⟩ := reference_of_child hg hd'
  exact hij (eq_of_count_le_one (hu.count_references hb hmem) hi hj)

theorem child_ne_successor (hb : b ∈ g.blocks) {i : Nat} (hd : (c.child b i).value = some d)
    (hd' : (c.successor b).value = some d') : d ≠ d' := by
  rintro rfl
  obtain ⟨hmem, hlt, hi⟩ := reference_of_child hg hd
  have hnext := reference_of_successor hg hd'
  exact Nat.ne_of_lt hlt (eq_of_count_le_one (hu.count_references hb hmem) hi hnext)

theorem disjoint_applied (hb : g.Rooted b) {s t : Slot} (hst : s.index ≠ t.index) :
    List.Disjoint (c.compileSlot path b s).log.applied (c.compileSlot path b t).log.applied := by
  intro id hs ht
  obtain ⟨d, hd, x, hx, rfl⟩ := applied_slot hs
  obtain ⟨d', hd', y, hy, hid⟩ := applied_slot ht
  have hl := link_of_child hd
  have hl' := link_of_child hd'
  rw [hg] at hl hl' hx hy
  have hmem := Lookup.mem_of_reaches (Lookup.mem_of_link hl) hx
  have hmem' := Lookup.mem_of_reaches (Lookup.mem_of_link hl') hy
  obtain rfl := BlockGraph.eq_of_id_eq hmem' hmem hid
  exact hu.not_reaches_both hb hl hl' (children_ne hu hg hb.mem hst hd hd') hx hy

theorem nodup_applied_block (a : Application c) (hb : g.Rooted a.block)
    (hreads : a.rule.sockets.Nodup)
    (h : ∀ s ∈ a.rule.slots a.block, (c.compileSlot a.inner a.block s).log.applied.Nodup) :
    (c.compileBlock a.path a.block).log.applied.Nodup := by
  have happlied : (c.compileBlock a.path a.block).log.applied =
      (a.rule.slots a.block).flatMap (fun s => (c.compileSlot a.inner a.block s).log.applied) ++
        [a.block.id] := by
    rw [a.compileBlock_log]
    simp [Log.append_def, Log.join, Log.require, Log.done, List.flatMap_map]
  have hdistinct : (a.rule.slots a.block).Pairwise fun s t => s.index ≠ t.index :=
    List.pairwise_map.1 (Rule.nodup_slots hreads a.block)
  rw [happlied, List.nodup_append, List.nodup_flatMap]
  refine ⟨⟨h, hdistinct.imp fun hst => disjoint_applied hu hg hb hst⟩, List.nodup_singleton _, ?_⟩
  rintro id hid _ hself rfl
  rw [List.mem_singleton.1 hself] at hid
  obtain ⟨s, -, hid⟩ := List.mem_flatMap.1 hid
  obtain ⟨d, hd, x, hx, hxb⟩ := applied_slot hid
  have hl := link_of_child hd
  rw [hg] at hl hx
  have hmem := Lookup.mem_of_reaches (Lookup.mem_of_link hl) hx
  obtain rfl := BlockGraph.eq_of_id_eq hmem hb.mem hxb
  exact hu.not_cyclic hb (TransGen.head' hl hx)

theorem disjoint_applied_successor (hb : g.Rooted b) (hd : (c.successor b).value = some d) :
    List.Disjoint (c.compileBlock path b).log.applied (c.compileChain path seen d).log.applied := by
  intro id hid hid'
  obtain ⟨x, hx, rfl⟩ := contains_of_applied hid
  obtain ⟨y, hy, hyx⟩ := reaches_of_applied hid'
  have hl := link_of_successor hd
  have hbx := hx.reaches
  rw [hg] at hl hbx hy
  have hmem := Lookup.mem_of_reaches (Lookup.mem_of_link hl) hy
  obtain rfl := BlockGraph.eq_of_id_eq hmem (Lookup.mem_of_reaches hb.mem hbx) hyx
  rcases hx with rfl | ⟨i, e, he, hx⟩
  · exact hu.not_cyclic hb (TransGen.head' hl hy)
  · have hle := link_of_child he
    rw [hg] at hle hx
    exact hu.not_reaches_both hb hle hl (child_ne_successor hu hg hb.mem he hd) hx hy

-- A rule reads each socket once, and what is behind different sockets, or behind a socket and behind the
-- `next` link, has nothing in common.
theorem nodup_applied (hreads : c.registry.ReadsOnce) :
    (∀ path b, g.Rooted b → (c.compileBlock path b).log.applied.Nodup) ∧
      ∀ path seen b, g.Rooted b → (c.compileChain path seen b).log.applied.Nodup := by
  apply compile_induct c
  · intro path b ih hb
    by_cases hmem : b.id ∈ path
    · rw [compileBlock_of_mem hmem]
      exact List.nodup_nil
    cases hr : c.registry.rule? b.genus with
    | none =>
      rw [compileBlock_of_noRule hmem hr]
      exact List.nodup_nil
    | some r =>
      let a : Application c := ⟨path, b, r, hmem, hr⟩
      refine nodup_applied_block hu hg a hb (hreads _ _ hr) fun s hs => ?_
      cases hd : (c.child b s.index).value with
      | none =>
        rw [compileSlot_of_none hd, applied_child]
        exact List.nodup_nil
      | some d =>
        have hrooted : g.Rooted d := hb.link (hg ▸ link_of_child hd)
        rw [compileSlot_of_some hd]
        cases s with
        | value i =>
          rw [Slot.place, compilePlace, Logged.map_def]
          exact (ih hmem).1 d (.value hr hs hd) hrooted
        | body i =>
          rw [Slot.place, compilePlace, Logged.map_def]
          exact (ih hmem).2 d (.body hr hs hd) hrooted
  · intro path seen b hvalue hrest hb
    by_cases h : b.id ∈ seen
    · rw [compileChain_of_mem h]
      exact List.nodup_nil
    by_cases hfull : c.options.chainIsFull seen.length = true
    · rw [compileChain_of_full h hfull]
      exact List.nodup_nil
    cases hnext : (c.successor b).value with
    | none =>
      rw [compileChain_of_none h hfull hnext, Log.append_def, applied_successor, List.append_nil]
      exact hvalue hb
    | some d =>
      have hrooted : g.Rooted d := hb.link (hg ▸ link_of_successor hnext)
      rw [compileChain_of_some h hfull hnext]
      simp only [Logged.bind_def, Logged.pure_def, Log.append_empty]
      exact (hvalue hb).append (hrest h d (.next hnext) hrooted)
        (disjoint_applied_successor hu hg hb hnext)

-- The guards report only what is on a cycle, and no block that is reached is on one.
theorem not_reported_cyclic (id : BlockId) :
    (∀ path b, g.Rooted b → LeadsTo g path b →
      .cyclicStructure id ∉ (c.compileBlock path b).log.diagnostics) ∧
    ∀ path seen b, g.Rooted b → LeadsTo g path b → c.Follows g seen b →
      .cyclicStructure id ∉ (c.compileChain path seen b).log.diagnostics := by
  have hcyclic {b : Block} (hb : g.Rooted b)
      (h : (Diagnostic.cyclicStructure b.id).HoldsIn g c.registry c.options) : False := by
    obtain ⟨x, hx, hid, hcycle⟩ := h
    obtain rfl := BlockGraph.eq_of_id_eq hx hb.mem hid
    exact hu.not_cyclic hb hcycle
  apply compile_induct c
  · intro path b ih hb hpath hid
    by_cases h : b.id ∈ path
    · exact hcyclic hb (holds_of_mem_path hb.mem hpath h)
    cases hr : c.registry.rule? b.genus with
    | none =>
      rw [compileBlock_of_noRule h hr] at hid
      cases List.mem_singleton.1 hid
    | some r =>
      rw [diagnostics_compileBlock_of_rule h hr] at hid
      obtain ⟨s, hs, hid⟩ := mem_diagnostics_applyRule.1 hid
      obtain hid | ⟨d, hd, hid⟩ := mem_diagnostics_compileSlot.1 hid
      · obtain ⟨_, _, _, heq⟩ := mem_diagnostics_child.1 hid
        cases heq
      have hl : (Lookup.ofGraph g).Link b d := hg ▸ link_of_child hd
      have hleads := hpath.push hb.mem h hl
      cases s with
      | value i =>
        rw [Slot.place, diagnostics_compilePlace_value] at hid
        exact (ih h).1 d (.value hr hs hd) (hb.link hl) hleads hid
      | body i =>
        rw [Slot.place, diagnostics_compilePlace_chain] at hid
        exact (ih h).2 d (.body hr hs hd) (hb.link hl) hleads (follows_empty (Lookup.mem_of_link hl))
          hid
  · intro path seen b hvalue ih hb hpath hseen hid
    by_cases h : b.id ∈ seen
    · exact hcyclic hb (holds_of_mem_seen hb.mem hseen h)
    by_cases hfull : c.options.chainIsFull seen.length = true
    · rw [compileChain_of_full h hfull] at hid
      cases List.mem_singleton.1 hid
    rcases (mem_diagnostics_compileChain h hfull).1 hid with hid | hid | ⟨d, hd, hid⟩
    · exact hvalue hb hpath hid
    · obtain ⟨_, _, _, heq⟩ := mem_diagnostics_successor.1 hid
      cases heq
    · have hl : (Lookup.ofGraph g).Link b d := hg ▸ link_of_successor hd
      have hnext : (Lookup.ofGraph g).next? b = some d := by
        rw [← hg, ← hd, successor_value, Lookup.next?]
      exact ih h d (.next hd) (hb.link hl) (hpath.link hl) (hseen.push h hfull hnext) hid

end

end Context

namespace Roots

variable {o : Options} {g : BlockGraph}

theorem perm_inOutputOrder (o : Options) (g : BlockGraph) :
    (select o g).inOutputOrder.Perm ((g.blocks.filter (isRoot o g)).map Block.id) := by
  rw [select, inOutputOrder, ← List.map_append]
  apply List.Perm.map
  apply List.perm_append_comm.trans
  exact List.filter_append_perm (fun b : Block => b.isSet o.topLevelProperty) _

theorem nodup_inOutputOrder (o : Options) (g : BlockGraph) : (select o g).inOutputOrder.Nodup := by
  rw [(perm_inOutputOrder o g).nodup_iff]
  exact g.distinct.sublist (List.filter_sublist.map Block.id)

theorem mem_inOutputOrder {id : BlockId} : id ∈ (select o g).inOutputOrder ↔
    ∃ b ∈ g.blocks, isRoot o g b = true ∧ b.id = id := by
  rw [(perm_inOutputOrder o g).mem_iff]
  simp [and_assoc]

def Unplugged (o : Options) (g : BlockGraph) : Prop :=
  ∀ id ∈ (select o g).inOutputOrder, ∀ b ∈ g.blocks, ∀ s ∈ b.sockets, s.block ≠ some id

instance (o : Options) (g : BlockGraph) : Decidable (Unplugged o g) :=
  inferInstanceAs (Decidable (∀ id ∈ (select o g).inOutputOrder, ∀ b ∈ g.blocks, ∀ s ∈ b.sockets, _))

theorem Unplugged.free (h : Unplugged o g) {r e : Block} (hr : r.id ∈ (select o g).inOutputOrder)
    (he : e ∈ g.blocks) : ¬(Lookup.ofGraph g).Link e r := by
  rintro ⟨id, hid, hfound⟩
  rw [Lookup.block?_ofGraph] at hfound
  obtain rfl := BlockGraph.id_of_get? hfound
  rcases List.mem_append.1 hid with hid | hid
  · obtain ⟨s, hs, hblock⟩ := List.mem_filterMap.1 hid
    exact h _ hr e he s hs hblock
  · obtain ⟨b, hb, hroot, hbr⟩ := mem_inOutputOrder.1 hr
    have hsuccessor : r.id ∈ g.successors :=
      BlockGraph.mem_successors.2 ⟨e, he, Option.mem_toList.1 hid⟩
    rw [isRoot, hbr] at hroot
    simp [hsuccessor] at hroot

end Roots

namespace Program

variable {o : Options} {g : BlockGraph}

theorem rooted_of_root (hr : Roots.Unplugged o g) {id : BlockId}
    (hid : id ∈ (Roots.select o g).inOutputOrder) :
    ∃ b, b.id = id ∧ g.Rooted b ∧ (∀ e ∈ g.blocks, ¬(Lookup.ofGraph g).Link e b) ∧
      Context.compileId ⟨.ofGraph g, .standard, o⟩ id =
        Context.compileBlock ⟨.ofGraph g, .standard, o⟩ .empty b := by
  obtain ⟨b, hb, -, rfl⟩ := Roots.mem_inOutputOrder.1 hid
  have hfree := fun e he => hr.free (e := e) hid he
  refine ⟨b, rfl, ⟨b, hb, hfree, .refl⟩, hfree, ?_⟩
  rw [Context.compileId, Lookup.block?_ofGraph, BlockGraph.get?_of_mem hb]

theorem reached_of_applied (hr : Roots.Unplugged o g) {id x : BlockId}
    (hid : id ∈ (Roots.select o g).inOutputOrder)
    (hx : x ∈ (Context.compileId ⟨.ofGraph g, .standard, o⟩ id).log.applied) :
    ∃ b d, b.id = id ∧ d.id = x ∧ g.Rooted b ∧ (∀ e ∈ g.blocks, ¬(Lookup.ofGraph g).Link e b) ∧
      (Lookup.ofGraph g).Reaches b d := by
  obtain ⟨b, hb, hrooted, hfree, hcompile⟩ := rooted_of_root hr hid
  rw [hcompile] at hx
  obtain ⟨d, hd, hdx⟩ := Context.contains_of_applied hx
  exact ⟨b, d, hb, hdx, hrooted, hfree, hd.reaches⟩

theorem disjoint_applied_roots (hu : g.Unshared) (hr : Roots.Unplugged o g) {r r' : BlockId}
    (hroot : r ∈ (Roots.select o g).inOutputOrder)
    (hroot' : r' ∈ (Roots.select o g).inOutputOrder) (hne : r ≠ r') :
    List.Disjoint (Context.compileId ⟨.ofGraph g, .standard, o⟩ r).log.applied
      (Context.compileId ⟨.ofGraph g, .standard, o⟩ r').log.applied := by
  have hapart {b b' : Block} (hb : b ∈ g.blocks) (hne : b.id ≠ b'.id)
      (hfree : ∀ e ∈ g.blocks, ¬(Lookup.ofGraph g).Link e b') :
      ¬(Lookup.ofGraph g).Reaches b b' := by
    intro hreach
    obtain heq | ⟨e, hbe, he⟩ := ReflTransGen.cases_tail hreach
    · exact hne (congrArg Block.id heq.symm)
    · exact hfree e (Lookup.mem_of_reaches hb hbe) he
  intro x hx hx'
  obtain ⟨b, d, rfl, rfl, hb, hfree, hbd⟩ := reached_of_applied hr hroot hx
  obtain ⟨b', d', rfl, hid, hb', hfree', hbd'⟩ := reached_of_applied hr hroot' hx'
  obtain rfl := BlockGraph.eq_of_id_eq (Lookup.mem_of_reaches hb'.mem hbd')
    (Lookup.mem_of_reaches hb.mem hbd) hid
  rcases hu.reaches_total hb.mem hb'.mem hbd hbd' with hreach | hreach
  · exact hapart hb.mem hne hfree' hreach
  · exact hapart hb'.mem hne.symm hfree hreach

theorem compile_once (hu : g.Unshared) (hr : Roots.Unplugged o g) :
    let p := compile .standard o g
    let log := (Logged.traverse (Context.compileId ⟨.ofGraph g, .standard, o⟩)
      (Roots.select o g).inOutputOrder).log
    log.applied.Nodup ∧ p.figures.blocksCompiled = log.applied.length ∧
      (∀ id, .cyclicStructure id ∉ p.diagnostics) ∧
      p.figures.blocksCompiled ≤ p.figures.inputBlocks := by
  intro p log
  let c : Context := ⟨.ofGraph g, .standard, o⟩
  have happlied : log.applied =
      (Roots.select o g).inOutputOrder.flatMap fun id => (c.compileId id).log.applied := by
    simp [log, c, Logged.traverse_eq, Log.join, List.flatMap_map]
  have hnodup : log.applied.Nodup := by
    rw [happlied, List.nodup_flatMap]
    refine ⟨fun id hid => ?_, ?_⟩
    · obtain ⟨b, -, hrooted, -, hcompile⟩ := rooted_of_root hr hid
      rw [hcompile]
      exact (Context.nodup_applied hu rfl Registry.standard_readsOnce).1 .empty b hrooted
    · exact (Roots.nodup_inOutputOrder o g).imp_of_mem fun hroot hroot' hne =>
        disjoint_applied_roots hu hr hroot hroot' hne
  have hsubset : log.applied ⊆ g.blocks.map Block.id := by
    intro x hx
    rw [happlied] at hx
    obtain ⟨id, hid, hx⟩ := List.mem_flatMap.1 hx
    obtain ⟨b, d, -, rfl, hb, -, hbd⟩ := reached_of_applied hr hid hx
    exact List.mem_map_of_mem (Lookup.mem_of_reaches hb.mem hbd)
  have hlength : log.applied.length ≤ g.size := by
    simpa [BlockGraph.size] using hnodup.length_le_of_subset hsubset
  refine ⟨hnodup, rfl, fun id hid => ?_, hlength⟩
  have hdiagnostics : p.diagnostics =
      (Roots.select o g).inOutputOrder.flatMap fun id => (c.compileId id).log.diagnostics := by
    simp [p, c, compile, ofRoots, Logged.traverse_eq, Log.join, List.flatMap_map]
  rw [hdiagnostics] at hid
  obtain ⟨root, hroot, hid⟩ := List.mem_flatMap.1 hid
  obtain ⟨b, -, hrooted, -, hcompile⟩ := rooted_of_root hr hroot
  rw [hcompile] at hid
  exact (Context.not_reported_cyclic hu rfl id).1 .empty b hrooted (Context.leadsTo_empty g b) hid

end Program

namespace Block

def treeRoot : Block :=
  { (ofGenus "runOnce").withProperty "is-root-block" "yes" with
    id := .ofNat 1
    sockets := [(Socket.any "do").connect (.ofNat 2)] }

def treePrint : Block :=
  { ofGenus "print" with
    id := .ofNat 2
    sockets := [(Socket.any "text").connect (.ofNat 3)]
    next := some (.ofNat 4) }

def treeText : Block :=
  { ofGenus "string" with id := .ofNat 3, label := some "done" }

def treeBreak : Block :=
  { ofGenus "break" with id := .ofNat 4 }

def strayCycle : Block :=
  { ofGenus "not" with
    id := .ofNat 5
    sockets := [(Socket.any "operand").connect (.ofNat 5)] }

end Block

def BlockGraph.treeAndCycle : BlockGraph where
  blocks := [.treeRoot, .treePrint, .treeText, .treeBreak, .strayCycle]
  named := by decide
  distinct := by decide

theorem Program.compile_once_treeAndCycle :
    let p := compile .standard .standard .treeAndCycle
    (Roots.select .standard .treeAndCycle).inOutputOrder = [.ofNat 1] ∧
      (Lookup.ofGraph .treeAndCycle).Link .strayCycle .strayCycle ∧
      (∀ id, .cyclicStructure id ∉ p.diagnostics) ∧ p.figures.blocksCompiled ≤ 5 := by
  have hlink : (Lookup.ofGraph .treeAndCycle).Link .strayCycle .strayCycle :=
    ⟨.ofNat 5, by decide, by decide +kernel⟩
  obtain ⟨-, -, hcyclic, hle⟩ :=
    compile_once (o := .standard) (g := .treeAndCycle) (by decide +kernel) (by decide +kernel)
  exact ⟨by decide +kernel, hlink, hcyclic, hle⟩

end VisualProgram
