import VisualProgram.Proofs.History

namespace VisualProgram

def Edit.targets : Edit → List BlockId
  | add _ => []
  | connect parent _ _ => [parent]
  | chain ids => ids.dropLast
  | setLabel id _ => [id]

structure Plugged (index : Nat) (child : BlockId) (p q : Block) : Prop where
  length : q.sockets.length = max p.sockets.length (index + 1)
  target : q.target? index = some child
  kept : ∀ i s, p.socket? i = some s →
    ∃ t, q.socket? i = some t ∧ t.name = s.name ∧ t.kind = s.kind ∧ (i ≠ index → t = s)
  added : ∀ i t, p.sockets.length ≤ i → q.socket? i = some t →
    t.name = "arg" ++ toString i ∧ t.kind = "any" ∧ (i ≠ index → t.block = none)
  others : q = { p with sockets := q.sockets }

/-- What the chain `ids` makes of the block `p`: the last place of its id counts at which another id
follows. -/
inductive Chained (ids : List BlockId) (p : Block) : Block → Prop where
  | linked (before after : List BlockId) (next : BlockId)
      (hids : ids = before ++ p.id :: next :: after) (hlast : p.id ∉ (next :: after).dropLast) :
      Chained ids p { p with next := some next }
  | kept (hfree : p.id ∉ ids.dropLast) : Chained ids p p

theorem Chained.cons {id next : BlockId} {ids : List BlockId} {p q : Block}
    (h : Chained (next :: ids) (if p.id = id then p.followedBy next else p) q) :
    Chained (id :: next :: ids) p q := by
  have hid : (if p.id = id then p.followedBy next else p).id = p.id := by
    split <;> rfl
  generalize hp : (if p.id = id then p.followedBy next else p) = p' at h hid
  cases h with
  | linked before after n hids hlast =>
    have hq : { p' with next := some n } = { p with next := some n } := by
      rw [← hp]
      split <;> rfl
    rw [hq]
    rw [hid] at hids hlast
    exact .linked (id :: before) after n (congrArg _ hids) hlast
  | kept hfree =>
    rw [hid] at hfree
    rw [← hp]
    by_cases heq : p.id = id
    · -- no later link overwrites this one
      rw [if_pos heq]
      exact .linked [] ids next (congrArg (· :: _) heq.symm) hfree
    · rw [if_neg heq]
      apply Chained.kept
      rw [List.dropLast_cons_cons, List.mem_cons, not_or]
      exact ⟨heq, hfree⟩

namespace Builder

variable {sockets : List Socket} {index i : Nat}

theorem length_growSockets :
    (growSockets sockets index).length = max sockets.length (index + 1) := by
  simp only [growSockets, List.length_append, List.length_map, List.length_range']
  omega

theorem getElem?_growSockets_of_lt (h : i < sockets.length) :
    (growSockets sockets index)[i]? = sockets[i]? :=
  List.getElem?_append_left h

theorem getElem?_growSockets_of_le (h : sockets.length ≤ i) (hi : i ≤ index) :
    (growSockets sockets index)[i]? = some (Socket.any (Socket.argName i)) := by
  have hrange : (List.range' sockets.length (index + 1 - sockets.length))[i - sockets.length]? =
      some i := by
    rw [List.getElem?_range' (by omega)]
    congr 1
    omega
  rw [growSockets, List.getElem?_append_right h, List.getElem?_map, hrange, Option.map_some]

end Builder

namespace Block

variable {p : Block} {index i : Nat} {child : BlockId}

theorem socket?_plugIn :
    (p.plugIn index child).socket? i = (Builder.growSockets p.sockets index)[i]?.map
      fun s => if index = i then s.connect child else s :=
  List.getElem?_modify ..

theorem plugged_plugIn (index : Nat) (child : BlockId) (p : Block) :
    Plugged index child p (p.plugIn index child) where
  length := (List.length_modify ..).trans Builder.length_growSockets
  target := by
    have hlt : index < (Builder.growSockets p.sockets index).length := by
      rw [Builder.length_growSockets]
      omega
    rw [target?, socket?_plugIn, List.getElem?_eq_getElem hlt, Option.map_some, if_pos rfl]
    rfl
  kept := by
    intro i s hs
    have hi : i < p.sockets.length := (List.getElem?_eq_some_iff.1 hs).1
    have hgrow : (Builder.growSockets p.sockets index)[i]? = some s :=
      (Builder.getElem?_growSockets_of_lt hi).trans hs
    refine ⟨_, by rw [socket?_plugIn, hgrow, Option.map_some], ?_, ?_, fun hne => ?_⟩
    · split <;> rfl
    · split <;> rfl
    · exact if_neg (Ne.symm hne)
  added := by
    intro i t hi ht
    have hlt : i < (p.plugIn index child).sockets.length := (List.getElem?_eq_some_iff.1 ht).1
    have hle : i ≤ index := by
      rw [plugIn, List.length_modify, Builder.length_growSockets] at hlt
      omega
    rw [socket?_plugIn, Builder.getElem?_growSockets_of_le hi hle, Option.map_some] at ht
    obtain rfl := Option.some.inj ht
    refine ⟨?_, ?_, fun hne => ?_⟩
    · split <;> rfl
    · split <;> rfl
    · rw [if_neg (Ne.symm hne)]
      rfl
  others := rfl

end Block

namespace BlockGraph

variable {g : BlockGraph} {p : Block} {id x : BlockId} {f : Block → Block}

def Replaced (g g' : BlockGraph) (p q : Block) : Prop :=
  ∃ before after, g.blocks = before ++ p :: after ∧ g'.blocks = before ++ q :: after

theorem replaced_modify (h : g.get? id = some p) (hf : ∀ b, (f b).id = b.id) :
    Replaced g (g.modify id f hf) p (f p) := by
  obtain ⟨before, after, hblocks⟩ := List.append_of_mem (mem_of_get? h)
  have hid : p.id = id := id_of_get? h
  have hdistinct := g.distinct
  rw [hblocks, List.map_append, List.map_cons, List.nodup_middle, List.nodup_cons, hid,
    ← List.map_append] at hdistinct
  have hne : ∀ b ∈ before ++ after, (if b.id = id then f b else b) = b := by
    intro b hb
    apply if_neg
    rintro rfl
    exact hdistinct.1 (List.mem_map_of_mem hb)
  have hbefore := List.map_congr_left fun b hb => hne b (List.mem_append_left _ hb)
  have hafter := List.map_congr_left fun b hb => hne b (List.mem_append_right _ hb)
  refine ⟨before, after, hblocks, ?_⟩
  change g.blocks.map (fun b => if b.id = id then f b else b) = _
  rw [hblocks, List.map_append, List.map_cons, hbefore, hafter, if_pos hid, List.map_id',
    List.map_id']

theorem modify_of_get?_none (h : g.get? id = none) (hf : ∀ b, (f b).id = b.id) :
    g.modify id f hf = g := by
  have hne : ∀ b ∈ g.blocks, b.id ≠ id := by simpa [get?] using h
  apply ext
  exact (List.map_congr_left fun b hb => if_neg (hne b hb)).trans (List.map_id' _)

theorem get?_modify (hf : ∀ b, (f b).id = b.id) :
    (g.modify id f hf).get? x = (g.get? x).map fun b => if b.id = id then f b else b := by
  have hids (b : Block) : (if b.id = id then f b else b).id = b.id := by
    split
    · exact hf b
    · rfl
  simp only [get?, modify, List.find?_map, Function.comp_def, hids]

theorem get?_modify_self (h : g.get? id = some p) (hf : ∀ b, (f b).id = b.id) :
    (g.modify id f hf).get? id = some (f p) := by
  rw [get?_modify, h, Option.map_some, if_pos (id_of_get? h)]

theorem get?_modify_of_ne (hne : x ≠ id) (f : Block → Block) (hf : ∀ b, (f b).id = b.id) :
    (g.modify id f hf).get? x = g.get? x := by
  rw [get?_modify]
  cases h : g.get? x with
  | none => rfl
  | some b =>
    have hb : b.id ≠ id := id_of_get? h ▸ hne
    rw [Option.map_some, if_neg hb]

end BlockGraph

namespace Builder

variable {w : Builder} {p : Block} {id : BlockId} {f : Block → Block} {ids : List BlockId}

theorem ext {v w : Builder} (h : v.graph = w.graph) : v = w := by
  cases v
  cases w
  cases h
  rfl

theorem modify_of_get?_none (h : w.graph.get? id = none) (hf : ∀ b, (f b).id = b.id) :
    w.modify id f hf = w :=
  ext (BlockGraph.modify_of_get?_none h hf)

theorem chained_chain (w : Builder) (ids : List BlockId) :
    List.Forall₂ (Chained ids) w.graph.blocks (w.chain ids).graph.blocks := by
  induction ids generalizing w with
  | nil => exact List.forall₂_same.2 fun b _ => .kept List.not_mem_nil
  | cons id ids ih =>
    cases ids with
    | nil => exact List.forall₂_same.2 fun b _ => .kept List.not_mem_nil
    | cons next ids =>
      have hrest := ih (w.link (id, next))
      exact (List.forall₂_map_left_iff.1 hrest).imp fun p q => Chained.cons

theorem chain_keeps {P : Builder → Prop} (hstart : P w)
    (hlink : ∀ v id next, id ∈ ids.dropLast → P v → P (link v (id, next))) : P (w.chain ids) := by
  induction ids generalizing w with
  | nil => exact hstart
  | cons id ids ih =>
    cases ids with
    | nil => exact hstart
    | cons next ids =>
      rw [List.dropLast_cons_cons] at hlink
      have hfirst : P (w.link (id, next)) := hlink w id next List.mem_cons_self hstart
      exact ih hfirst fun v x y hx => hlink v x y (List.mem_cons_of_mem _ hx)

theorem chain_of_get?_none (h : ∀ id ∈ ids.dropLast, w.graph.get? id = none) :
    w.chain ids = w := by
  apply chain_keeps (P := fun v => v = w) rfl
  rintro v id next hid rfl
  exact modify_of_get?_none (h id hid) _

theorem get?_chain (h : id ∉ ids.dropLast) : (w.chain ids).graph.get? id = w.graph.get? id := by
  apply chain_keeps (P := fun v => v.graph.get? id = w.graph.get? id) rfl
  intro v first next hfirst hv
  have hne : id ≠ first := fun heq => h (heq ▸ hfirst)
  exact (BlockGraph.get?_modify_of_ne hne (Block.followedBy next) fun _ => rfl).trans hv

theorem get?_add (b : Block) (h : w.graph.get? id = some p) :
    (w.add b).graph.get? id = some p := by
  unfold add
  split
  · have hfind := h
    rw [BlockGraph.get?] at hfind
    rw [BlockGraph.get?, List.find?_append, hfind, Option.some_or]
  · exact h

theorem get?_apply {e : Edit} (hid : id ∉ e.targets) (h : w.graph.get? id = some p) :
    (w.apply e).graph.get? id = some p := by
  cases e with
  | add b => exact get?_add b h
  | connect parent index child =>
    have hne : id ≠ parent := List.ne_of_not_mem_cons hid
    exact (BlockGraph.get?_modify_of_ne hne (Block.plugIn index child) fun _ => rfl).trans h
  | chain ids => exact (get?_chain hid).trans h
  | setLabel target label =>
    have hne : id ≠ target := List.ne_of_not_mem_cons hid
    exact (BlockGraph.get?_modify_of_ne hne (Block.labelled label) fun _ => rfl).trans h

theorem get?_edits {edits : List Edit} (hid : ∀ e ∈ edits, id ∉ e.targets)
    (h : w.graph.get? id = some p) : (edits.foldl apply w).graph.get? id = some p := by
  induction edits generalizing w with
  | nil => exact h
  | cons e edits ih =>
    rw [List.forall_mem_cons] at hid
    exact ih hid.2 (get?_apply hid.1 h)

end Builder

namespace Workbench

variable {w w' : Workbench} {built : Builder} {sockets : List Socket} {index : Nat}

def extend (index : Nat) (sockets : List Socket) : List Socket :=
  if sockets.length ≤ index then
    extend index (sockets ++ [Socket.any (Socket.argName sockets.length)])
  else sockets
termination_by index + 1 - sockets.length

def connect (w : Workbench) (parent : BlockId) (index : Nat) (child : BlockId) : Workbench :=
  w.modify parent fun p =>
    { p with sockets := (extend index p.sockets).modify index (·.connect child) }

theorem growSockets_append (h : sockets.length ≤ index) :
    Builder.growSockets (sockets ++ [Socket.any (Socket.argName sockets.length)]) index =
      Builder.growSockets sockets index := by
  have hcount : index + 1 - sockets.length = index - sockets.length + 1 := by omega
  have hrest : index + 1 - (sockets.length + 1) = index - sockets.length := by omega
  simp only [Builder.growSockets, List.length_append, List.length_singleton, hcount, hrest,
    List.range'_succ, List.map_cons, List.append_assoc, List.singleton_append]

theorem growSockets_of_lt (h : index < sockets.length) :
    Builder.growSockets sockets index = sockets := by
  have hcount : index + 1 - sockets.length = 0 := by omega
  rw [Builder.growSockets, hcount, List.range'_zero, List.map_nil, List.append_nil]

theorem extend_eq_growSockets : extend index sockets = Builder.growSockets sockets index := by
  fun_induction extend index sockets with
  | case1 sockets hle ih => exact ih.trans (growSockets_append hle)
  | case2 sockets hlt => exact (growSockets_of_lt (by omega)).symm

theorem connect_eq (w : Workbench) (parent : BlockId) (index : Nat) (child : BlockId) :
    w.connect parent index child = w.modify parent (Block.plugIn index child) := by
  simp only [connect, extend_eq_growSockets]
  rfl

theorem apply_connect (w : Workbench) (parent : BlockId) (index : Nat) (child : BlockId) :
    w.apply (.connect parent index child) = some (w.connect parent index child) :=
  congrArg some (connect_eq w parent index child).symm

theorem index_modify (w : Workbench) (id : BlockId) (f : Block → Block) :
    (w.modify id f).arena.index = w.arena.index := by
  unfold modify Arena.modify
  split <;> rfl

structure Follows (w w' : Workbench) (built : Builder) : Prop where
  arena : w'.arena = built.graph.arena
  index : w'.arena.index = w.arena.index
  last : w'.last = w.last

theorem Follows.modify (h : w.Follows w' built) (id : BlockId) (f : Block → Block)
    (hf : ∀ b, (f b).id = b.id) : w.Follows (w'.modify id f) (built.modify id f hf) where
  arena := by
    rw [Workbench.modify, h.arena]
    exact (BlockGraph.modify_arena built.graph id f hf).symm
  index := (index_modify w' id f).trans h.index
  last := h.last

theorem Follows.links (h : w.Follows w' built) (pairs : List (BlockId × BlockId)) :
    w.Follows (pairs.foldl link w') (pairs.foldl Builder.link built) := by
  induction pairs generalizing w' built with
  | nil => exact h
  | cons p pairs ih => exact ih (h.modify p.1 (Block.followedBy p.2) fun _ => rfl)

theorem follows_apply (h : w.arena = built.graph.arena) {e : Edit} (he : e.added? = none) :
    ∃ w', w.apply e = some w' ∧ w.Follows w' (built.apply e) := by
  have hstart : w.Follows w built := ⟨h, rfl, rfl⟩
  cases e with
  | add b => cases he
  | connect parent index child =>
    exact ⟨_, rfl, hstart.modify parent (Block.plugIn index child) fun _ => rfl⟩
  | chain ids =>
    refine ⟨_, rfl, ?_⟩
    rw [Builder.apply, Builder.chain_eq_foldl]
    exact hstart.links _
  | setLabel id label => exact ⟨_, rfl, hstart.modify id (Block.labelled label) fun _ => rfl⟩

end Workbench

namespace Builder

theorem edit_frame (w : Builder) :
    (∀ parent index child p, w.graph.get? parent = some p →
      ∃ q, (w.connect parent index child).graph.get? parent = some q ∧ Plugged index child p q ∧
        BlockGraph.Replaced w.graph (w.connect parent index child).graph p q) ∧
    (∀ ids, List.Forall₂ (Chained ids) w.graph.blocks (w.chain ids).graph.blocks) ∧
    (∀ id label p, w.graph.get? id = some p →
      BlockGraph.Replaced w.graph (w.setLabel id label).graph p { p with label := some label }) ∧
    (∀ id, w.graph.get? id = none →
      (∀ index child, w.connect id index child = w) ∧ ∀ label, w.setLabel id label = w) ∧
    (∀ ids, (∀ id ∈ ids.dropLast, w.graph.get? id = none) → w.chain ids = w) ∧
    (∀ (edits : List Edit) (id : BlockId) (p : Block), (∀ e ∈ edits, id ∉ e.targets) →
      w.graph.get? id = some p → (edits.foldl apply w).graph.get? id = some p) ∧
    ∀ bench : Workbench, bench.arena = w.graph.arena →
      (∀ parent index child, bench.apply (.connect parent index child) =
        some (bench.connect parent index child)) ∧
      ∀ e, e.added? = none →
        ∃ bench', bench.apply e = some bench' ∧ bench.Follows bench' (w.apply e) := by
  refine ⟨?_, chained_chain w, ?_, ?_, fun ids => chain_of_get?_none,
    fun edits id p => get?_edits, ?_⟩
  · intro parent index child p hp
    have hid (b : Block) : (b.plugIn index child).id = b.id := rfl
    exact ⟨p.plugIn index child, BlockGraph.get?_modify_self hp hid, p.plugged_plugIn index child,
      BlockGraph.replaced_modify hp hid⟩
  · intro id label p hp
    exact BlockGraph.replaced_modify hp (f := Block.labelled label) fun _ => rfl
  · intro id hnone
    exact ⟨fun _ _ => modify_of_get?_none hnone _, fun _ => modify_of_get?_none hnone _⟩
  · intro bench harena
    exact ⟨bench.apply_connect, fun e => Workbench.follows_apply harena⟩

def threeBlocks : Builder :=
  ((empty.add
    { Block.ofGenus "click" with
      sockets := [⟨"target", "screenshot", some (.ofNat 9)⟩], next := some (.ofNat 3) }).add
    (.ofGenus "wait")).add (.ofGenus "string")

def windingIds : List BlockId :=
  [.ofNat 1, .ofNat 2, .ofNat 9, .ofNat 1, .ofNat 1, .ofNat 3, .ofNat 1]

theorem edit_frame_threeBlocks :
    (∃ p q, threeBlocks.graph.get? (.ofNat 1) = some p ∧
      (threeBlocks.connect (.ofNat 1) 2 (.ofNat 3)).graph.get? (.ofNat 1) = some q ∧
      Plugged 2 (.ofNat 3) p q ∧
      q.sockets = [⟨"target", "screenshot", some (.ofNat 9)⟩, .any "arg1",
        ⟨"arg2", "any", some (.ofNat 3)⟩]) ∧
    List.Forall₂ (Chained windingIds) threeBlocks.graph.blocks
      (threeBlocks.chain windingIds).graph.blocks ∧
    (threeBlocks.chain windingIds).graph.blocks.map Block.next =
      [some (.ofNat 3), some (.ofNat 9), some (.ofNat 1)] ∧
    threeBlocks.connect (.ofNat 9) 0 (.ofNat 1) = threeBlocks ∧
    threeBlocks.chain [.ofNat 8, .ofNat 9, .ofNat 1] = threeBlocks ∧
    (∃ p, threeBlocks.graph.get? (.ofNat 2) = some p ∧
      BlockGraph.Replaced threeBlocks.graph (threeBlocks.setLabel (.ofNat 2) "pause").graph p
        { p with label := some "pause" } ∧
      ((threeBlocks.connect (.ofNat 1) 2 (.ofNat 3)).chain
        [.ofNat 1, .ofNat 3, .ofNat 2]).graph.get? (.ofNat 2) = some p) ∧
    ∃ bench, Workbench.apply ⟨threeBlocks.graph.arena, 3⟩ (.chain windingIds) = some bench ∧
      bench.arena = (threeBlocks.chain windingIds).graph.arena := by
  obtain ⟨hconnect, hchain, hlabel, hunknown, hunlinked, hrun, hbench⟩ := edit_frame threeBlocks
  have hfirst : threeBlocks.graph.get? (.ofNat 1) = some
      { Block.ofGenus "click" with
        id := .ofNat 1, sockets := [⟨"target", "screenshot", some (.ofNat 9)⟩]
        next := some (.ofNat 3) } := by decide
  have hsecond : threeBlocks.graph.get? (.ofNat 2) =
      some { Block.ofGenus "wait" with id := .ofNat 2 } := by decide
  obtain ⟨q, hq, hplugged, -⟩ := hconnect (.ofNat 1) 2 (.ofNat 3) _ hfirst
  have hrest := hrun [.connect (.ofNat 1) 2 (.ofNat 3), .chain [.ofNat 1, .ofNat 3, .ofNat 2]]
    (.ofNat 2) _ (by decide) hsecond
  obtain ⟨bench, happly, hfollows⟩ := (hbench ⟨_, 3⟩ rfl).2 (.chain windingIds) rfl
  refine ⟨⟨_, q, hfirst, hq, hplugged, ?_⟩, hchain windingIds, by decide,
    (hunknown (.ofNat 9) (by decide)).1 0 (.ofNat 1), hunlinked _ (by decide),
    ⟨_, hsecond, hlabel _ _ _ hsecond, hrest⟩, bench, happly, hfollows.arena⟩
  have hsockets : ((threeBlocks.connect (.ofNat 1) 2 (.ofNat 3)).graph.get? (.ofNat 1)).map
      Block.sockets = some [⟨"target", "screenshot", some (.ofNat 9)⟩, .any "arg1",
        ⟨"arg2", "any", some (.ofNat 3)⟩] := by decide
  rw [hq] at hsockets
  exact Option.some.inj hsockets

end Builder

end VisualProgram
