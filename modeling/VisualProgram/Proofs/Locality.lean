import VisualProgram.Proofs.Links

namespace VisualProgram.Context

variable {c c' : Context} {near : Block → Prop}

structure Agree (c c' : Context) (near : Block → Prop) : Prop where
  options : c.options = c'.options
  rule : ∀ b, near b → c.registry.rule? b.genus = c'.registry.rule? b.genus
  isValid : ∀ b, near b → ∀ id ∈ b.links, c.lookup.isValid id = c'.lookup.isValid id
  find : ∀ b, near b → ∀ id ∈ b.links, c.lookup.find id = c'.lookup.find id
  closed : ∀ b d, near b → c.lookup.Link b d → near d

theorem Agree.refl (c : Context) (b : Block) : Agree c c (c.lookup.Reaches b) where
  options := rfl
  rule _ _ := rfl
  isValid _ _ _ _ := rfl
  find _ _ _ _ := rfl
  closed _ _ h hl := h.tail hl

theorem Agree.resolve (h : Agree c c' near) {b : Block} (hb : near b) {id : BlockId}
    (hid : id ∈ b.links) (owner : BlockId) : c.resolve owner id = c'.resolve owner id := by
  unfold Context.resolve
  rw [h.isValid b hb id hid, h.find b hb id hid]

theorem Agree.child (h : Agree c c' near) {b : Block} (hb : near b) (index : Nat) :
    c.child b index = c'.child b index := by
  unfold Context.child
  cases ht : b.target? index with
  | none => rfl
  | some id => exact h.resolve hb (Block.mem_links_of_target? ht) b.id

theorem Agree.successor (h : Agree c c' near) {b : Block} (hb : near b) :
    c.successor b = c'.successor b := by
  unfold Context.successor
  cases ht : b.successor? with
  | none => rfl
  | some id => exact h.resolve hb (Block.mem_links_of_successor? ht) b.id

def SamePath (near : Block → Prop) (p p' : Trail) : Prop :=
  ∀ b, near b → (b.id ∈ p ↔ b.id ∈ p')

theorem SamePath.push {p p' : Trail} (hp : SamePath near p p') {id : BlockId} (h : id ∉ p)
    (h' : id ∉ p') : SamePath near (p.push id h) (p'.push id h') := by
  intro b hb
  rw [Trail.mem_push, Trail.mem_push, hp b hb]

mutual

theorem compileBlock_congr (h : Agree c c' near) {p p' : Trail} (hp : SamePath near p p')
    {b : Block} (hb : near b) : c.compileBlock p b = c'.compileBlock p' b := by
  rw [Context.compileBlock, Context.compileBlock]
  by_cases hm : b.id ∈ p
  · rw [dif_pos hm, dif_pos ((hp b hb).1 hm)]
  · have hm' := mt (hp b hb).2 hm
    rw [dif_neg hm, dif_neg hm', h.rule b hb]
    cases c'.registry.rule? b.genus with
    | none => rfl
    | some r =>
      dsimp only
      rw [applyRule_congr h (hp.push hm hm') r hb]
termination_by (p.room, 0, 0)
decreasing_by exact .left _ _ (Trail.room_push_lt hm)

theorem applyRule_congr (h : Agree c c' near) {p p' : Trail} (hp : SamePath near p p') (r : Rule)
    {b : Block} (hb : near b) : c.applyRule p r b = c'.applyRule p' r b := by
  rw [Context.applyRule, Context.applyRule, h.options]
  have hslots := Logged.traverse_congr fun s (_ : s ∈ r.slots b) => compileSlot_congr h hp hb s
  rw [hslots]
termination_by (p.room, 3, 0)
decreasing_by exact .right _ (.left _ _ (by decide))

theorem compileSlot_congr (h : Agree c c' near) {p p' : Trail} (hp : SamePath near p p')
    {b : Block} (hb : near b) (s : Slot) : c.compileSlot p b s = c'.compileSlot p' b s := by
  rw [Context.compileSlot, Context.compileSlot, h.child hb]
  apply Logged.bind_congr
  cases hd : (c'.child b s.index).value with
  | none => cases s <;> rfl
  | some d =>
    have hnear : near d := by
      apply h.closed b d hb
      apply link_of_child
      rw [h.child hb, hd]
    cases s with
    | value i =>
      dsimp only
      rw [compileBlock_congr h hp hnear]
    | body i =>
      dsimp only
      rw [compileChain_congr h hp .empty hnear]
termination_by (p.room, 2, 0)
decreasing_by all_goals exact .right _ (.left _ _ (by decide))

theorem compileChain_congr (h : Agree c c' near) {p p' : Trail} (hp : SamePath near p p')
    (seen : Trail) {b : Block} (hb : near b) :
    c.compileChain p seen b = c'.compileChain p' seen b := by
  rw [Context.compileChain, Context.compileChain, h.options]
  by_cases hs : b.id ∈ seen
  · rw [dif_pos hs, dif_pos hs]
  · rw [dif_neg hs, dif_neg hs, compileBlock_congr h hp hb, h.successor hb]
    split
    · rfl
    · apply Logged.bind_congr
      apply Logged.bind_congr
      cases hd : (c'.successor b).value with
      | none => rfl
      | some d =>
        have hnear : near d := by
          apply h.closed b d hb
          apply link_of_successor
          rw [h.successor hb, hd]
        dsimp only
        rw [compileChain_congr h hp (seen.push b.id hs) hnear]
termination_by (p.room, 1, seen.room)
decreasing_by
  · exact .right _ (.left _ _ (by decide))
  · exact .right _ (.right _ (Trail.room_push_lt hs))

end

end VisualProgram.Context
