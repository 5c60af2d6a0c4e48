import VisualProgram.Proofs.Unguarded

namespace VisualProgram

namespace Slot

def place : Slot → Block → Place
  | value _, b => .value b
  | body _, b => .chain b

end Slot

namespace Options

theorem chainIsFull_iff {o : Options} {length : Nat} :
    o.chainIsFull length = true ↔ 0 < o.maxChainLength ∧ o.maxChainLength ≤ length := by
  simp [chainIsFull]

end Options

namespace Context

variable {c : Context} {path seen : Trail} {b d : Block} {r : Rule} {s : Slot}

theorem resolve_of_block? {owner target : BlockId} (h : c.lookup.block? target = some d) :
    c.resolve owner target = pure (some d) := by
  unfold resolve
  unfold Lookup.block? at h
  split at h
  · next hvalid => rw [if_pos hvalid, h]
  · cases h

theorem child_of_value {index : Nat} (h : (c.child b index).value = some d) :
    c.child b index = pure (some d) := by
  obtain ⟨target, ht, hd⟩ := child_eq_some_iff.1 h
  unfold child
  rw [ht]
  exact resolve_of_block? hd

theorem successor_of_value (h : (c.successor b).value = some d) :
    c.successor b = pure (some d) := by
  obtain ⟨target, ht, hd⟩ := successor_eq_some_iff.1 h
  unfold successor
  rw [ht]
  exact resolve_of_block? hd

theorem Expands.slot (hr : c.registry.rule? b.genus = some r) (hs : s ∈ r.slots b)
    (hd : (c.child b s.index).value = some d) : c.Expands (.value b) (s.place d) := by
  cases s with
  | value i => exact .value hr hs hd
  | body i => exact .body hr hs hd

def compilePlace (c : Context) (path : Trail) : Place → Logged Filling
  | .value b => (fun text => .value (some text)) <$> c.compileBlock path b
  | .chain b => Filling.body <$> c.compileChain path .empty b

theorem compileBlock_of_mem (h : b.id ∈ path) :
    c.compileBlock path b = ⟨"", .report (.cyclicStructure b.id)⟩ := by
  rw [compileBlock, dif_pos h]

theorem compileBlock_of_noRule (h : b.id ∉ path) (hr : c.registry.rule? b.genus = none) :
    c.compileBlock path b = ⟨"", .report (.unsupportedGenus b.id b.genus)⟩ := by
  rw [compileBlock, dif_neg h, hr]

theorem compileBlock_of_rule (h : b.id ∉ path) (hr : c.registry.rule? b.genus = some r) :
    c.compileBlock path b = ⟨(c.applyRule (path.push b.id h) r b).value,
      (c.applyRule (path.push b.id h) r b).log ++ .done b.id⟩ := by
  rw [compileBlock, dif_neg h, hr]
  simp only [Logged.bind_def, Logged.pure_def, Logged.tell, Log.append_empty]

theorem applyRule_eq : c.applyRule path r b =
    let fillings := (r.slots b).map fun s => (c.compileSlot path b s).value
    let rendered := r.render c.options b ((r.slots b).zip fillings)
    ⟨rendered.text, .join ((r.slots b).map fun s => (c.compileSlot path b s).log) ++
      .require rendered.modules⟩ := by
  rw [applyRule, Logged.traverse_eq]
  simp only [Logged.bind_def, Logged.pure_def, Logged.tell, Log.append_empty]

theorem compileSlot_of_none (h : (c.child b s.index).value = none) :
    c.compileSlot path b s =
      ⟨match s with
        | .value _ => .value none
        | .body _ => .body [], (c.child b s.index).log⟩ := by
  rw [compileSlot, Logged.bind_def, h]
  cases s <;> simp only [Logged.pure_def, Log.append_empty]

theorem compileSlot_of_some (h : (c.child b s.index).value = some d) :
    c.compileSlot path b s = c.compilePlace path (s.place d) := by
  rw [compileSlot, child_of_value h, pure_bind]
  cases s with
  | value i => rw [Slot.place, compilePlace, map_eq_pure_bind]
  | body i => rw [Slot.place, compilePlace, map_eq_pure_bind]

theorem compileChain_of_mem (h : b.id ∈ seen) :
    c.compileChain path seen b = ⟨[], .report (.cyclicStructure b.id)⟩ := by
  rw [compileChain, dif_pos h]

theorem compileChain_of_full (h : b.id ∉ seen) (hfull : c.options.chainIsFull seen.length = true) :
    c.compileChain path seen b =
      ⟨[], .report (.chainTooLong b.id c.options.maxChainLength)⟩ := by
  rw [compileChain, dif_neg h, if_pos hfull]

theorem compileChain_of_none (h : b.id ∉ seen) (hfull : ¬c.options.chainIsFull seen.length = true)
    (hnext : (c.successor b).value = none) :
    c.compileChain path seen b = ⟨[(c.compileBlock path b).value],
      (c.compileBlock path b).log ++ (c.successor b).log⟩ := by
  rw [compileChain, dif_neg h, if_neg hfull]
  simp only [Logged.bind_def, Logged.pure_def, hnext, Log.append_empty]

theorem compileChain_of_some (h : b.id ∉ seen) (hfull : ¬c.options.chainIsFull seen.length = true)
    (hnext : (c.successor b).value = some d) :
    c.compileChain path seen b = (do
      let text ← c.compileBlock path b
      return text :: (← c.compileChain path (seen.push b.id h) d)) := by
  rw [compileChain, dif_neg h, if_neg hfull, successor_of_value hnext]
  simp only [pure_bind]

section

variable {x : Diagnostic}

theorem mem_diagnostics_resolve {owner target : BlockId} :
    x ∈ (c.resolve owner target).log.diagnostics ↔
      c.lookup.isValid target = false ∧ x = .malformedReference owner target := by
  unfold resolve
  cases c.lookup.isValid target <;> simp [Logged.pure_def, Log.empty, Log.report]

theorem mem_diagnostics_child {index : Nat} :
    x ∈ (c.child b index).log.diagnostics ↔ ∃ target, b.target? index = some target ∧
      c.lookup.isValid target = false ∧ x = .malformedReference b.id target := by
  unfold child
  cases b.target? index with
  | none => simp [Logged.pure_def, Log.empty]
  | some target => simp [mem_diagnostics_resolve]

theorem mem_diagnostics_successor :
    x ∈ (c.successor b).log.diagnostics ↔ ∃ target, b.successor? = some target ∧
      c.lookup.isValid target = false ∧ x = .malformedReference b.id target := by
  unfold successor
  cases b.successor? with
  | none => simp [Logged.pure_def, Log.empty]
  | some target => simp [mem_diagnostics_resolve]

theorem diagnostics_compilePlace_value :
    (c.compilePlace path (.value b)).log.diagnostics = (c.compileBlock path b).log.diagnostics := by
  rw [compilePlace, Logged.map_def]

theorem diagnostics_compilePlace_chain :
    (c.compilePlace path (.chain b)).log.diagnostics =
      (c.compileChain path .empty b).log.diagnostics := by
  rw [compilePlace, Logged.map_def]

theorem diagnostics_compileBlock_of_rule (h : b.id ∉ path)
    (hr : c.registry.rule? b.genus = some r) : (c.compileBlock path b).log.diagnostics =
      (c.applyRule (path.push b.id h) r b).log.diagnostics := by
  rw [compileBlock_of_rule h hr]
  simp [Log.append_def, Log.done]

theorem mem_diagnostics_compileSlot :
    x ∈ (c.compileSlot path b s).log.diagnostics ↔ x ∈ (c.child b s.index).log.diagnostics ∨
      ∃ d, (c.child b s.index).value = some d ∧
        x ∈ (c.compilePlace path (s.place d)).log.diagnostics := by
  cases h : (c.child b s.index).value with
  | none => simp [compileSlot_of_none h]
  | some d => simp [compileSlot_of_some h, child_of_value h, Logged.pure_def, Log.empty]

theorem mem_diagnostics_applyRule :
    x ∈ (c.applyRule path r b).log.diagnostics ↔
      ∃ s ∈ r.slots b, x ∈ (c.compileSlot path b s).log.diagnostics := by
  rw [applyRule_eq]
  simp [Log.append_def, Log.join, Log.require]

theorem mem_diagnostics_compileChain (h : b.id ∉ seen)
    (hfull : ¬c.options.chainIsFull seen.length = true) :
    x ∈ (c.compileChain path seen b).log.diagnostics ↔
      x ∈ (c.compileBlock path b).log.diagnostics ∨ x ∈ (c.successor b).log.diagnostics ∨
        ∃ d, (c.successor b).value = some d ∧
          x ∈ (c.compileChain path (seen.push b.id h) d).log.diagnostics := by
  cases hnext : (c.successor b).value with
  | none => simp [compileChain_of_none h hfull hnext, Log.append_def]
  | some d =>
    rw [compileChain_of_some h hfull hnext, successor_of_value hnext]
    simp [Logged.bind_def, Logged.pure_def, Log.append_def, Log.empty]

end

theorem compile_induct (c : Context) {value : Trail → Block → Prop}
    {chain : Trail → Trail → Block → Prop}
    (hvalue : ∀ path b, (∀ h : b.id ∉ path,
      (∀ d, c.Expands (.value b) (.value d) → value (path.push b.id h) d) ∧
      ∀ d, c.Expands (.value b) (.chain d) → chain (path.push b.id h) .empty d) → value path b)
    (hchain : ∀ path seen b, value path b →
      (∀ (h : b.id ∉ seen) d, c.Expands (.chain b) (.chain d) → chain path (seen.push b.id h) d) →
      chain path seen b) :
    (∀ path b, value path b) ∧ ∀ path seen b, chain path seen b := by
  suffices h : ∀ room path, path.room = room →
      (∀ b, value path b) ∧ ∀ seen b, chain path seen b by
    exact ⟨fun path => (h _ path rfl).1, fun path => (h _ path rfl).2⟩
  intro room
  induction room using Nat.strong_induction_on with
  | _ room ih =>
    rintro path rfl
    have hb : ∀ b, value path b := by
      intro b
      apply hvalue
      intro h
      have hpush := ih _ (Trail.room_push_lt h) _ rfl
      exact ⟨fun d _ => hpush.1 d, fun d _ => hpush.2 .empty d⟩
    refine ⟨hb, fun seen => ?_⟩
    induction hroom : seen.room using Nat.strong_induction_on generalizing seen with
    | _ n ihseen =>
      subst hroom
      intro b
      apply hchain _ _ _ (hb b)
      intro h d _
      exact ihseen _ (Trail.room_push_lt h) _ rfl d

end Context

end VisualProgram
