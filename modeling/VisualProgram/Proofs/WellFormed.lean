import VisualProgram.Proofs.Walks

/-!
Well-formed blocks: the block has a rule, and whatever the rule reads is there and well formed in
turn. Well-formedness is a finite derivation, so nothing well formed contains itself. A script has no
diagnostics if and only if its root is well formed.
-/

namespace VisualProgram

namespace Context

/-- A chain that ends, is not too long behind `length` blocks before it, and has only blocks in
`good`. -/
def ChainOver (c : Context) (good : Block → Prop) (length : Nat) (first : Block) : Prop :=
  ∃ bs last, c.lookup.Walk first bs last ∧ last.successor? = none ∧
    (∀ d ∈ bs ++ [last], good d) ∧
    (0 < c.options.maxChainLength → length + (bs ++ [last]).length ≤ c.options.maxChainLength)

structure SoundOver (c : Context) (good : Block → Prop) (r : Rule) (b : Block) : Prop where
  rule : c.registry.rule? b.genus = some r
  value : ∀ i id, .value i ∈ r.slots b → b.target? i = some id →
    ∃ d, c.lookup.block? id = some d ∧ good d
  body : ∀ i id, .body i ∈ r.slots b → b.target? i = some id →
    ∃ first, c.lookup.block? id = some first ∧ c.ChainOver good 0 first

inductive WellFormed (c : Context) : Block → Prop
  | intro {b : Block} {r : Rule} {good : Block → Prop} :
      c.SoundOver good r b → (∀ d, good d → WellFormed c d) → WellFormed c b

variable {c : Context} {g : BlockGraph} {b : Block}

theorem ChainOver.last {good : Block → Prop} {length : Nat} (hb : good b)
    (hend : b.successor? = none)
    (hlength : 0 < c.options.maxChainLength → length < c.options.maxChainLength) :
    c.ChainOver good length b :=
  ⟨[], b, .stay, hend, by simpa using hb, hlength⟩

theorem ChainOver.next {good : Block → Prop} {length : Nat} {d : Block} (hb : good b)
    (hd : (c.successor b).value = some d) (h : c.ChainOver good (length + 1) d) :
    c.ChainOver good length b := by
  obtain ⟨bs, last, hwalk, hend, hgood, hlength⟩ := h
  have hstep : c.lookup.next? b = some d := (successor_value c b).symm.trans hd
  refine ⟨b :: bs, last, .step hstep hwalk, hend, by simpa [hb] using hgood, fun hmax => ?_⟩
  have := hlength hmax
  simp only [List.cons_append, List.length_cons]
  omega

theorem block?_of_isValid (hg : c.lookup = .ofGraph g) {id : BlockId}
    (h : ¬c.lookup.isValid id = false) : ∃ d, c.lookup.block? id = some d := by
  rw [hg, Bool.not_eq_false, Lookup.isValid_ofGraph_iff] at h
  rwa [hg, Lookup.block?_ofGraph]

theorem reads_of_clean (hg : c.lookup = .ofGraph g) {path : Trail} {r : Rule}
    (hclean : (c.applyRule path r b).log.diagnostics = []) {s : Slot} (hs : s ∈ r.slots b)
    {id : BlockId} (hid : b.target? s.index = some id) :
    ∃ d, c.lookup.block? id = some d ∧ (c.child b s.index).value = some d ∧
      (c.compilePlace path (s.place d)).log.diagnostics = [] := by
  simp only [List.eq_nil_iff_forall_not_mem, mem_diagnostics_applyRule, not_exists, not_and,
    mem_diagnostics_compileSlot, not_or] at hclean ⊢
  obtain ⟨d, hd⟩ := block?_of_isValid hg fun hvalid =>
    (hclean _ s hs).1 (mem_diagnostics_child.2 ⟨id, hid, hvalid, rfl⟩)
  have hchild : (c.child b s.index).value = some d := child_eq_some_iff.2 ⟨id, hid, hd⟩
  exact ⟨d, hd, hchild, fun x => (hclean x s hs).2 d hchild⟩

theorem wellFormed_of_clean (hg : c.lookup = .ofGraph g) :
    (∀ path b, (c.compileBlock path b).log.diagnostics = [] → c.WellFormed b) ∧
      ∀ path seen b, (c.compileChain path seen b).log.diagnostics = [] →
        c.ChainOver c.WellFormed seen.length b := by
  apply compile_induct c
  · intro path b ih hclean
    by_cases h : b.id ∈ path
    · simp [compileBlock_of_mem h, Log.report] at hclean
    cases hr : c.registry.rule? b.genus with
    | none => simp [compileBlock_of_noRule h hr, Log.report] at hclean
    | some r =>
      rw [diagnostics_compileBlock_of_rule h hr] at hclean
      suffices hsound : c.SoundOver c.WellFormed r b from .intro hsound fun d hd => hd
      refine ⟨hr, ?_, ?_⟩
      · intro i id hi hid
        obtain ⟨d, hd, hchild, hplace⟩ := reads_of_clean hg hclean hi hid
        rw [Slot.place, diagnostics_compilePlace_value] at hplace
        exact ⟨d, hd, (ih h).1 d (.value hr hi hchild) hplace⟩
      · intro i id hi hid
        obtain ⟨d, hd, hchild, hplace⟩ := reads_of_clean hg hclean hi hid
        rw [Slot.place, diagnostics_compilePlace_chain] at hplace
        exact ⟨d, hd, (ih h).2 d (.body hr hi hchild) hplace⟩
  · intro path seen b hb ih hclean
    by_cases h : b.id ∈ seen
    · simp [compileChain_of_mem h, Log.report] at hclean
    by_cases hfull : c.options.chainIsFull seen.length = true
    · simp [compileChain_of_full h hfull, Log.report] at hclean
    simp only [List.eq_nil_iff_forall_not_mem, mem_diagnostics_compileChain h hfull, not_or,
      not_exists, not_and] at hclean hb ih
    have hb := hb fun x => (hclean x).1
    rw [Options.chainIsFull_iff] at hfull
    cases hnext : b.successor? with
    | none => exact .last hb hnext fun hmax => by omega
    | some id =>
      obtain ⟨d, hd⟩ := block?_of_isValid hg fun hvalid =>
        (hclean _).2.1 (mem_diagnostics_successor.2 ⟨id, hnext, hvalid, rfl⟩)
      have hsome : (c.successor b).value = some d := successor_eq_some_iff.2 ⟨id, hnext, hd⟩
      apply ChainOver.next hb hsome
      exact ih h d (.next hsome) fun x => (hclean x).2.2 d hsome

theorem SoundOver.good_of_child {good : Block → Prop} {r : Rule} (h : c.SoundOver good r b) {i : Nat}
    (hi : .value i ∈ r.slots b) {d : Block} (hd : (c.child b i).value = some d) : good d := by
  obtain ⟨id, hid, hd⟩ := child_eq_some_iff.1 hd
  obtain ⟨d', hd', hgood⟩ := h.value i id hi hid
  cases hd.symm.trans hd'
  exact hgood

theorem SoundOver.chain_of_child {good : Block → Prop} {r : Rule} (h : c.SoundOver good r b) {i : Nat}
    (hi : .body i ∈ r.slots b) {d : Block} (hd : (c.child b i).value = some d) :
    c.ChainOver good 0 d := by
  obtain ⟨id, hid, hd⟩ := child_eq_some_iff.1 hd
  obtain ⟨d', hd', hchain⟩ := h.body i id hi hid
  cases hd.symm.trans hd'
  exact hchain

theorem SoundOver.child_clean {good : Block → Prop} {r : Rule} (h : c.SoundOver good r b) {s : Slot}
    (hs : s ∈ r.slots b) (x : Diagnostic) : x ∉ (c.child b s.index).log.diagnostics := by
  intro hx
  obtain ⟨id, hid, hvalid, -⟩ := mem_diagnostics_child.1 hx
  have hsome : ∃ d, c.lookup.block? id = some d := by
    cases s with
    | value i =>
      obtain ⟨d, hd, -⟩ := h.value i id hs hid
      exact ⟨d, hd⟩
    | body i =>
      obtain ⟨d, hd, -⟩ := h.body i id hs hid
      exact ⟨d, hd⟩
  obtain ⟨d, hd⟩ := hsome
  simp [Lookup.block?, hvalid] at hd

theorem finite_chain {bs : List Block} {last : Block} (walk : c.lookup.Walk b bs last)
    (hend : last.successor? = none) (h : ∀ d ∈ bs ++ [last], c.Finite (.value d)) :
    c.Finite (.chain b) := by
  induction walk with
  | stay =>
    refine .intro _ fun q hq => ?_
    cases hq with
    | first => exact h _ (by simp)
    | next hd => simp [successor_value, hend] at hd
  | step hnext _ ih =>
    refine .intro _ fun q hq => ?_
    cases hq with
    | first => exact h _ (by simp)
    | next hd =>
      cases hnext.symm.trans ((successor_value c _).symm.trans hd)
      exact ih hend fun d hd => h d (List.mem_cons_of_mem _ hd)

theorem WellFormed.finite (h : c.WellFormed b) : c.Finite (.value b) := by
  induction h with
  | intro hsound _ ih =>
    refine .intro _ fun q hq => ?_
    cases hq with
    | value hr hi hd =>
      cases hsound.rule.symm.trans hr
      exact ih _ (hsound.good_of_child hi hd)
    | body hr hi hd =>
      cases hsound.rule.symm.trans hr
      obtain ⟨bs, last, hwalk, hend, hgood, -⟩ := hsound.chain_of_child hi hd
      exact finite_chain hwalk hend fun d hd => ih d (hgood d hd)

theorem clean_chain (hc : c.Faithful) {path seen : Trail} {bs : List Block} {last : Block}
    (walk : c.lookup.Walk b bs last) (hend : last.successor? = none)
    (hblocks : ∀ d ∈ bs ++ [last], c.Known (.value d) → c.ClearOf path (.value d) →
      (c.compileBlock path d).log.diagnostics = [])
    (hfin : c.Finite (.chain b)) (hb : c.Known (.chain b)) (hclear : c.ClearOf path (.chain b))
    (hunseen : c.Unseen seen (.chain b))
    (hlength : 0 < c.options.maxChainLength →
      seen.length + (bs ++ [last]).length ≤ c.options.maxChainLength) :
    (c.compileChain path seen b).log.diagnostics = [] := by
  induction walk generalizing seen with
  | @stay b =>
    have hseen := hunseen b .refl
    have hfull : ¬c.options.chainIsFull seen.length = true := by
      rw [Options.chainIsFull_iff]
      simp only [List.nil_append, List.length_singleton] at hlength
      omega
    have hfirst := hblocks b (by simp) hb (hclear.expands .first)
    simp [List.eq_nil_iff_forall_not_mem, mem_diagnostics_compileChain hseen hfull, hfirst,
      mem_diagnostics_successor, successor_value, hend]
  | @step b d last bs hnext hwalk ih =>
    have hseen := hunseen b .refl
    have hfull : ¬c.options.chainIsFull seen.length = true := by
      rw [Options.chainIsFull_iff]
      simp only [List.cons_append, List.length_cons] at hlength
      omega
    have hfirst := hblocks b (by simp) hb (hclear.expands .first)
    have hsome : (c.successor b).value = some d := (successor_value c b).trans hnext
    have hq := Expands.next hsome
    have hrest : (c.compileChain path (seen.push b.id hseen) d).log.diagnostics = [] := by
      apply ih hend (fun x hx => hblocks x (List.mem_cons_of_mem _ hx)) (hfin.inv hq)
        (hb.expands hc hq) (hclear.expands hq) (hunseen.push hc hb hfin hq hseen)
      intro hmax
      have := hlength hmax
      simp only [List.cons_append, List.length_cons] at this
      rw [Trail.length_push]
      omega
    rw [compileChain_of_some hseen hfull hsome]
    simp [Logged.bind_def, Logged.pure_def, Log.append_def, Log.empty, hfirst, hrest]

-- The derivation is finite, so nothing that is read leads back to the path: neither guard is met, and
-- each report would need a rule, a block or room in a chain that the derivation provides.
theorem WellFormed.clean (hc : c.Faithful) (h : c.WellFormed b) {path : Trail}
    (hb : c.Known (.value b)) (hclear : c.ClearOf path (.value b)) :
    (c.compileBlock path b).log.diagnostics = [] := by
  induction h generalizing path with
  | @intro b r good hsound hgood ih =>
    have hfin := (WellFormed.intro hsound hgood).finite
    have hpath := hclear b .refl
    rw [diagnostics_compileBlock_of_rule hpath hsound.rule, List.eq_nil_iff_forall_not_mem]
    intro x hx
    obtain ⟨s, hs, hx⟩ := mem_diagnostics_applyRule.1 hx
    rcases mem_diagnostics_compileSlot.1 hx with hx | ⟨d, hd, hx⟩
    · exact hsound.child_clean hs x hx
    · have hq := Expands.slot hsound.rule hs hd
      have hclear := hclear.push hc hb hfin hq hpath
      have hplace : (c.compilePlace (path.push b.id hpath) (s.place d)).log.diagnostics = [] := by
        cases s with
        | value i =>
          rw [Slot.place, diagnostics_compilePlace_value]
          exact ih d (hsound.good_of_child hs hd) (hb.expands hc hq) hclear
        | body i =>
          obtain ⟨bs, last, hwalk, hend, hchain, hlength⟩ := hsound.chain_of_child hs hd
          rw [Slot.place, diagnostics_compilePlace_chain]
          exact clean_chain hc hwalk hend (fun e he hknown hclear => ih e (hchain e he) hknown hclear)
            (hfin.inv hq) (hb.expands hc hq) hclear (fun e _ => Trail.notMem_empty e.id)
            hlength
      rw [hplace] at hx
      cases hx

end Context

theorem Script.clean_iff_wellFormed (g : BlockGraph) (r : Registry) (o : Options) {root : BlockId}
    {b : Block} (hb : g.get? root = some b) :
    let c : Context := ⟨.ofGraph g, r, o⟩
    (Script.compile c root).diagnostics = [] ↔ c.WellFormed b := by
  intro c
  have hblock : c.lookup.block? root = some b := (Lookup.block?_ofGraph g root).trans hb
  have hcompile : c.compileId root = c.compileBlock .empty b := by
    rw [Context.compileId, hblock]
  have hdiagnostics : (Script.compile c root).diagnostics =
      (c.compileBlock .empty b).log.diagnostics := by
    rw [Script.compile, hcompile]
  rw [hdiagnostics]
  constructor
  · exact (Context.wellFormed_of_clean rfl).1 .empty b
  · intro h
    have hc := Context.faithful_ofGraph g r o
    exact h.clean hc (hc.known hblock) fun d _ => Trail.notMem_empty d.id

theorem Script.clean_iff_wellFormed_sharedOperand :
    let c : Context := ⟨.ofGraph .sharedOperand, .standard, .standard⟩
    ∃ b : Block, BlockGraph.sharedOperand.get? (.ofNat 2) = some b ∧ c.WellFormed b ∧
      (Script.compile c (.ofNat 2)).diagnostics = [] := by
  intro c
  have hnumber : ∃ n, c.lookup.block? (.ofNat 1) = some n ∧ c.WellFormed n := by
    refine ⟨_, rfl, .intro (?_ : c.SoundOver (fun _ => False) (.handler .name) _) fun _ => False.elim⟩
    exact ⟨rfl, fun _ _ hi => (List.not_mem_nil hi).elim, fun _ _ hi => (List.not_mem_nil hi).elim⟩
  have hsum : ∃ b, BlockGraph.sharedOperand.get? (.ofNat 2) = some b ∧ c.WellFormed b := by
    refine ⟨_, rfl,
      .intro (?_ : c.SoundOver c.WellFormed (.operator "+" "0" [0, 1]) _) fun _ hd => hd⟩
    refine ⟨rfl, fun i id hi hid => ?_, fun i _ hi _ => by simp [Rule.slots] at hi⟩
    have hone : id = .ofNat 1 := by
      obtain rfl | rfl : i = 0 ∨ i = 1 := by simpa [Rule.slots] using hi
      · exact (Option.some.inj hid).symm
      · exact (Option.some.inj hid).symm
    exact hone ▸ hnumber
  obtain ⟨b, hb, hwell⟩ := hsum
  exact ⟨b, hb, hwell, (Script.clean_iff_wellFormed .sharedOperand .standard .standard hb).2 hwell⟩

end VisualProgram
