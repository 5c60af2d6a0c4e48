import VisualProgram.Proofs.Parts
import VisualProgram.Proofs.Precedence

namespace VisualProgram.Arithmetic

theorem Operator.rule?_genus (o : Operator) : ∃ missing,
    Registry.standard.rule? o.genus = some (.operator (String.singleton o.symbol) missing [0, 1]) := by
  cases o <;> exact ⟨_, rfl⟩

def operand? (l : Lookup) (b : Block) (index : Nat) : Option Block :=
  (b.target? index).bind l.block?

inductive Denotes (l : Lookup) : Block → Expr → Prop
  | word {b : Block} {text : String} : b.genus = "variable" ∨ b.genus = "number" →
      b.label = some text → IsWord text → Denotes l b (.word text)
  | node {b left right : Block} {o : Operator} {e e' : Expr} : b.genus = o.genus →
      operand? l b 0 = some left → Denotes l left e →
      operand? l b 1 = some right → Denotes l right e' → Denotes l b (.node o e e')

variable {c : Context} {b : Block} {e : Expr}

theorem Denotes.plain {l : Lookup} (h : Denotes l b e) : e.Plain := by
  induction h with
  | word _ _ htext => exact htext
  | node _ _ _ _ _ ihl ihr => exact ⟨ihl, ihr⟩

theorem rule?_of_word (hreg : c.registry = .standard)
    (h : b.genus = "variable" ∨ b.genus = "number") :
    c.registry.rule? b.genus = some (.handler .name) := by
  rw [hreg]
  rcases h with h | h <;> rw [h] <;> rfl

theorem Denotes.finite (hreg : c.registry = .standard) (h : Denotes c.lookup b e) :
    c.Finite (.value b) := by
  induction h with
  | word hgenus _ _ =>
    refine .intro _ fun q hq => ?_
    have hr := rule?_of_word hreg hgenus
    cases hq with
    | value hr' hi _ =>
      cases hr.symm.trans hr'
      cases hi
    | body hr' hi _ =>
      cases hr.symm.trans hr'
      cases hi
  | @node b left right o e e' hgenus hleft _ hright _ ihl ihr =>
    refine .intro _ fun q hq => ?_
    obtain ⟨missing, hr⟩ := o.rule?_genus
    rw [← hgenus, ← hreg] at hr
    cases hq with
    | @value _ d _ i hr' hi hd =>
      cases hr.symm.trans hr'
      rw [Context.child_value] at hd
      obtain rfl | rfl : i = 0 ∨ i = 1 := by simpa [Rule.slots] using hi
      · cases hleft.symm.trans hd
        exact ihl
      · cases hright.symm.trans hd
        exact ihr
    | body hr' hi _ =>
      cases hr.symm.trans hr'
      simp [Rule.slots] at hi

theorem applyRule_operator_value {path : Trail} {left right : Block} {token missing : String}
    (hleft : (c.child b 0).value = some left) (hright : (c.child b 1).value = some right) :
    (c.applyRule path (.operator token missing [0, 1]) b).value =
      (c.compileBlock path left).value ++ " " ++ token ++ " " ++ (c.compileBlock path right).value := by
  have hslots : (Rule.operator token missing [0, 1]).slots b = [.value 0, .value 1] := rfl
  have hzero : c.compileSlot path b (.value 0) = c.compilePlace path (.value left) :=
    Context.compileSlot_of_some hleft
  have hone : c.compileSlot path b (.value 1) = c.compilePlace path (.value right) :=
    Context.compileSlot_of_some hright
  rw [Context.applyRule_eq, hslots, List.map_cons, List.map_cons, List.map_nil, hzero, hone]
  rfl

theorem Denotes.compileBlock_value (hc : c.Faithful) (hreg : c.registry = .standard)
    (h : Denotes c.lookup b e) {path : Trail} (hb : c.Known (.value b))
    (hclear : c.ClearOf path (.value b)) : (c.compileBlock path b).value = e.text := by
  -- What stands for a finite expression contains none of the blocks around it, so no guard is met.
  have hfin := h.finite hreg
  induction h generalizing path with
  | word hgenus hlabel _ =>
    have hpath := hclear _ .refl
    rw [Context.compileBlock_of_rule hpath (rule?_of_word hreg hgenus), Context.applyRule_eq]
    simp [Rule.render, Handler.render, Rendered.ofText, hlabel, Expr.text]
  | @node b left right o e e' hgenus hleft _ hright _ ihl ihr =>
    have hpath := hclear b .refl
    obtain ⟨missing, hrule⟩ := o.rule?_genus
    rw [← hgenus, ← hreg] at hrule
    have hzero := (c.child_value b 0).trans hleft
    have hone := (c.child_value b 1).trans hright
    have hl := Context.Expands.value hrule List.mem_cons_self hzero
    have hr := Context.Expands.value hrule (List.mem_cons_of_mem _ List.mem_cons_self) hone
    have htext := ihl (hb.expands hc hl) (hclear.push hc hb hfin hl hpath) (hfin.inv hl)
    have htext' := ihr (hb.expands hc hr) (hclear.push hc hb hfin hr hpath) (hfin.inv hr)
    rw [Context.compileBlock_of_rule hpath hrule]
    simp only [applyRule_operator_value hzero hone, htext, htext', Expr.text]

theorem Denotes.source {g : BlockGraph} (o : Options) {root : BlockId} (hb : g.get? root = some b)
    (h : Denotes (.ofGraph g) b e) :
    (Script.compile ⟨.ofGraph g, .standard, o⟩ root).source = e.text := by
  have hc := Context.faithful_ofGraph g .standard o
  have hblock : (Lookup.ofGraph g).block? root = some b := (Lookup.block?_ofGraph g root).trans hb
  rw [Script.compile, Context.compileId, hblock]
  exact h.compileBlock_value hc rfl (hc.known hblock) fun d _ => Trail.notMem_empty d.id

theorem source_read {g : BlockGraph} (o : Options) {root : BlockId} (hb : g.get? root = some b)
    (h : Denotes (.ofGraph g) b e) :
    let source := (Script.compile ⟨.ofGraph g, .standard, o⟩ root).source
    source = e.text ∧
      (∃ e', read? source = some e' ∧ e'.Grouped ∧ e'.tokens = e.tokens) ∧
      (read? source = some e ↔ e.Grouped) ∧
      ∀ (g' : BlockGraph) (o' : Options) (root' : BlockId) (b' : Block) (e' : Expr),
        g'.get? root' = some b' → Denotes (.ofGraph g') b' e' → e.Grouped → e'.Grouped →
        (Script.compile ⟨.ofGraph g', .standard, o'⟩ root').source = source → e' = e := by
  intro source
  have hsource : source = e.text := h.source o hb
  rw [hsource]
  refine ⟨rfl, Expr.read?_text h.plain, Expr.read?_text_iff h.plain, ?_⟩
  intro g' o' root' b' e' hb' h' hgrouped hgrouped' heq
  have hread := Expr.read?_text_of_grouped h.plain hgrouped
  have hread' := Expr.read?_text_of_grouped h'.plain hgrouped'
  rw [h'.source o' hb'] at heq
  rw [heq, hread] at hread'
  exact (Option.some.inj hread').symm

def wordBlock (id : Nat) (text : String) : Block :=
  { Block.ofGenus "variable" with id := .ofNat id, label := some text }

def nodeBlock (id : Nat) (o : Operator) (left right : Nat) : Block :=
  { Block.ofGenus o.genus with
    id := .ofNat id
    sockets := [(Socket.any "a").connect (.ofNat left), (Socket.any "b").connect (.ofNat right)] }

def regrouped : BlockGraph where
  blocks :=
    [wordBlock 1 "a", wordBlock 2 "b", wordBlock 3 "c", nodeBlock 4 .sum 1 2,
      nodeBlock 5 .product 4 3, nodeBlock 6 .product 2 3, nodeBlock 7 .sum 1 6]
  named := by decide
  distinct := by decide

theorem regrouped_denotes :
    Denotes (.ofGraph regrouped) (nodeBlock 5 .product 4 3)
        (.node .product (.node .sum (.word "a") (.word "b")) (.word "c")) ∧
      Denotes (.ofGraph regrouped) (nodeBlock 7 .sum 1 6)
        (.node .sum (.word "a") (.node .product (.word "b") (.word "c"))) := by
  have ha : Denotes (.ofGraph regrouped) (wordBlock 1 "a") (.word "a") :=
    .word (.inl rfl) rfl (by decide)
  have hb : Denotes (.ofGraph regrouped) (wordBlock 2 "b") (.word "b") :=
    .word (.inl rfl) rfl (by decide)
  have hc : Denotes (.ofGraph regrouped) (wordBlock 3 "c") (.word "c") :=
    .word (.inl rfl) rfl (by decide)
  exact ⟨.node rfl rfl (.node rfl rfl ha rfl hb) rfl hc,
    .node rfl rfl ha rfl (.node rfl rfl hb rfl hc)⟩

theorem source_read_regrouped :
    let source := (Script.compile ⟨.ofGraph regrouped, .standard, .standard⟩ (.ofNat 7)).source
    let e : Expr := .node .sum (.word "a") (.node .product (.word "b") (.word "c"))
    e.Grouped ∧ source = "a + b * c" ∧ read? source = some e := by
  intro source e
  have hblock : regrouped.get? (.ofNat 7) = some (nodeBlock 7 .sum 1 6) := rfl
  have hgrouped : e.Grouped := by simp [e, Expr.Grouped, Expr.level, Operator.level]
  obtain ⟨hsource, -, hread, -⟩ := source_read .standard hblock regrouped_denotes.2
  exact ⟨hgrouped, hsource, hread.2 hgrouped⟩

theorem grouping_lost :
    let source (root : BlockId) :=
      (Script.compile ⟨.ofGraph regrouped, .standard, .standard⟩ root).source
    ∃ b b' e e', regrouped.get? (.ofNat 5) = some b ∧ regrouped.get? (.ofNat 7) = some b' ∧
      Denotes (.ofGraph regrouped) b e ∧ Denotes (.ofGraph regrouped) b' e' ∧ e ≠ e' ∧
      source (.ofNat 5) = "a + b * c" ∧ source (.ofNat 7) = "a + b * c" ∧
      read? (source (.ofNat 5)) ≠ some e := by
  intro source
  have hblock : regrouped.get? (.ofNat 5) = some (nodeBlock 5 .product 4 3) := rfl
  have hblock' : regrouped.get? (.ofNat 7) = some (nodeBlock 7 .sum 1 6) := rfl
  obtain ⟨hdenotes, hdenotes'⟩ := regrouped_denotes
  have hsource : source (.ofNat 5) = "a + b * c" := hdenotes.source .standard hblock
  have hsource' : source (.ofNat 7) = "a + b * c" := hdenotes'.source .standard hblock'
  refine ⟨_, _, _, _, hblock, hblock', hdenotes, hdenotes', by decide, hsource, hsource', ?_⟩
  rw [hsource]
  decide

end VisualProgram.Arithmetic
