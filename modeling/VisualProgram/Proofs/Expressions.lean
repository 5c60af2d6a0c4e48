import VisualProgram.Proofs.Layout

namespace VisualProgram

open Text

def Registry.expressionGenera : List String :=
  (literalRules ++ operatorRules ++ mathRules ++ variableRules ++ keyRules ++ actionRules).map
    Prod.fst ++ ["callFunction", "callFunctionImport", "pythonExpression"]

theorem Registry.lacks_feed_of_expression :
    ∀ e ∈ standard.rules, e.1 ∈ expressionGenera → ∀ t ∈ e.2.texts, Lacks '\n' t := by
  decide +kernel

namespace Lookup

def Plugs (l : Lookup) (b d : Block) : Prop :=
  ∃ id ∈ b.sockets.filterMap Socket.block, l.block? id = some d

def IsExpression (l : Lookup) (b : Block) : Prop :=
  ∀ d, Relation.ReflTransGen l.Plugs b d →
    (d.genus ∈ Registry.expressionGenera ∨ Registry.standard.rule? d.genus = none) ∧
      ∀ t ∈ d.texts, Lacks '\n' t

theorem IsExpression.plugs {l : Lookup} {b d : Block} (h : l.IsExpression b) (hd : l.Plugs b d) :
    l.IsExpression d :=
  fun e he => h e (he.head hd)

end Lookup

theorem Rule.body_notMem_slots {r : Rule} (h : ∀ t ∈ r.texts, Lacks '\n' t) (b : Block) (i : Nat) :
    .body i ∉ r.slots b := by
  have hbody (hfeed : "\n" ∈ r.texts) : False := absurd (h _ hfeed) (by decide)
  cases r with
  | constant text module => exact List.not_mem_nil
  | call name missing sockets module => simp [slots]
  | operator token missing sockets => simp [slots]
  | handler handler =>
    cases handler with
    | literal | name | screenshot | getter | functionKey | comment | call | importedCall =>
      simp [slots, Handler.slots]
    | inlineCode =>
      rw [slots, Handler.slots]
      split <;> simp
    | sequence | conditional | alternative | repetition | loop | definition =>
      exact (hbody (by decide)).elim
    | event e => exact (hbody (by cases e <;> decide)).elim

namespace Context

variable {c : Context} {b d : Block}

theorem plugs_of_child {index : Nat} (h : (c.child b index).value = some d) : c.lookup.Plugs b d := by
  obtain ⟨id, hid, hd⟩ := child_eq_some_iff.1 h
  obtain ⟨s, hs, hblock⟩ := Option.bind_eq_some_iff.1 hid
  exact ⟨id, List.mem_filterMap.2 ⟨s, List.mem_of_getElem? hs, hblock⟩, hd⟩

theorem lacks_feed_of_expression (hreg : c.registry = .standard) (h : c.lookup.IsExpression b)
    (path : Trail) : Lacks '\n' (c.compileBlock path b).value := by
  have htexts {b : Block} {r : Rule} (hb : c.lookup.IsExpression b)
      (hr : c.registry.rule? b.genus = some r) : ∀ t ∈ r.texts, Lacks '\n' t := by
    rw [hreg] at hr
    have hgenus : b.genus ∈ Registry.expressionGenera := by
      refine (hb b .refl).1.resolve_right fun hnone => ?_
      rw [hr] at hnone
      cases hnone
    exact Registry.lacks_feed_of_expression _ (Registry.mem_rules_of_rule? hr) hgenus
  -- a chain is nowhere on the way, since the rule of an expression reads none
  have hclosed : ∀ p q, (∃ b, p = .value b ∧ c.lookup.IsExpression b) → c.Expands p q →
      ∃ b, q = .value b ∧ c.lookup.IsExpression b := by
    rintro _ q ⟨b, rfl, hb⟩ hq
    cases hq with
    | value _ _ hd => exact ⟨_, rfl, hb.plugs (plugs_of_child hd)⟩
    | body hr hi _ => exact absurd hi (Rule.body_notMem_slots (htexts hb hr) b _)
  refine (lacks_compile (absurd rfl) hclosed ?_).1 path b ⟨b, rfl, h⟩
  rintro e ⟨d, ⟨⟩, hd⟩
  exact ⟨(hd e .refl).2, fun r hr => htexts hd hr⟩

end Context

theorem Text.feed_notMem_compact (text : String) : Lacks '\n' (compact text) := by
  rw [compact, lacks_ofList, List.mem_filter]
  exact fun h => absurd h.2 (by decide)

namespace Application

variable {c : Context} {a : Application c} {parts : List (String × Nat)} {tail : String}

theorem header_mem_rows (hreg : c.registry = .standard) (h : a.Headed parts tail) {header : String}
    {i : Nat} (hpart : (header, i) ∈ parts) (hfeed : Lacks '\n' header) :
    header.toList ∈ rows (c.compileBlock a.path a.block).value := by
  have hrow : rows header = [header.toList] := List.splitOn_eq_singleton hfeed
  have hmem (rest : String) : header.toList ∈ rows (header ++ "\n" ++ rest) := by
    rw [rows_append_feed, hrow]
    exact List.mem_append_left _ (List.mem_singleton_self _)
  obtain ⟨before, after, hbefore, htext⟩ := a.text_of_part hreg h hpart
  let body := closeRows (innerRows c.options.indent (a.statements i))
  have hrows : (c.compileBlock a.path a.block).value =
      before ++ (header ++ "\n" ++ (body ++ after)) := by
    rw [htext]
    simp [body, String.append_assoc]
  rw [hrows]
  -- what stands before the header, if anything does, ends with a line feed
  rcases hbefore with rfl | ⟨t, rfl⟩
  · simpa using hmem _
  · rw [rows_append_feed]
    exact List.mem_append_right _ (hmem _)

def ReadsExpressions (a : Application c) : Prop :=
  ∀ i d, .value i ∈ a.rule.slots a.block → (c.child a.block i).value = some d →
    c.lookup.IsExpression d

theorem ReadsExpressions.lacks_feed (hreg : c.registry = .standard) (h : a.ReadsExpressions) {i : Nat}
    (hi : .value i ∈ a.rule.slots a.block) : ∀ t, a.socket i = some t → Lacks '\n' t := by
  intro t ht
  obtain ⟨d, hd, rfl⟩ := Option.map_eq_some_iff.1 ht
  exact Context.lacks_feed_of_expression hreg (h i d hi hd) a.inner

theorem ReadsExpressions.lacks_feed_header (hreg : c.registry = .standard) (h : a.ReadsExpressions)
    (hparts : a.Headed parts tail) : ∀ p ∈ parts, Lacks '\n' p.1 := by
  have htest {handler : Handler} (hr : a.rule = .handler handler)
      (hslots : .value 0 ∈ handler.slots a.block) {before missing after : String}
      (hbefore : Lacks '\n' before) (hmissing : Lacks '\n' missing) (hafter : Lacks '\n' after) :
      Lacks '\n' (before ++ (a.socket 0).getD missing ++ after) := by
    have hsocket := lacks_getD hmissing (h.lacks_feed hreg (i := 0) (by rwa [hr]))
    simp [hbefore, hsocket, hafter]
  have hsingle {header : String} {i : Nat} (hheader : Lacks '\n' header) :
      ∀ p ∈ [(header, i)], Lacks '\n' p.1 := by
    simpa using hheader
  cases hparts with
  | conditional hgenus =>
    have hr : a.rule = .handler .conditional := a.rule_of_genus (by rw [hreg, hgenus]; rfl)
    exact hsingle (htest hr (by simp [Handler.slots]) (by decide) (by decide) (by decide))
  | repetition hgenus =>
    have hr : a.rule = .handler .repetition := a.rule_of_genus (by rw [hreg, hgenus]; rfl)
    exact hsingle (htest hr (by simp [Handler.slots]) (by decide) (by decide) (by decide))
  | loop hgenus =>
    have hr : a.rule = .handler .loop := a.rule_of_genus (by rw [hreg, hgenus]; rfl)
    exact hsingle (htest hr (by simp [Handler.slots]) (by decide) (by decide) (by decide))
  | alternative hgenus =>
    have hr : a.rule = .handler .alternative := a.rule_of_genus (by rw [hreg, hgenus]; rfl)
    have hif : Lacks '\n' ("if " ++ (a.socket 0).getD "True" ++ ":") :=
      htest hr (by simp [Handler.slots]) (by decide) (by decide) (by decide)
    have helse : Lacks '\n' "else:" := by decide
    simpa [-lacks_append] using ⟨hif, helse⟩
  | event e hgenus =>
    apply hsingle
    have hlabel : Lacks '\n' a.block.compactLabel := feed_notMem_compact _
    simp [hlabel, show Lacks '\n' "def " by decide, show Lacks '\n' "(event):" by decide]
  | definition hgenus =>
    have hr : a.rule = .handler .definition := a.rule_of_genus (by rw [hreg, hgenus]; rfl)
    have hsocket (i : Nat) (hi : i < a.block.bodyIndex) :
        ∀ t, a.socket i = some t → Lacks '\n' t :=
      h.lacks_feed hreg (by simpa [hr, Rule.slots, Handler.slots] using hi)
    have hname : Lacks '\n' (a.name 0) := by
      by_cases hempty : a.block.sockets.length = 0
      · rw [name, a.socket_of_le (Nat.le_of_eq hempty)]
        decide
      · refine (lacks_getD lacks_empty (hsocket 0 ?_)).unquote
        rw [Block.bodyIndex]
        split <;> omega
    have hcall : Lacks '\n' (callText (a.name 0)
        ((List.range' 1 (a.block.bodyIndex - 1)).filterMap a.socket)) := by
      refine lacks_callText hname (by decide) (by decide) (by decide) fun t ht => ?_
      obtain ⟨i, hi, ht⟩ := List.mem_filterMap.1 ht
      rw [List.mem_range'_1] at hi
      exact hsocket i (by omega) t ht
    apply hsingle
    simp [hcall, show Lacks '\n' "def " by decide, show Lacks '\n' ":" by decide]

end Application

theorem Context.expressions_on_one_row (l : Lookup) (o : Options) :
    let c : Context := ⟨l, .standard, o⟩
    (∀ path b, l.IsExpression b → Lacks '\n' (c.compileBlock path b).value) ∧
      ∀ (a : Application c) parts tail, a.Headed parts tail → a.ReadsExpressions →
        ∀ header i, (header, i) ∈ parts → Lacks '\n' header ∧
          header.toList ∈ rows (c.compileBlock a.path a.block).value := by
  intro c
  have hreg : c.registry = .standard := rfl
  refine ⟨fun path b h => lacks_feed_of_expression hreg h path, ?_⟩
  intro a parts tail hparts h header i hpart
  have hfeed := h.lacks_feed_header hreg hparts _ hpart
  exact ⟨hfeed, a.header_mem_rows hreg hparts hpart hfeed⟩

theorem Lookup.isExpression_of_closed {g : BlockGraph} {S : List Block}
    (hclosed : ∀ b ∈ S, ∀ id ∈ b.sockets.filterMap Socket.block, ∀ d ∈ g.get? id, d ∈ S)
    (hS : ∀ b ∈ S, (b.genus ∈ Registry.expressionGenera ∨ Registry.standard.rule? b.genus = none) ∧
      ∀ t ∈ b.texts, Lacks '\n' t) {b : Block} (hb : b ∈ S) : (ofGraph g).IsExpression b := by
  intro d hd
  have hmem : d ∈ S := by
    induction hd with
    | refl => exact hb
    | tail _ hlink ih =>
      obtain ⟨id, hid, he⟩ := hlink
      rw [block?_ofGraph] at he
      exact hclosed _ ih id hid _ he
  exact hS d hmem

namespace Block

def looseTest : Block :=
  { ofGenus "if" with
    id := .ofNat 1
    sockets := [(Socket.any "test").connect (.ofNat 2), Socket.any "then"] }

def endlessSum : Block :=
  { ofGenus "sum" with
    id := .ofNat 2
    sockets := [(Socket.any "a").connect (.ofNat 3), (Socket.any "b").connect (.ofNat 2)] }

def lostCall : Block :=
  { ofGenus "callFunctionImport" with
    id := .ofNat 3
    sockets := [(Socket.any "name").connect (.ofNat 4), (Socket.any "module").connect (.ofNat 9)] }

def calledName : Block :=
  { ofGenus "string" with id := .ofNat 4, label := some "f" }

end Block

def BlockGraph.looseExpressions : BlockGraph where
  blocks := [.looseTest, .endlessSum, .lostCall, .calledName]
  named := by decide
  distinct := by decide

theorem Context.looseExpressions_on_one_row :
    let c : Context := ⟨.ofGraph .looseExpressions, .standard, .standard⟩
    let a : Application c :=
      ⟨.empty, .looseTest, .handler .conditional, Trail.notMem_empty _, rfl⟩
    Lacks '\n' (c.compileBlock .empty .endlessSum).value ∧
      ("if " ++ (a.socket 0).getD "True" ++ ":").toList ∈
        rows (c.compileBlock .empty .looseTest).value := by
  intro c a
  have hexpression : (Lookup.ofGraph .looseExpressions).IsExpression .endlessSum :=
    Lookup.isExpression_of_closed (S := [.endlessSum, .lostCall, .calledName]) (by decide +kernel)
      (by decide +kernel) List.mem_cons_self
  have hreads : a.ReadsExpressions := by
    intro i d hi hd
    obtain rfl : i = 0 := by simpa [a, Rule.slots, Handler.slots] using hi
    have htest : (c.child a.block 0).value = some .endlessSum := by decide +kernel
    obtain rfl := Option.some.inj (htest.symm.trans hd)
    exact hexpression
  obtain ⟨hrow, hheader⟩ := expressions_on_one_row (.ofGraph .looseExpressions) .standard
  have hconditional : a.Headed [("if " ++ (a.socket 0).getD "True" ++ ":", 1)] "" :=
    .conditional rfl
  exact ⟨hrow .empty .endlessSum hexpression,
    (hheader a _ _ hconditional hreads _ 1 (List.mem_singleton_self _)).2⟩

end VisualProgram
