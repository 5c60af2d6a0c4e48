import VisualProgram.Proofs.Rows
import VisualProgram.Registry.Standard

namespace VisualProgram

open Text

def Event.genus : Event → String
  | appear => "on-appear-procedure"
  | vanish => "on-vanish-procedure"
  | change => "on-change-procedure"

namespace Application

variable {c : Context}

inductive Headed (a : Application c) : List (String × Nat) → String → Prop
  | conditional : a.block.genus = "if" →
      Headed a [("if " ++ (a.socket 0).getD "True" ++ ":", 1)] ""
  | alternative : a.block.genus = "ifelse" →
      Headed a [("if " ++ (a.socket 0).getD "True" ++ ":", 1), ("else:", 2)] ""
  | repetition : a.block.genus = "repeat" →
      Headed a [("for i in range(" ++ (a.socket 0).getD "1" ++ "):", 1)] ""
  | loop : a.block.genus = "while" →
      Headed a [("while " ++ (a.socket 0).getD "True" ++ ":", 1)] ""
  | event (e : Event) : a.block.genus = e.genus →
      Headed a [("def " ++ a.block.compactLabel ++ "(event):", 1)]
        (e.registration ++ "(" ++ (a.socket 0).getD "" ++ ", " ++ a.block.compactLabel ++ ")")
  | definition : a.block.genus = "defineFunction" →
      Headed a [("def " ++ callText (a.name 0)
        ((List.range' 1 (a.block.bodyIndex - 1)).filterMap a.socket) ++ ":", a.block.bodyIndex)] ""

end Application

namespace Context

variable {c : Context}

/-- One block is inside another one in as many indented bodies. -/
inductive Within (c : Context) : Nat → Trail → Block → Trail → Block → Prop
  | self {path : Trail} {b : Block} : Within c 0 path b path b
  | level (a : Application c) {n : Nat} {first d e : Block} {path : Trail} :
      a.block.genus = "runOnce" → (c.child a.block 0).value = some first →
      c.ChainPart .empty first d → Within c n a.inner d path e →
      Within c n a.path a.block path e
  | body (a : Application c) {n i : Nat} {parts : List (String × Nat)} {header tail : String}
      {first d e : Block} {path : Trail} : a.Headed parts tail → (header, i) ∈ parts →
      (c.child a.block i).value = some first → c.ChainPart .empty first d →
      Within c n a.inner d path e → Within c (n + 1) a.path a.block path e

end Context

namespace Application

variable {c : Context} {a : Application c} {parts : List (String × Nat)} {tail : String}

theorem text_of_header {before missing after : String}
    (hslots : a.rule.slots a.block = [.value 0, .body 1])
    (hrender : ∀ f, a.rule.render c.options a.block f =
      .ofText (bodyText c.options (Handler.header f before missing after) true (f.body 1))) :
    (c.compileBlock a.path a.block).value =
      bodyText c.options (before ++ (a.socket 0).getD missing ++ after : String) true
        (a.statements 1) := by
  have hvalue := a.fillings_value_of_mem (i := 0) (by simp [hslots])
  have hbody := a.fillings_body_of_mem (i := 1) (by simp [hslots])
  rw [a.compileBlock_value, hrender, hbody, Handler.header, hvalue]
  rfl

theorem text_of_headed (hreg : c.registry = .standard) (h : a.Headed parts tail) :
    (c.compileBlock a.path a.block).value =
      String.join (parts.map fun p => bodyText c.options p.1 true (a.statements p.2)) ++ tail := by
  have hsingle (header : String) (i : Nat) :
      String.join ([(header, i)].map fun p => bodyText c.options p.1 true (a.statements p.2)) ++ "" =
        bodyText c.options header true (a.statements i) := by
    simp
  cases h with
  | conditional h =>
    have hr : a.rule = .handler .conditional := a.rule_of_genus (by rw [hreg, h]; rfl)
    rw [a.text_of_header (by rw [hr]; rfl) (fun f => by rw [hr]; rfl), hsingle]
  | repetition h =>
    have hr : a.rule = .handler .repetition := a.rule_of_genus (by rw [hreg, h]; rfl)
    rw [a.text_of_header (by rw [hr]; rfl) (fun f => by rw [hr]; rfl), hsingle]
  | loop h =>
    have hr : a.rule = .handler .loop := a.rule_of_genus (by rw [hreg, h]; rfl)
    rw [a.text_of_header (by rw [hr]; rfl) (fun f => by rw [hr]; rfl), hsingle]
  | definition h =>
    have hr : a.rule = .handler .definition := a.rule_of_genus (by rw [hreg, h]; rfl)
    rw [a.definition_text hr, hsingle]
  | alternative h =>
    have hr : a.rule = .handler .alternative := a.rule_of_genus (by rw [hreg, h]; rfl)
    have htest := a.fillings_value_of_mem (i := 0) (by simp [hr, Rule.slots, Handler.slots])
    have hthen := a.fillings_body_of_mem (i := 1) (by simp [hr, Rule.slots, Handler.slots])
    have helse := a.fillings_body_of_mem (i := 2) (by simp [hr, Rule.slots, Handler.slots])
    rw [a.compileBlock_value, hr]
    simp [Rule.render, Handler.render, Handler.header, Rendered.ofText, htest, hthen, helse]
  | event e h =>
    have hr : a.rule = .handler (.event e) := a.rule_of_genus (by rw [hreg, h]; cases e <;> rfl)
    have hpattern := a.fillings_value_of_mem (i := 0) (by simp [hr, Rule.slots, Handler.slots])
    have hbody := a.fillings_body_of_mem (i := 1) (by simp [hr, Rule.slots, Handler.slots])
    rw [a.compileBlock_value, hr]
    simp [Rule.render, Handler.render, Rendered.ofText, hpattern, hbody, String.append_assoc]

theorem text_of_part (hreg : c.registry = .standard) (h : a.Headed parts tail) {header : String}
    {i : Nat} (hpart : (header, i) ∈ parts) :
    ∃ before after, (before = "" ∨ ∃ t, before = t ++ "\n") ∧
      (c.compileBlock a.path a.block).value =
        before ++ (header ++ "\n" ++ closeRows (innerRows c.options.indent (a.statements i))) ++
          after := by
  let body := fun p : String × Nat => bodyText c.options p.1 true (a.statements p.2)
  have hclosed (ps : List (String × Nat)) :
      String.join (ps.map body) = "" ∨ ∃ t, String.join (ps.map body) = t ++ "\n" := by
    rcases List.eq_nil_or_concat' ps with rfl | ⟨ps, p, rfl⟩
    · exact .inl rfl
    · obtain ⟨init, row, hrows⟩ := (List.eq_nil_or_concat' _).resolve_left
        (innerRows_ne_nil c.options.indent (a.statements p.2))
      refine .inr ⟨String.join (ps.map body) ++ (p.1 ++ "\n" ++ closeRows init ++ String.ofList row), ?_⟩
      simp [body, bodyText_innerRows, hrows, closeRows_append, closeRows_singleton, String.append_assoc]
  obtain ⟨before, after, rfl⟩ := List.append_of_mem hpart
  refine ⟨_, String.join (after.map body) ++ tail, hclosed before, ?_⟩
  rw [text_of_headed hreg h]
  simp [body, bodyText_innerRows, String.append_assoc]

theorem text_of_level (hreg : c.registry = .standard) (h : a.block.genus = "runOnce") :
    (c.compileBlock a.path a.block).value = bodyText c.options none false (a.statements 0) := by
  have hr : a.rule = .handler .sequence := a.rule_of_genus (by rw [hreg, h]; rfl)
  have hbody := a.fillings_body_of_mem (i := 0) (by simp [hr, Rule.slots, Handler.slots])
  rw [a.compileBlock_value, hr, Rule.render, Handler.render, hbody]
  rfl

end Application

theorem Registry.standard_lacks_return :
    ∀ e ∈ standard.rules, ∀ t ∈ e.2.texts, Lacks '\r' t := by
  decide +kernel

namespace Context

variable {g : BlockGraph} {o : Options}

theorem lacks_return (hunit : Lacks '\r' o.indent) (hblocks : ∀ b ∈ g.blocks, b.Lacks '\r') :
    let c : Context := ⟨.ofGraph g, .standard, o⟩
    (∀ path b, b ∈ g.blocks → Lacks '\r' (c.compileBlock path b).value) ∧
      ∀ path seen b, b ∈ g.blocks → ∀ t ∈ (c.compileChain path seen b).value, Lacks '\r' t := by
  intro c
  have hclosed (p q : Place) (hp : p.block ∈ g.blocks) (h : c.Expands p q) : q.block ∈ g.blocks := by
    cases h with
    | value _ _ hd => exact Lookup.mem_of_link (link_of_child hd)
    | body _ _ hd => exact Lookup.mem_of_link (link_of_child hd)
    | first => exact hp
    | next hd => exact Lookup.mem_of_link (link_of_successor hd)
  exact lacks_compile (c := c) (P := fun p => p.block ∈ g.blocks) (fun _ => hunit) hclosed fun b hb =>
    ⟨(hblocks b hb).texts, fun r hr => Registry.standard_lacks_return _ (Registry.mem_rules_of_rule? hr)⟩

variable (hreturn : Lacks '\r' o.indent) (hblocks : ∀ b ∈ g.blocks, b.Lacks '\r')

include hreturn hblocks

theorem lacks_return_statements {a : Application ⟨.ofGraph g, .standard, o⟩} (i : Nat) :
    ∀ t ∈ a.statements i, Lacks '\r' t := by
  intro t ht
  unfold Application.statements at ht
  split at ht
  · next first hfirst =>
    have hmem : first ∈ g.blocks := Lookup.mem_of_link (link_of_child hfirst)
    exact (lacks_return hreturn hblocks).2 _ _ _ hmem t ht
  · cases ht

theorem layout_of_headed {a : Application ⟨.ofGraph g, .standard, o⟩}
    {parts : List (String × Nat)} {tail : String} (h : a.Headed parts tail) :
    (compileBlock ⟨.ofGraph g, .standard, o⟩ a.path a.block).value =
      String.join (parts.map fun p => layout o.indent p.1 (a.statements p.2)) ++ tail := by
  rw [Application.text_of_headed rfl h]
  congr 2
  refine List.map_congr_left fun p _ => ?_
  exact bodyText_indented (lacks_return_statements hreturn hblocks p.2) p.1

theorem rows_of_within (hfeed : Lacks '\n' o.indent) {n : Nat} {path path' : Trail} {b d : Block}
    (h : Within ⟨.ofGraph g, .standard, o⟩ n path b path' d) :
    let c : Context := ⟨.ofGraph g, .standard, o⟩
    let text := (c.compileBlock path' d).value
    blankText text = false → (rows (dropFeeds text)).map (atDepth o.indent n) <:+:
      rows (c.compileBlock path b).value := by
  intro c text hblank
  have hfull (n : Nat) : EndsFull ((rows (dropFeeds text)).map (atDepth o.indent n)) :=
    (endsFull_rows_dropFeeds (dropFeeds_ne_empty hblank)).map_atDepth o.indent n
  -- from the innermost body outwards: each body that is left adds one unit to the rows
  induction h with
  | self =>
    simp only [funext (atDepth_zero o.indent), List.map_id']
    exact (prefix_rows_dropFeeds _).isInfix
  | level a hgenus hfirst hpart _ ih =>
    have hinner := ih hblank hfull
    have hmem := a.mem_statements hfirst hpart
    rw [Application.text_of_level rfl hgenus]
    exact (infix_rows_dropFeeds (hfull _) hinner).trans
      (infix_rows_level hmem (not_blank_of_deeper hblank hinner))
  | @body a n i parts header tail first d e path' hheaded hpart hfirst hchain _ ih =>
    have hinner := ih hblank hfull
    have hmem := a.mem_statements hfirst hchain
    have hdeeper := (infix_rows_dropFeeds (hfull n) hinner).map (atDepth o.indent 1)
    have hdepth : atDepth o.indent 1 ∘ atDepth o.indent n = atDepth o.indent (n + 1) :=
      funext fun row => (atDepth_succ o.indent n row).symm
    rw [List.map_map, hdepth] at hdeeper
    have hbody := hdeeper.trans (infix_bodyRows hmem (not_blank_of_deeper hblank hinner))
    obtain ⟨before, after, -, htext⟩ := Application.text_of_part rfl hheaded hpart
    rw [htext, innerRows_eq_bodyRows (lacks_return_statements hreturn hblocks i)]
    exact hbody.trans (infix_rows_closeRows (feed_notMem_bodyRows hfeed) before header after)

theorem layout_nested (hfeed : Lacks '\n' o.indent) :
    let c : Context := ⟨.ofGraph g, .standard, o⟩
    (∀ (a : Application c) parts tail, a.Headed parts tail →
      let bodies := parts.map fun p => layout o.indent p.1 (a.statements p.2)
      (c.compileBlock a.path a.block).value = String.join bodies ++ tail ∧
        ∀ t ∈ bodies, dropFeeds t ++ "\n" = t) ∧
    ∀ n path b path' d, c.Within n path b path' d →
      let text := (c.compileBlock path' d).value
      blankText text = false → (rows (dropFeeds text)).map (atDepth o.indent n) <:+:
        rows (c.compileBlock path b).value := by
  intro c
  refine ⟨fun a parts tail h => ⟨layout_of_headed hreturn hblocks h, fun t ht => ?_⟩, ?_⟩
  · obtain ⟨p, -, rfl⟩ := List.mem_map.1 ht
    exact dropFeeds_layout hfeed p.1 (a.statements p.2)
  · intro n path b path' d h
    exact rows_of_within hreturn hblocks hfeed h

end Context

namespace Block

def outerLoop : Block :=
  { ofGenus "while" with
    id := .ofNat 1
    sockets := [Socket.any "test", (Socket.any "do").connect (.ofNat 2)] }

def innerTest : Block :=
  { ofGenus "if" with
    id := .ofNat 2
    sockets := [Socket.any "test", (Socket.any "then").connect (.ofNat 3)] }

def innerBreak : Block :=
  { ofGenus "break" with id := .ofNat 3 }

end Block

def BlockGraph.breakInLoop : BlockGraph where
  blocks := [.outerLoop, .innerTest, .innerBreak]
  named := by decide
  distinct := by decide

theorem Context.layout_nested_breakInLoop :
    let c : Context := ⟨.ofGraph .breakInLoop, .standard, .standard⟩
    let text := (c.compileBlock .empty .outerLoop).value
    (∃ statements, text = layout "\t" "while True:" statements ∧ dropFeeds text ++ "\n" = text) ∧
      ["\t\tbreak".toList] <:+: rows text := by
  intro c text
  let a : Application c := ⟨.empty, .outerLoop, .handler .loop, Trail.notMem_empty _, rfl⟩
  let e : Application c := ⟨a.inner, .innerTest, .handler .conditional, by decide, rfl⟩
  have hblocks : ∀ b ∈ BlockGraph.breakInLoop.blocks, b.Lacks '\r' := by
    intro b hb
    have hbare : b.label = none ∧ b.properties = .empty := by
      simp only [BlockGraph.breakInLoop, List.mem_cons, List.not_mem_nil, or_false] at hb
      rcases hb with rfl | rfl | rfl <;> exact ⟨rfl, rfl⟩
    constructor
    · intro t ht
      rw [hbare.1] at ht
      cases ht
    · intro key t ht
      rw [Block.property?, hbare.2] at ht
      cases ht
  obtain ⟨hlayout, hrows⟩ := layout_nested (g := .breakInLoop) (o := .standard) (by decide) hblocks
    (by decide)
  refine ⟨⟨a.statements 1, ?_⟩, ?_⟩
  · have hloop : a.Headed [("while " ++ (a.socket 0).getD "True" ++ ":", 1)] "" := .loop rfl
    obtain ⟨htext, hends⟩ := hlayout a _ _ hloop
    have hsocket : a.socket 0 = none := rfl
    rw [hsocket] at htext hends
    rw [List.map_singleton, String.join_cons, String.join_nil, String.append_empty,
      String.append_empty] at htext
    have hjoin : text = layout "\t" "while True:" (a.statements 1) := htext
    exact ⟨hjoin, hjoin ▸ hends _ (List.mem_singleton_self _)⟩
  · have hfirst (b : Block) : c.ChainPart .empty b b :=
      (chainPart_iff (Trail.notMem_empty _) (by decide)).2 (.inl rfl)
    have hinner : c.Within 1 e.path e.block e.inner .innerBreak :=
      .body e (.conditional rfl) (List.mem_singleton_self _) rfl (hfirst _) .self
    have hwithin : c.Within 2 .empty .outerLoop e.inner .innerBreak :=
      .body a (.loop rfl) (List.mem_singleton_self _) rfl (hfirst _) hinner
    let f : Application c := ⟨e.inner, .innerBreak, .constant "break" none, by decide, rfl⟩
    have hbreak : (c.compileBlock e.inner .innerBreak).value = "break" := f.compileBlock_value
    have hinfix := hrows 2 _ _ _ _ hwithin
    rw [hbreak] at hinfix
    exact hinfix (by decide)

end VisualProgram
