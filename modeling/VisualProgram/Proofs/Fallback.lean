import VisualProgram.Proofs.Applications
import VisualProgram.Proofs.SharedPass
import VisualProgram.Registry.Standard

/-!
Sockets with a default. An empty socket reads as its default, and so does one whose id names no block.
A block that is refused, because it has no rule or is being compiled, is reported as well, but what
stands in its place is the empty text and not the default.
-/

namespace VisualProgram

def Handler.default? : Handler → Nat → Option String
  | getter, 0 => some "None"
  | functionKey, 0 => some "1"
  | conditional, 0 | alternative, 0 | loop, 0 => some "True"
  | repetition, 0 => some "1"
  | _, _ => none

def Rule.default? : Rule → Nat → Option String
  | constant _ _, _ => none
  | call _ missing sockets _, index => if index ∈ sockets then some missing else none
  | operator _ missing sockets, index => if index ∈ sockets then some missing else none
  | handler h, index => h.default? index

namespace Block

def unplug (b : Block) (index : Nat) : Block :=
  { b with sockets := b.sockets.modify index fun s => { s with block := none } }

variable (b : Block) (index : Nat)

theorem length_unplug : (b.unplug index).sockets.length = b.sockets.length :=
  List.length_modify ..

theorem target?_unplug (i : Nat) :
    (b.unplug index).target? i = if i = index then none else b.target? i := by
  unfold target? socket? unplug
  by_cases h : i = index
  · subst h
    rw [if_pos rfl, List.getElem?_modify_eq]
    cases b.sockets[i]? <;> rfl
  · have hne : index ≠ i := Ne.symm h
    simp only [h, if_false, List.getElem?_modify_ne _ _ hne]

end Block

namespace Rule

theorem slots_unplug (r : Rule) (b : Block) (index : Nat) : r.slots (b.unplug index) = r.slots b := by
  cases r with
  | handler h =>
    have hlabel : (b.unplug index).label = b.label := rfl
    cases h <;> simp only [slots, Handler.slots, Block.bodyIndex, b.length_unplug, hlabel]
  | _ => rfl

theorem render_unplug (r : Rule) (o : Options) (b : Block) (index : Nat) (f : Fillings) :
    r.render o (b.unplug index) f = r.render o b f := by
  cases r with
  | call name missing sockets module =>
    simp only [render, Fillings.arguments, Block.length_unplug]
  | handler h =>
    cases h <;> simp only [render, Handler.render, Block.bodyIndex, b.length_unplug] <;> rfl
  | _ => rfl

theorem value_mem_slots {r : Rule} {index : Nat} {m : String} (h : r.default? index = some m)
    (b : Block) : .value index ∈ r.slots b := by
  cases r with
  | constant _ _ => cases h
  | call _ _ sockets _ =>
    obtain ⟨hmem, -⟩ := Option.ite_none_right_eq_some.1 h
    exact List.mem_map_of_mem hmem
  | operator _ _ sockets =>
    obtain ⟨hmem, -⟩ := Option.ite_none_right_eq_some.1 h
    exact List.mem_map_of_mem hmem
  | handler x =>
    simp only [default?, Handler.default?] at h
    split at h <;> simp_all [slots, Handler.slots]

theorem eq_value_of_index {r : Rule} {index : Nat} {m : String} (h : r.default? index = some m)
    {b : Block} {s : Slot} (hs : s ∈ r.slots b) (hindex : s.index = index) : s = .value index := by
  subst hindex
  cases s with
  | value i => rfl
  | body i =>
    cases r with
    | constant _ _ => cases h
    | call _ _ sockets _ => simp [slots] at hs
    | operator _ _ sockets => simp [slots] at hs
    | handler x =>
      simp only [default?, Handler.default?, Slot.index] at h
      split at h <;> simp_all [slots, Handler.slots]

end Rule

namespace Application

variable {c : Context} (a : Application c)

def fillingsWith (index : Nat) (text : Option String) : Fillings :=
  (a.rule.slots a.block).zip ((a.rule.slots a.block).map fun s =>
    if s = .value index then .value text else (c.compileSlot a.inner a.block s).value)

/-- The text of the block if `text` were what there is in one of its sockets. -/
def textWith (index : Nat) (text : Option String) : String :=
  (a.rule.render c.options a.block (a.fillingsWith index text)).text

variable {index : Nat} {m : String}

theorem fillingsWith_value (text : Option String) (i : Nat) :
    (a.fillingsWith index text).value i =
      if .value i ∈ a.rule.slots a.block then if i = index then text else a.socket i else none := by
  apply Fillings.value_zip_map
  by_cases h : i = index
  · simp only [h, if_true]
  · simp only [Slot.value.injEq, h, if_false, compileSlot_value]

theorem fillingsWith_body (text : Option String) (i : Nat) :
    (a.fillingsWith index text).body i = a.fillings.body i := by
  rw [fillings_body]
  apply Fillings.body_zip_map
  simp only [reduceCtorEq, if_false, compileSlot_body]

theorem text_eq_textWith (index : Nat) :
    (c.compileBlock a.path a.block).value = a.textWith index (a.socket index) := by
  have hfillings : a.fillings = a.fillingsWith index (a.socket index) := by
    rw [fillings, fillingsWith]
    congr 2
    funext s
    split
    · next h => rw [h, compileSlot_value]
    · rfl
  rw [compileBlock_value, hfillings, textWith]

theorem textWith_none (h : a.rule.default? index = some m) :
    a.textWith index none = a.textWith index (some m) := by
  have hvalue (i : Nat) : ((a.fillingsWith index none).value i).getD m =
      ((a.fillingsWith index (some m)).value i).getD m := by
    rw [fillingsWith_value, fillingsWith_value]
    split
    · split <;> rfl
    · rfl
  have hbody (i : Nat) : (a.fillingsWith index none).body i = (a.fillingsWith index (some m)).body i := by
    rw [fillingsWith_body, fillingsWith_body]
  rw [textWith, textWith]
  cases hr : a.rule with
  | constant _ _ => rfl
  | call name missing sockets module =>
    simp only [hr, Rule.default?, Option.ite_none_right_eq_some, Option.some.injEq] at h
    simp only [Rule.render, Fillings.arguments, h.2, hvalue]
  | operator token missing sockets =>
    simp only [hr, Rule.default?, Option.ite_none_right_eq_some, Option.some.injEq] at h
    simp only [Rule.render, h.2, hvalue]
  | handler x =>
    simp only [hr, Rule.default?, Handler.default?] at h
    split at h <;> cases h
    -- a function key takes an empty text for its default, and so it does not read as `getD`
    case h_2 =>
      simp only [Rule.render, Handler.render, fillingsWith_value]
      split <;> rfl
    all_goals simp only [Rule.render, Handler.render, Handler.header, hvalue, hbody]

def unplug (index : Nat) : Application c where
  path := a.path
  block := a.block.unplug index
  rule := a.rule
  fresh := a.fresh
  ruled := a.ruled

theorem compileSlot_unplug (path : Trail) {s : Slot} (h : s.index ≠ index) :
    c.compileSlot path (a.block.unplug index) s = c.compileSlot path a.block s := by
  have hchild : c.child (a.block.unplug index) s.index = c.child a.block s.index := by
    unfold Context.child
    rw [Block.target?_unplug, if_neg h]
    rfl
  rw [Context.compileSlot, Context.compileSlot, hchild]

theorem textWith_unplug (h : a.rule.default? index = some m) (text : Option String) :
    (a.unplug index).textWith index text = a.textWith index text := by
  have hslots : a.rule.slots (a.block.unplug index) = a.rule.slots a.block :=
    a.rule.slots_unplug a.block index
  have hfillings : (a.unplug index).fillingsWith index text = a.fillingsWith index text := by
    unfold fillingsWith unplug
    dsimp only
    rw [hslots]
    congr 1
    refine List.map_congr_left fun s hs => ?_
    split
    · rfl
    · next hne =>
      exact congrArg Logged.value
        (a.compileSlot_unplug _ (mt (Rule.eq_value_of_index h hs) hne))
  rw [textWith, textWith, hfillings]
  exact congrArg Rendered.text (a.rule.render_unplug c.options a.block index _)

theorem socket_unplug (index : Nat) : (a.unplug index).socket index = none := by
  have htarget : (a.unplug index).block.target? index = none := by
    simp [unplug, Block.target?_unplug]
  rw [socket, Context.child_value, htarget]
  rfl

theorem reports_of_slot {x : Diagnostic} (h : a.rule.default? index = some m)
    (hx : x ∈ (c.compileSlot a.inner a.block (.value index)).log.diagnostics) :
    x ∈ (c.compileBlock a.path a.block).log.diagnostics := by
  rw [Context.diagnostics_compileBlock_of_rule a.fresh a.ruled]
  exact Context.mem_diagnostics_applyRule.2 ⟨_, Rule.value_mem_slots h a.block, hx⟩

theorem reports_of_child {x : Diagnostic} (h : a.rule.default? index = some m) {d : Block}
    (hd : (c.child a.block index).value = some d)
    (hx : x ∈ (c.compileBlock a.inner d).log.diagnostics) :
    x ∈ (c.compileBlock a.path a.block).log.diagnostics := by
  apply a.reports_of_slot h
  refine Context.mem_diagnostics_compileSlot.2 (.inr ⟨d, hd, ?_⟩)
  rwa [Slot.place, Context.diagnostics_compilePlace_value]

theorem failed_child {target : BlockId} (hdefault : a.rule.default? index = some m)
    (htarget : a.block.target? index = some target) :
    let result := c.compileBlock a.path a.block
    (c.compileBlock a.path (a.block.unplug index)).value = a.textWith index (some m) ∧
    (c.lookup.isValid target = false →
      .malformedReference a.block.id target ∈ result.log.diagnostics ∧
      result.value = a.textWith index (some m)) ∧
    ∀ d, c.lookup.block? target = some d →
      (d.id ∈ a.inner → .cyclicStructure d.id ∈ result.log.diagnostics ∧
        result.value = a.textWith index (some "")) ∧
      (d.id ∉ a.inner → c.registry.rule? d.genus = none →
        .unsupportedGenus d.id d.genus ∈ result.log.diagnostics ∧
        result.value = a.textWith index (some "")) := by
  intro result
  have htext : result.value = a.textWith index (a.socket index) := a.text_eq_textWith index
  refine ⟨?_, fun hvalid => ?_, fun d hd => ?_⟩
  · have hempty := (a.unplug index).text_eq_textWith index
    rwa [socket_unplug, a.textWith_unplug hdefault, a.textWith_none hdefault] at hempty
  · have hnone : a.socket index = none := by
      simp [socket, Context.child_value, htarget, Lookup.block?, hvalid]
    refine ⟨a.reports_of_slot hdefault (Context.mem_diagnostics_compileSlot.2 (.inl ?_)), ?_⟩
    · exact Context.mem_diagnostics_child.2 ⟨target, htarget, hvalid, rfl⟩
    · rw [htext, hnone, a.textWith_none hdefault]
  · have hchild : (c.child a.block index).value = some d :=
      Context.child_eq_some_iff.2 ⟨target, htarget, hd⟩
    have hsocket : a.socket index = some (c.compileBlock a.inner d).value := by
      rw [socket, hchild, Option.map_some]
    rw [htext, hsocket]
    refine ⟨fun hactive => ?_, fun hfresh hrule => ?_⟩
    · have hrefused := Context.compileBlock_of_mem (c := c) hactive
      exact ⟨a.reports_of_child hdefault hchild (by simp [hrefused, Log.report]), by rw [hrefused]⟩
    · have hrefused := Context.compileBlock_of_noRule hfresh hrule
      exact ⟨a.reports_of_child hdefault hchild (by simp [hrefused, Log.report]), by rw [hrefused]⟩

end Application

namespace Block

def testedUnknown : Block :=
  { ofGenus "if" with
    id := .ofNat 1
    sockets := [(Socket.any "test").connect (.ofNat 2), Socket.any "then"] }

def unknown : Block :=
  { ofGenus "teleport" with id := .ofNat 2 }

def testedItself : Block :=
  { ofGenus "while" with
    id := .ofNat 3
    sockets := [(Socket.any "test").connect (.ofNat 3), Socket.any "do"] }

end Block

def BlockGraph.refusedTests : BlockGraph where
  blocks := [.testedUnknown, .unknown, .testedItself]
  named := by decide
  distinct := by decide

def BlockGraph.emptyTests : BlockGraph where
  blocks := [Block.testedUnknown.unplug 0, Block.testedItself.unplug 0]
  named := by decide
  distinct := by decide

theorem Application.failed_child_testedUnknown :
    let c : Context := ⟨.ofGraph .refusedTests, .standard, .standard⟩
    ∃ a : Application c, a.block = .testedUnknown ∧
      (c.compileBlock a.path (a.block.unplug 0)).value = "if True:\n\tpass\n" ∧
      .unsupportedGenus (.ofNat 2) "teleport" ∈ (c.compileBlock a.path a.block).log.diagnostics ∧
      (c.compileBlock a.path a.block).value = "if :\n\tpass\n" := by
  intro c
  let a : Application c :=
    ⟨.empty, .testedUnknown, .handler .conditional, Trail.notMem_empty _, rfl⟩
  have hbody : a.statements 1 = [] := rfl
  have htext (test : String) : a.textWith 0 (some test) =
      bodyText .standard ("if " ++ test ++ ":" : String) true [] := by
    have hvalue : (a.fillingsWith 0 (some test)).value 0 = some test :=
      a.fillingsWith_value (some test) 0
    have hempty : (a.fillingsWith 0 (some test)).body 1 = [] := by
      rw [fillingsWith_body, fillings_body, hbody, ite_self]
    have hrender : a.textWith 0 (some test) = bodyText .standard
        (Handler.header (a.fillingsWith 0 (some test)) "if " "True" ":" : String) true
        ((a.fillingsWith 0 (some test)).body 1) := rfl
    rw [hrender, hempty, Handler.header, hvalue]
    rfl
  have hfresh : Block.unknown.id ∉ a.inner := by decide
  have hdefault : a.rule.default? 0 = some "True" := rfl
  have htarget : a.block.target? 0 = some Block.unknown.id := rfl
  obtain ⟨hempty, -, hrefused⟩ := a.failed_child hdefault htarget
  obtain ⟨hreport, hvalue⟩ := (hrefused .unknown rfl).2 hfresh rfl
  refine ⟨a, rfl, ?_, hreport, ?_⟩
  · rw [hempty, htext]
    decide
  · rw [hvalue, htext]
    decide

theorem Script.compile_refusedTests :
    let compile := fun g root => Script.compile ⟨.ofGraph g, .standard, .standard⟩ (.ofNat root)
    compile .refusedTests 1 =
        ⟨"if :\n\tpass\n", [], [.unsupportedGenus (.ofNat 2) "teleport"]⟩ ∧
      compile .emptyTests 1 = ⟨"if True:\n\tpass\n", [], []⟩ ∧
      compile .refusedTests 3 = ⟨"while :\n\tpass\n", [], [.cyclicStructure (.ofNat 3)]⟩ ∧
      compile .emptyTests 3 = ⟨"while True:\n\tpass\n", [], []⟩ := by
  intro compile
  refine ⟨Session.compile_of_pass (n := 1) ?_, Session.compile_of_pass (n := 1) ?_,
    Session.compile_of_pass (n := 1) ?_, Session.compile_of_pass (n := 1) ?_⟩
  all_goals decide +kernel

end VisualProgram
