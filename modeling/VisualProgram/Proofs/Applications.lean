import VisualProgram.Proofs.Walks

namespace VisualProgram

theorem lookup_zip_map {α β : Type} [BEq α] [LawfulBEq α] (f : α → β) (as : List α) (a : α) :
    (as.zip (as.map f)).lookup a = if a ∈ as then some (f a) else none := by
  induction as with
  | nil => rfl
  | cons x xs ih =>
    rw [List.map_cons, List.zip_cons_cons, List.lookup_cons, ih]
    by_cases h : a = x
    · simp [h]
    · have hx : (a == x) = false := beq_eq_false_iff_ne.2 h
      simp [h, hx]

namespace Fillings

variable {slots : List Slot} {f : Slot → Filling} {i : Nat}

theorem value_zip_map {text : Option String} (h : f (.value i) = .value text) :
    value (slots.zip (slots.map f)) i = if .value i ∈ slots then text else none := by
  rw [value, lookup_zip_map, h]
  by_cases hi : .value i ∈ slots <;> simp only [hi, if_true, if_false]

theorem body_zip_map {statements : List String} (h : f (.body i) = .body statements) :
    body (slots.zip (slots.map f)) i = if .body i ∈ slots then statements else [] := by
  rw [body, lookup_zip_map, h]
  by_cases hi : .body i ∈ slots <;> simp only [hi, if_true, if_false]

end Fillings

theorem Registry.mem_rules_of_rule? {r : Registry} {genus : String} {rule : Rule}
    (h : r.rule? genus = some rule) : (genus, rule) ∈ r.rules := by
  obtain ⟨_, _, hrules, -⟩ := List.lookup_eq_some_iff.1 h
  simp [hrules]

theorem Block.target?_of_le {b : Block} {i : Nat} (h : b.sockets.length ≤ i) : b.target? i = none := by
  rw [target?, socket?, List.getElem?_eq_none h]
  rfl

structure Application (c : Context) where
  path : Trail
  block : Block
  rule : Rule
  fresh : block.id ∉ path
  ruled : c.registry.rule? block.genus = some rule

namespace Application

open Text

variable {c : Context} (a : Application c)

def inner : Trail :=
  a.path.push a.block.id a.fresh

def socket (index : Nat) : Option String :=
  (c.child a.block index).value.map fun d => (c.compileBlock a.inner d).value

def name (index : Nat) : String :=
  unquote ((a.socket index).getD "")

def statements (index : Nat) : List String :=
  match (c.child a.block index).value with
  | some first => (c.compileChain a.inner .empty first).value
  | none => []

def fillings : Fillings :=
  (a.rule.slots a.block).zip
    ((a.rule.slots a.block).map fun s => (c.compileSlot a.inner a.block s).value)

theorem compileSlot_value (i : Nat) :
    (c.compileSlot a.inner a.block (.value i)).value = .value (a.socket i) := by
  rw [socket]
  cases h : (c.child a.block i).value with
  | none =>
    have hnone : (c.child a.block (Slot.value i).index).value = none := h
    rw [Context.compileSlot_of_none hnone]
    rfl
  | some d =>
    have hsome : (c.child a.block (Slot.value i).index).value = some d := h
    rw [Context.compileSlot_of_some hsome]
    rfl

theorem socket_of_le {i : Nat} (h : a.block.sockets.length ≤ i) : a.socket i = none := by
  rw [socket, Context.child_value, Block.target?_of_le h]
  rfl

theorem statements_of_le {i : Nat} (h : a.block.sockets.length ≤ i) : a.statements i = [] := by
  have hchild : (c.child a.block i).value = none := by
    rw [Context.child_value, Block.target?_of_le h]
    rfl
  rw [statements, hchild]

theorem compileSlot_body (i : Nat) :
    (c.compileSlot a.inner a.block (.body i)).value = .body (a.statements i) := by
  rw [statements]
  cases h : (c.child a.block i).value with
  | none =>
    have hnone : (c.child a.block (Slot.body i).index).value = none := h
    rw [Context.compileSlot_of_none hnone]
  | some d =>
    have hsome : (c.child a.block (Slot.body i).index).value = some d := h
    rw [Context.compileSlot_of_some hsome]
    rfl

theorem fillings_value (i : Nat) : a.fillings.value i =
    if .value i ∈ a.rule.slots a.block then a.socket i else none :=
  Fillings.value_zip_map (a.compileSlot_value i)

theorem fillings_body (i : Nat) : a.fillings.body i =
    if .body i ∈ a.rule.slots a.block then a.statements i else [] :=
  Fillings.body_zip_map (a.compileSlot_body i)

theorem fillings_value_of_mem {i : Nat} (h : .value i ∈ a.rule.slots a.block) :
    a.fillings.value i = a.socket i := by
  rw [fillings_value, if_pos h]

theorem fillings_body_of_mem {i : Nat} (h : .body i ∈ a.rule.slots a.block) :
    a.fillings.body i = a.statements i := by
  rw [fillings_body, if_pos h]

theorem fillings_value_of_call (h : a.rule = .handler .call ∨ a.rule = .handler .importedCall) :
    a.fillings.value = a.socket := by
  funext i
  have hmem : .value i ∈ a.rule.slots a.block ↔ i < a.block.sockets.length := by
    rcases h with h | h <;> simp [h, Rule.slots, Handler.slots]
  rw [fillings_value]
  split
  · rfl
  · next hi => rw [a.socket_of_le (Nat.le_of_not_lt (mt hmem.2 hi))]

theorem mem_statements {i : Nat} {first d : Block}
    (hfirst : (c.child a.block i).value = some first) (hpart : c.ChainPart .empty first d) :
    (c.compileBlock a.inner d).value ∈ a.statements i := by
  rw [statements, hfirst]
  exact hpart.text_mem a.inner

theorem compileBlock_value : (c.compileBlock a.path a.block).value =
    (a.rule.render c.options a.block a.fillings).text := by
  rw [Context.compileBlock_of_rule a.fresh a.ruled, Context.applyRule_eq]
  rfl

theorem rule_of_genus {rule : Rule} (h : c.registry.rule? a.block.genus = some rule) :
    a.rule = rule :=
  Option.some.inj (a.ruled.symm.trans h)

theorem call_text (h : a.rule = .handler .call) : (c.compileBlock a.path a.block).value =
    callText (a.name 0) ((List.range' 1 (a.block.sockets.length - 1)).filterMap a.socket) := by
  rw [a.compileBlock_value, h]
  simp only [Rule.render, Handler.render, Fillings.name, Fillings.present,
    a.fillings_value_of_call (.inl h)]
  rfl

theorem definition_text (h : a.rule = .handler .definition) :
    (c.compileBlock a.path a.block).value =
      bodyText c.options
        ("def " ++ callText (a.name 0)
          ((List.range' 1 (a.block.bodyIndex - 1)).filterMap a.socket) ++ ":" : String)
        true (a.statements a.block.bodyIndex) := by
  have hvalue (i : Nat) (hi : i < a.block.bodyIndex) : a.fillings.value i = a.socket i := by
    apply a.fillings_value_of_mem
    simpa [h, Rule.slots, Handler.slots] using hi
  have hname : a.fillings.value 0 = a.socket 0 := by
    by_cases hempty : a.block.sockets.length = 0
    · rw [fillings_value, a.socket_of_le (Nat.le_of_eq hempty), ite_self]
    · apply hvalue
      rw [Block.bodyIndex]
      split <;> omega
  have hparameters : (List.range' 1 (a.block.bodyIndex - 1)).filterMap a.fillings.value =
      (List.range' 1 (a.block.bodyIndex - 1)).filterMap a.socket := by
    refine List.filterMap_congr fun i hi => hvalue i ?_
    rw [List.mem_range'_1] at hi
    omega
  have hbody : a.fillings.body a.block.bodyIndex = a.statements a.block.bodyIndex := by
    apply a.fillings_body_of_mem
    simp [h, Rule.slots, Handler.slots]
  rw [a.compileBlock_value, h]
  simp only [Rule.render, Handler.render, Fillings.name, Fillings.present, hname, hparameters, hbody]
  rfl

end Application

namespace Context

/-- Compiling a block inside the blocks of a path comes to an application of a rule. -/
inductive Applies (c : Context) : Trail → Block → Application c → Prop
  | self (a : Application c) : Applies c a.path a.block a
  | value (a : Application c) {i : Nat} {d : Block} {e : Application c} :
      .value i ∈ a.rule.slots a.block → (c.child a.block i).value = some d →
      Applies c a.inner d e → Applies c a.path a.block e
  | body (a : Application c) {i : Nat} {first d : Block} {e : Application c} :
      .body i ∈ a.rule.slots a.block → (c.child a.block i).value = some first →
      c.ChainPart .empty first d → Applies c a.inner d e → Applies c a.path a.block e

theorem Applies.mem {c : Context} {g : BlockGraph} {path : Trail} {b : Block}
    {a : Application c} (hg : c.lookup = .ofGraph g) (hb : b ∈ g.blocks)
    (h : c.Applies path b a) : a.block ∈ g.blocks := by
  induction h with
  | self a => exact hb
  | value a _ hd _ ih => exact ih (Lookup.mem_of_link (hg ▸ link_of_child hd))
  | body a _ hd hpart _ ih => exact ih (hpart.mem hg (Lookup.mem_of_link (hg ▸ link_of_child hd)))

end Context

end VisualProgram
