import VisualProgram.Proofs.Imports

/-!
Names out of sockets. A text loses two quotation marks where it begins and ends with one. The text of
a literal always does so and that of a call never does. The text of an operator does if its first
operand begins with a mark and its second one ends with a mark, although it is no literal.
-/

namespace VisualProgram

namespace Text

theorem toList_quote (text : String) : (quote text).toList = '"' :: text.toList ++ ['"'] := by
  simp [quote]

theorem eq_of_unquoteChars? {cs ds : List Char} (h : unquoteChars? cs = some ds) :
    cs = '"' :: ds ++ ['"'] := by
  unfold unquoteChars? at h
  split at h
  · next rest =>
    split at h
    · next hlast =>
      cases h
      rw [List.cons_append, List.dropLast_append_getLast? _ hlast]
    · cases h
  · cases h

theorem unquote_eq_self {text : String} (h : ∀ s, text ≠ quote s) : unquote text = text := by
  unfold unquote
  split
  · next cs hcs =>
    refine absurd (String.toList_inj.1 ?_) (h (String.ofList cs))
    rw [toList_quote, String.toList_ofList, eq_of_unquoteChars? hcs]
  · rfl

theorem spaced_eq_marked_iff {left between right cs : List Char} :
    left ++ ' ' :: between ++ ' ' :: right = '"' :: cs ++ ['"'] ↔
      ∃ l r, left = '"' :: l ∧ right = r ++ ['"'] ∧ cs = l ++ ' ' :: between ++ ' ' :: r := by
  constructor
  · intro h
    cases left with
    | nil => simp at h
    | cons c l =>
      simp only [List.cons_append, List.cons.injEq] at h
      obtain ⟨rfl, h⟩ := h
      rcases List.eq_nil_or_concat right with rfl | ⟨r, x, rfl⟩
      · obtain ⟨-, hx⟩ := List.append_inj' h rfl
        simp at hx
      · rw [List.concat_eq_append, ← List.cons_append, ← List.append_assoc] at h
        obtain ⟨hcs, hx⟩ := List.append_inj' h rfl
        simp only [List.cons.injEq, and_true] at hx
        exact ⟨l, r, rfl, by rw [hx, List.concat_eq_append], hcs.symm⟩
  · rintro ⟨l, r, rfl, rfl, rfl⟩
    simp

theorem spaced_eq_quote_iff {left between right s : String} :
    left ++ " " ++ between ++ " " ++ right = quote s ↔
      ∃ l r, left = "\"" ++ l ∧ right = r ++ "\"" ∧ s = l ++ " " ++ between ++ " " ++ r := by
  rw [← String.toList_inj, toList_quote]
  have hchars : (left ++ " " ++ between ++ " " ++ right).toList =
      left.toList ++ ' ' :: between.toList ++ ' ' :: right.toList := by simp
  rw [hchars, spaced_eq_marked_iff]
  constructor
  · rintro ⟨l, r, hl, hr, hs⟩
    refine ⟨String.ofList l, String.ofList r, ?_, ?_, ?_⟩ <;> apply String.toList_inj.1
    · simp [hl]
    · simp [hr]
    · simp [hs]
  · rintro ⟨l, r, rfl, rfl, rfl⟩
    exact ⟨l.toList, r.toList, by simp, by simp, by simp⟩

theorem callText_ne_quote (name : String) (arguments : List String) (s : String) :
    callText name arguments ≠ quote s := by
  intro h
  have hchars := congrArg String.toList h
  rw [toList_quote] at hchars
  simp only [callText, String.toList_append] at hchars
  obtain ⟨-, hx⟩ := List.append_inj' hchars rfl
  simp at hx

end Text

def Rule.isCall : Rule → Bool
  | call _ _ _ _ | handler .call | handler .importedCall => true
  | _ => false

namespace Registry

def plainOperator : Rule → Bool
  | .operator token _ sockets =>
    sockets = [0, 1] || sockets = [0] && (token = "not" || token = "return")
  | _ => true

theorem plainOperator_standard : standard.rules.all fun e => plainOperator e.2 := by
  decide

theorem operator_of_standard {genus token missing : String} {sockets : List Nat}
    (h : standard.rule? genus = some (.operator token missing sockets)) :
    sockets = [0, 1] ∨ sockets = [0] ∧ (token = "not" ∨ token = "return") := by
  simpa [plainOperator] using List.all_eq_true.1 plainOperator_standard _ (mem_rules_of_rule? h)

end Registry

namespace Application

open Text

variable {c : Context} (a : Application c)

theorem operator_text {token missing : String} {sockets : List Nat}
    (h : a.rule = .operator token missing sockets) : (c.compileBlock a.path a.block).value =
      operatorText token missing (sockets.map fun i => (a.socket i).getD missing) := by
  have hvalue (i : Nat) (hi : i ∈ sockets) : a.fillings.value i = a.socket i := by
    apply a.fillings_value_of_mem
    rw [h]
    exact List.mem_map_of_mem hi
  rw [compileBlock_value, h, Rule.render]
  simp only [Rendered.ofText]
  rw [List.map_congr_left fun i hi => by rw [hvalue i hi]]

theorem operator_text_eq_quote_iff (hreg : c.registry = .standard) {token missing s : String}
    {sockets : List Nat} (h : a.rule = .operator token missing sockets) :
    (c.compileBlock a.path a.block).value = quote s ↔ sockets = [0, 1] ∧ ∃ l r,
      (a.socket 0).getD missing = "\"" ++ l ∧ (a.socket 1).getD missing = r ++ "\"" ∧
        s = l ++ " " ++ token ++ " " ++ r := by
  have hstandard : Registry.standard.rule? a.block.genus = some (.operator token missing sockets) := by
    rw [← hreg, a.ruled, h]
  rw [a.operator_text h]
  obtain rfl | ⟨rfl, htoken⟩ := Registry.operator_of_standard hstandard
  · simp only [List.map_cons, List.map_nil, operatorText, spaced_eq_quote_iff, true_and]
  · simp only [List.map_cons, List.map_nil, operatorText]
    constructor
    · -- such a text begins with a letter
      intro hs
      have hchars := congrArg String.toList hs
      rcases htoken with rfl | rfl <;> simp [toList_quote] at hchars
    · rintro ⟨h, -⟩
      cases h

theorem name_of_child {i : Nat} {d : Block} (h : (c.child a.block i).value = some d) :
    a.name i = unquote (c.compileBlock a.inner d).value := by
  rw [name, socket, h]
  rfl

theorem text_ne_quote_of_call (h : a.rule.isCall = true) (s : String) :
    (c.compileBlock a.path a.block).value ≠ quote s := by
  cases hr : a.rule with
  | call name missing sockets module =>
    rw [a.compileBlock_value, hr]
    exact callText_ne_quote _ _ _
  | handler x =>
    cases x with
    | call =>
      rw [a.call_text hr]
      exact callText_ne_quote _ _ _
    | importedCall =>
      rw [a.importedCall_text hr]
      exact callText_ne_quote _ _ _
    | _ => simp [hr, Rule.isCall] at h
  | _ => simp [hr, Rule.isCall] at h

end Application

namespace Context

variable {c : Context} {g : BlockGraph} {path : Trail} {b : Block} {a : Application c}

def ReaderId (c : Context) (g : BlockGraph) (id : BlockId) : Prop :=
  ∃ x ∈ g.blocks, x.id = id ∧ ∃ r, c.registry.rule? x.genus = some r ∧ r.slots x ≠ []

theorem readerId_of_inner {s : Slot} (hs : s ∈ a.rule.slots a.block) (ha : a.block ∈ g.blocks)
    {id : BlockId} (hid : id ∈ a.inner) : id ∈ a.path ∨ c.ReaderId g id := by
  rcases (Trail.mem_push a.fresh).1 hid with rfl | hpath
  · exact .inr ⟨a.block, ha, rfl, a.rule, a.ruled, List.ne_nil_of_mem hs⟩
  · exact .inl hpath

theorem Applies.readerId (hg : c.lookup = .ofGraph g) (hb : b ∈ g.blocks)
    (h : c.Applies path b a) {id : BlockId} (hid : id ∈ a.path) : id ∈ path ∨ c.ReaderId g id := by
  induction h with
  | self a => exact .inl hid
  | value a hs hd _ ih =>
    rcases ih (Lookup.mem_of_link (hg ▸ link_of_child hd)) hid with hinner | hread
    · exact readerId_of_inner hs hb hinner
    · exact .inr hread
  | body a hs hd hpart _ ih =>
    have hfirst := Lookup.mem_of_link (hg ▸ link_of_child hd)
    rcases ih (hpart.mem hg hfirst) hid with hinner | hread
    · exact readerId_of_inner hs hb hinner
    · exact .inr hread

theorem string_fresh {o : Options} (hb : b ∈ g.blocks) {a : Application ⟨.ofGraph g, .standard, o⟩}
    (ha : Applies ⟨.ofGraph g, .standard, o⟩ .empty b a) {d : Block} (hd : d ∈ g.blocks)
    (hstring : d.genus = "string") (hgenus : a.block.genus ≠ "string") : d.id ∉ a.inner := by
  intro hmem
  rcases (Trail.mem_push a.fresh).1 hmem with hid | hpath
  · exact hgenus (BlockGraph.eq_of_id_eq hd (ha.mem rfl hb) hid ▸ hstring)
  · -- what is on the path reads sockets, and a literal has none to read
    rcases ha.readerId rfl hb hpath with hempty | ⟨x, hx, hid, r, hr, hslots⟩
    · exact Trail.notMem_empty _ hempty
    · obtain rfl := BlockGraph.eq_of_id_eq hx hd hid
      rw [hstring] at hr
      cases hr
      exact hslots rfl

end Context

namespace Application

open Text

section

variable {g : BlockGraph} {b : Block} {o : Options}
  {a : Application ⟨.ofGraph g, .standard, o⟩}

theorem socket_of_string {i : Nat} {d : Block}
    (hd : (Context.child ⟨.ofGraph g, .standard, o⟩ a.block i).value = some d)
    (hfresh : d.id ∉ a.inner) (hstring : d.genus = "string") :
    a.socket i = some (quote (d.label.getD "")) := by
  let e : Application ⟨.ofGraph g, .standard, o⟩ :=
    ⟨a.inner, d, .handler .literal, hfresh, by
      rw [hstring]
      rfl⟩
  have htext : (Context.compileBlock _ e.path e.block).value = quote (d.label.getD "") :=
    e.compileBlock_value
  rw [socket, hd, Option.map_some, htext]

theorem name_of_string (hb : b ∈ g.blocks)
    (ha : Context.Applies ⟨.ofGraph g, .standard, o⟩ .empty b a)
    (hgenus : a.block.genus ≠ "string") {i : Nat} {d : Block}
    (hd : (Context.child ⟨.ofGraph g, .standard, o⟩ a.block i).value = some d)
    (hstring : d.genus = "string") : a.name i = d.label.getD "" := by
  have hmem : d ∈ g.blocks := Lookup.mem_of_link (Context.link_of_child hd)
  have hfresh := Context.string_fresh hb ha hmem hstring hgenus
  rw [name, a.socket_of_string hd hfresh hstring, Option.getD_some, unquote_quote]

theorem name_text (hb : b ∈ g.blocks)
    (ha : Context.Applies ⟨.ofGraph g, .standard, o⟩ .empty b a)
    (hgenus : a.block.genus ∈ ["callFunction", "callFunctionImport", "defineFunction"]) :
    let c : Context := ⟨.ofGraph g, .standard, o⟩
    let text := (c.compileBlock a.path a.block).value
    let present := fun first count => (List.range' first count).filterMap a.socket
    ((a.block.genus = "callFunction" →
        text = callText (a.name 0) (present 1 (a.block.sockets.length - 1))) ∧
      (a.block.genus = "callFunctionImport" →
        text = callText (qualify (trim (dropStart "import " (a.name 1))) (a.name 0))
          (present 2 (a.block.sockets.length - 2))) ∧
      (a.block.genus = "defineFunction" →
        text = bodyText o
          ("def " ++ callText (a.name 0) (present 1 (a.block.bodyIndex - 1)) ++ ":" : String) true
          (a.statements a.block.bodyIndex))) ∧
    (∀ i d, (c.child a.block i).value = some d →
      (d.genus = "string" → a.name i = d.label.getD "") ∧
      (d.id ∈ a.inner → a.name i = "") ∧
      ∀ rule, c.registry.rule? d.genus = some rule → rule.isCall = true →
        a.name i = (c.compileBlock a.inner d).value) ∧
    ∀ i (e : Application c), (c.child a.block i).value = some e.block → e.path = a.inner →
      ∀ token missing sockets, e.rule = .operator token missing sockets →
        let marked := fun l r => sockets = [0, 1] ∧
          (e.socket 0).getD missing = "\"" ++ l ∧ (e.socket 1).getD missing = r ++ "\""
        (∀ l r, marked l r → a.name i = l ++ " " ++ token ++ " " ++ r) ∧
        ((∀ l r, ¬marked l r) → a.name i = (c.compileBlock e.path e.block).value) := by
  intro c text present
  refine ⟨⟨fun h => ?_, fun h => ?_, fun h => ?_⟩, fun i d hd => ⟨?_, fun h => ?_, ?_⟩, ?_⟩
  · exact a.call_text (a.rule_of_genus (by rw [h]; rfl))
  · exact a.importedCall_text (a.rule_of_genus (by rw [h]; rfl))
  · exact a.definition_text (a.rule_of_genus (by rw [h]; rfl))
  · refine name_of_string hb ha ?_ hd
    rintro hstring
    rw [hstring] at hgenus
    revert hgenus
    decide
  · rw [a.name_of_child hd, Context.compileBlock_of_mem h]
    rfl
  · intro rule hr hcall
    rw [a.name_of_child hd]
    by_cases h : d.id ∈ a.inner
    · rw [Context.compileBlock_of_mem h]
      rfl
    · let e : Application c := ⟨a.inner, d, rule, h, hr⟩
      exact unquote_eq_self (e.text_ne_quote_of_call hcall)
  · rintro i e hd hpath token missing sockets hop marked
    have hname := a.name_of_child hd
    rw [← hpath] at hname
    rw [hname]
    refine ⟨fun l r h => ?_, fun h => ?_⟩
    · have hquote := (e.operator_text_eq_quote_iff rfl hop).2 ⟨h.1, l, r, h.2.1, h.2.2, rfl⟩
      rw [hquote, unquote_quote]
    · apply unquote_eq_self
      intro s hs
      obtain ⟨hsockets, l, r, hl, hr, -⟩ := (e.operator_text_eq_quote_iff rfl hop).1 hs
      exact h l r ⟨hsockets, hl, hr⟩

end

end Application

namespace Block

def joinedCall : Block :=
  { ofGenus "callFunction" with
    id := .ofNat 1
    sockets := [(Socket.any "name").connect (.ofNat 2)] }

def joinedTexts : Block :=
  { ofGenus "appendString" with
    id := .ofNat 2
    sockets := [(Socket.any "a").connect (.ofNat 3), (Socket.any "b").connect (.ofNat 4)] }

def leftText : Block :=
  { ofGenus "string" with id := .ofNat 3, label := some "a" }

def rightText : Block :=
  { ofGenus "string" with id := .ofNat 4, label := some "b" }

end Block

def BlockGraph.joinedName : BlockGraph where
  blocks := [.joinedCall, .joinedTexts, .leftText, .rightText]
  named := by decide
  distinct := by decide

theorem Application.name_text_joinedName :
    let c : Context := ⟨.ofGraph .joinedName, .standard, .standard⟩
    ∃ a e : Application c, c.Applies .empty .joinedCall a ∧
      a.block.genus ∈ ["callFunction", "callFunctionImport", "defineFunction"] ∧
      (c.child a.block 0).value = some e.block ∧ e.path = a.inner ∧
      (c.compileBlock e.path e.block).value = "\"a\" + \"b\"" ∧ a.name 0 = "a\" + \"b" ∧
      (c.compileBlock a.path a.block).value = "a\" + \"b()" := by
  intro c
  let a : Application c := ⟨.empty, .joinedCall, .handler .call, Trail.notMem_empty _, rfl⟩
  let e : Application c := ⟨a.inner, .joinedTexts, .operator "+" "" [0, 1], by decide, rfl⟩
  have hleftFresh : Block.leftText.id ∉ e.inner := by decide
  have hleft : e.socket 0 = some (Text.quote "a") := e.socket_of_string rfl hleftFresh rfl
  have hrightFresh : Block.rightText.id ∉ e.inner := by decide
  have hright : e.socket 1 = some (Text.quote "b") := e.socket_of_string rfl hrightFresh rfl
  have happlied : c.Applies .empty .joinedCall a := .self a
  have hgenus : a.block.genus ∈ ["callFunction", "callFunctionImport", "defineFunction"] := by decide
  obtain ⟨⟨hcall, -⟩, -, hoperator⟩ := name_text (by decide) happlied hgenus
  have hname : a.name 0 = "a\" + \"b" := by
    refine (hoperator 0 e rfl rfl "+" "" [0, 1] rfl).1 "a\"" "\"b" ⟨rfl, ?_, ?_⟩
    · rw [hleft]
      rfl
    · rw [hright]
      rfl
  refine ⟨a, e, happlied, hgenus, rfl, rfl, ?_, hname, ?_⟩
  · rw [e.operator_text rfl, List.map_cons, List.map_cons, List.map_nil, hleft, hright]
    rfl
  · rw [hcall rfl, hname]
    rfl

theorem Script.compile_joinedName :
    Script.compile ⟨.ofGraph .joinedName, .standard, .standard⟩ (.ofNat 1) =
      ⟨"a\" + \"b()", [], []⟩ := by
  apply Session.compile_of_pass (n := 4)
  decide +kernel

end VisualProgram
