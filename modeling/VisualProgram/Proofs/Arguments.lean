import VisualProgram.Proofs.Names

namespace VisualProgram

open Text

namespace Log

theorem join_append (ls ls' : List Log) : join (ls ++ ls') = join ls ++ join ls' := by
  simp [join, append_def]

theorem join_singleton (l : Log) : join [l] = l := by
  simp [join]

end Log

namespace Application

variable {c : Context} (a : Application c)

def held (index : Nat) : Option Block :=
  (a.block.target? index).bind c.lookup.block?

def argumentTexts (first count : Nat) : List String :=
  ((List.range' first count).filterMap a.held).map fun d => (c.compileBlock a.inner d).value

def slotLog (s : Slot) : Log :=
  match a.block.target? s.index with
  | none => .empty
  | some target =>
    match c.lookup.block? target with
    | none => .report (.malformedReference a.block.id target)
    | some d => (c.compilePlace a.inner (s.place d)).log

theorem filterMap_socket (first count : Nat) :
    (List.range' first count).filterMap a.socket = a.argumentTexts first count := by
  have hsocket (i : Nat) :
      a.socket i = (a.held i).map fun d => (c.compileBlock a.inner d).value := by
    rw [socket, Context.child_value]
    rfl
  rw [argumentTexts, List.map_filterMap]
  exact List.filterMap_congr fun i _ => hsocket i

theorem compileSlot_log {g : BlockGraph} (hg : c.lookup = .ofGraph g) (s : Slot) :
    (c.compileSlot a.inner a.block s).log = a.slotLog s := by
  have hnone (h : (c.child a.block s.index).value = none) :
      (c.compileSlot a.inner a.block s).log = (c.child a.block s.index).log := by
    rw [Context.compileSlot_of_none h]
  cases ht : a.block.target? s.index with
  | none =>
    have hchild : c.child a.block s.index = pure none := by rw [Context.child, ht]
    rw [hnone (by rw [hchild]; rfl), hchild, slotLog, ht]
    rfl
  | some target =>
    cases hd : c.lookup.block? target with
    | none =>
      have hvalid : c.lookup.isValid target = false := by
        rw [hg] at hd ⊢
        rw [← Bool.not_eq_true, Lookup.isValid_ofGraph_iff]
        rintro ⟨b, hb⟩
        rw [Lookup.block?_ofGraph, hb] at hd
        cases hd
      have hchild : c.child a.block s.index =
          ⟨none, .report (.malformedReference a.block.id target)⟩ := by
        rw [Context.child, ht]
        simp [Context.resolve, hvalid]
      rw [hnone (by rw [hchild]), hchild, slotLog, ht]
      simp only [hd]
    | some d =>
      rw [Context.compileSlot_of_some (Context.child_eq_some_iff.2 ⟨target, ht, hd⟩), slotLog, ht]
      simp only [hd]

theorem compileBlock_slotLog {g : BlockGraph} (hg : c.lookup = .ofGraph g) :
    (c.compileBlock a.path a.block).log = .join ((a.rule.slots a.block).map a.slotLog) ++
      (.require a.module?.toList ++ .done a.block.id) := by
  rw [a.compileBlock_log, funext (a.compileSlot_log hg)]

theorem slotLog_of_le {s : Slot} (h : a.block.sockets.length ≤ s.index) : a.slotLog s = .empty := by
  rw [slotLog, Block.target?_of_le h]

section

variable {g : BlockGraph} (hg : c.lookup = .ofGraph g)

include hg

theorem log_of_call (h : a.rule = .handler .call) : (c.compileBlock a.path a.block).log =
    .join ((List.range a.block.sockets.length).map fun i => a.slotLog (.value i)) ++
      .done a.block.id := by
  have hmodule : a.module? = none := by rw [module?, h]
  rw [a.compileBlock_slotLog hg, hmodule, h, Rule.slots, Handler.slots, List.map_map]
  rfl

theorem log_of_importedCall (h : a.rule = .handler .importedCall) :
    (c.compileBlock a.path a.block).log =
      .join ((List.range a.block.sockets.length).map fun i => a.slotLog (.value i)) ++
        (.require [a.socketModule] ++ .done a.block.id) := by
  have hmodule : a.module? = some a.socketModule := by rw [module?, h]
  rw [a.compileBlock_slotLog hg, hmodule, h, Rule.slots, Handler.slots, List.map_map]
  rfl

theorem log_of_definition (h : a.rule = .handler .definition) :
    (c.compileBlock a.path a.block).log =
      .join ((List.range a.block.bodyIndex).map fun i => a.slotLog (.value i)) ++
        a.slotLog (.body a.block.bodyIndex) ++ .done a.block.id := by
  have hmodule : a.module? = none := by rw [module?, h]
  rw [a.compileBlock_slotLog hg, hmodule, h, Rule.slots, Handler.slots, List.map_append,
    List.map_singleton, List.map_map, Log.join_append, Log.join_singleton]
  rfl

end

theorem text_of_bodyless (h : a.rule = .handler .definition) (hn : a.block.sockets.length < 2) :
    (c.compileBlock a.path a.block).value =
      "def " ++ a.name 0 ++ "():\n" ++ c.options.indent ++ "pass\n" := by
  have hbody : a.block.bodyIndex = a.block.sockets.length := if_neg (Nat.not_le_of_lt hn)
  have hparameters : a.block.sockets.length - 1 = 0 := by omega
  rw [a.definition_text h, hbody, hparameters, a.statements_of_le (Nat.le_refl _)]
  simp [bodyText, callText, String.append_assoc]

theorem sockets_by_position {g : BlockGraph} {o : Options}
    (a : Application ⟨.ofGraph g, .standard, o⟩) :
    let c : Context := ⟨.ofGraph g, .standard, o⟩
    let n := a.block.sockets.length
    let compiled := c.compileBlock a.path a.block
    (a.block.genus = "callFunction" →
      compiled.value = callText (a.name 0) (a.argumentTexts 1 (n - 1)) ∧
        compiled.log = .join ((List.range n).map fun i => a.slotLog (.value i)) ++
          .done a.block.id) ∧
    (a.block.genus = "callFunctionImport" →
      compiled.value = callText (qualify a.socketModule (a.name 0)) (a.argumentTexts 2 (n - 2)) ∧
        compiled.log = .join ((List.range n).map fun i => a.slotLog (.value i)) ++
          (.require [a.socketModule] ++ .done a.block.id)) ∧
    (a.block.genus = "defineFunction" →
      (2 ≤ n →
        compiled.value = bodyText o
            ("def " ++ callText (a.name 0) (a.argumentTexts 1 (n - 2)) ++ ":" : String) true
            (a.statements (n - 1)) ∧
          compiled.log = .join ((List.range (n - 1)).map fun i => a.slotLog (.value i)) ++
            a.slotLog (.body (n - 1)) ++ .done a.block.id) ∧
      (n < 2 →
        compiled.value = "def " ++ a.name 0 ++ "():\n" ++ o.indent ++ "pass\n" ∧
          compiled.log = .join ((List.range n).map fun i => a.slotLog (.value i)) ++
            .done a.block.id)) := by
  intro c n compiled
  refine ⟨fun hgenus => ?_, fun hgenus => ?_, fun hgenus => ?_⟩
  · have hr : a.rule = .handler .call := a.rule_of_genus (by rw [hgenus]; rfl)
    rw [← a.filterMap_socket]
    exact ⟨a.call_text hr, a.log_of_call rfl hr⟩
  · have hr : a.rule = .handler .importedCall := a.rule_of_genus (by rw [hgenus]; rfl)
    rw [← a.filterMap_socket]
    exact ⟨a.importedCall_text hr, a.log_of_importedCall rfl hr⟩
  · have hr : a.rule = .handler .definition := a.rule_of_genus (by rw [hgenus]; rfl)
    have htext := a.definition_text hr
    have hlog := a.log_of_definition rfl hr
    rw [a.filterMap_socket] at htext
    constructor
    · intro hn
      have hbody : a.block.bodyIndex = n - 1 := if_pos hn
      rw [hbody] at htext hlog
      exact ⟨htext, hlog⟩
    · intro hn
      have hbody : a.block.bodyIndex = n := if_neg (Nat.not_le_of_lt hn)
      rw [hbody, a.slotLog_of_le (s := .body n) (Nat.le_refl n), Log.append_empty] at hlog
      exact ⟨a.text_of_bodyless hr hn, hlog⟩

end Application

namespace Block

def patchy (genus : String) (id : BlockId) : Block :=
  { ofGenus genus with
    id
    sockets :=
      [(Socket.any "name").connect (.ofNat 4), (Socket.any "a").connect .null,
        (Socket.any "b").connect (.ofNat 5), (Socket.any "c").connect (.ofNat 9), Socket.any "d"] }

def patchyName : Block :=
  { ofGenus "string" with id := .ofNat 4, label := some "f" }

def patchyValue : Block :=
  { ofGenus "number" with id := .ofNat 5, label := some "4" }

end Block

def BlockGraph.patchySockets : BlockGraph where
  blocks :=
    [.patchy "callFunction" (.ofNat 1), .patchy "callFunctionImport" (.ofNat 2),
      .patchy "defineFunction" (.ofNat 3), .patchyName, .patchyValue]
  named := by decide
  distinct := by decide

theorem Script.compile_patchySockets :
    let c : Context := ⟨.ofGraph .patchySockets, .standard, .standard⟩
    let reports := fun id : BlockId =>
      [Diagnostic.malformedReference id .null, .malformedReference id (.ofNat 9)]
    compile c (.ofNat 1) = ⟨"f(4)", [], reports (.ofNat 1)⟩ ∧
      compile c (.ofNat 2) = ⟨"f(4)", [], reports (.ofNat 2)⟩ ∧
      compile c (.ofNat 3) = ⟨"def f(4):\n\tpass\n", [], reports (.ofNat 3)⟩ := by
  refine ⟨Session.compile_of_pass (n := 3) ?_, Session.compile_of_pass (n := 3) ?_,
    Session.compile_of_pass (n := 3) ?_⟩ <;>
  decide +kernel

theorem Application.sockets_by_position_patchy :
    let c : Context := ⟨.ofGraph .patchySockets, .standard, .standard⟩
    let call : Application c := ⟨.empty, .patchy "callFunction" (.ofNat 1), .handler .call,
      Trail.notMem_empty _, rfl⟩
    let imported : Application c := ⟨.empty, .patchy "callFunctionImport" (.ofNat 2),
      .handler .importedCall, Trail.notMem_empty _, rfl⟩
    let definition : Application c := ⟨.empty, .patchy "defineFunction" (.ofNat 3),
      .handler .definition, Trail.notMem_empty _, rfl⟩
    callText (call.name 0) (call.argumentTexts 1 4) = "f(4)" ∧
      (Log.join ((List.range 5).map fun i => call.slotLog (.value i))).diagnostics =
        [.malformedReference (.ofNat 1) .null, .malformedReference (.ofNat 1) (.ofNat 9)] ∧
      callText (qualify imported.socketModule (imported.name 0)) (imported.argumentTexts 2 3) =
        "f(4)" ∧
      bodyText .standard
        ("def " ++ callText (definition.name 0) (definition.argumentTexts 1 3) ++ ":" : String) true
        (definition.statements 4) = "def f(4):\n\tpass\n" := by
  intro c call imported definition
  obtain ⟨hcall, himported, hdefinition⟩ := Script.compile_patchySockets
  obtain ⟨htext, hlog⟩ := (sockets_by_position call).1 rfl
  obtain ⟨htext', -⟩ := (sockets_by_position imported).2.1 rfl
  obtain ⟨htext'', -⟩ := ((sockets_by_position definition).2.2 rfl).1 (by decide)
  have hreports : (c.compileBlock call.path call.block).log.diagnostics =
      (Log.join ((List.range 5).map fun i => call.slotLog (.value i))).diagnostics ++ [] :=
    congrArg Log.diagnostics hlog
  rw [List.append_nil] at hreports
  exact ⟨htext.symm.trans (congrArg Script.source hcall),
    hreports.symm.trans (congrArg Script.diagnostics hcall),
    htext'.symm.trans (congrArg Script.source himported),
    htext''.symm.trans (congrArg Script.source hdefinition)⟩

end VisualProgram
