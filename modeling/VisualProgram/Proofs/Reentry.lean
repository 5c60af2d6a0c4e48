import VisualProgram.Proofs.SharedPass
import VisualProgram.Proofs.Walks

/-!
Chains that meet a block again. A chain stops where it meets a block of its own. Where it meets a block
inside which it is compiled, that block leaves no statement, but the chain goes on behind it.
-/

namespace VisualProgram

open Text

theorem bodyText_skip (o : Options) (header : Option String) (indented : Bool) {blank : String}
    (h : blankText blank = true) (before rest : List String) :
    bodyText o header indented (before ++ blank :: rest) =
      bodyText o header indented (before ++ rest) := by
  simp [bodyText, h]

namespace Context

variable {c : Context} {path seen : Trail} {b e first : Block} {bs : List Block}

def compileRest (c : Context) (path seen : Trail) (b : Block) : Logged (List String) := do
  match ← c.successor b with
  | none => return []
  | some next => c.compileChain path seen next

theorem compileRest_of_some (h : (c.successor b).value = some e) :
    c.compileRest path seen b = c.compileChain path seen e := by
  rw [compileRest, successor_of_value h]
  rfl

theorem compileChain_of_notMem (h : b.id ∉ seen)
    (hfull : ¬c.options.chainIsFull seen.length = true) :
    c.compileChain path seen b = (do
      let text ← c.compileBlock path b
      return text :: (← c.compileRest path (seen.push b.id h) b)) := by
  cases hnext : (c.successor b).value with
  | none =>
    rw [compileChain_of_none h hfull hnext, compileRest]
    simp [Logged.bind_def, Logged.pure_def, hnext, Log.append_empty]
  | some d =>
    rw [compileChain_of_some h hfull hnext, compileRest_of_some hnext]

theorem compileChain_reentry (walk : c.lookup.Walk first bs e)
    (hseen : seen.ids = (bs.map Block.id).reverse)
    (hlimit : c.options.maxChainLength = 0 ∨ seen.length ≤ c.options.maxChainLength) :
    let before := Logged.traverse (c.compileBlock path) bs
    let report := Log.report (.cyclicStructure e.id)
    (e.id ∈ seen → c.compileChain path .empty first = ⟨before.value, before.log ++ report⟩) ∧
      ∀ h : e.id ∉ seen, e.id ∈ path → ¬c.options.chainIsFull seen.length = true →
        let rest := c.compileRest path (seen.push e.id h) e
        c.compileChain path .empty first =
            ⟨before.value ++ "" :: rest.value, before.log ++ report ++ rest.log⟩ ∧
          ∀ header indented, bodyText c.options header indented (before.value ++ "" :: rest.value) =
            bodyText c.options header indented (before.value ++ rest.value) := by
  intro before report
  have hids : seen.ids = (bs.map Block.id).reverse ++ Trail.empty.ids := by
    rw [hseen]
    exact (List.append_nil _).symm
  rw [compileChain_of_walk walk hids hlimit]
  constructor
  · intro h
    rw [compileChain_of_mem h]
    simp [Logged.bind_def, Logged.pure_def, Log.append_empty, before, report]
  · intro h hpath hfull rest
    refine ⟨?_, fun header indented => bodyText_skip c.options header indented rfl _ _⟩
    rw [compileChain_of_notMem h hfull, compileBlock_of_mem hpath]
    simp [Logged.bind_def, Logged.pure_def, Log.append_empty, Log.append_assoc, before, report, rest]

end Context

namespace Block

def selfLoop : Block :=
  { ofGenus "while" with
    id := .ofNat 1
    sockets := [Socket.any "test", (Socket.any "do").connect (.ofNat 1)]
    next := some (.ofNat 2) }

def breakBehind : Block :=
  { ofGenus "break" with id := .ofNat 2 }

end Block

def BlockGraph.ownBody : BlockGraph where
  blocks :=
    [{ Block.ofGenus "runOnce" with
        id := .ofNat 3
        sockets := [(Socket.any "do").connect (.ofNat 1)] },
      .selfLoop, .breakBehind]
  named := by decide
  distinct := by decide

theorem Context.compileChain_reentry_ownBody :
    let c : Context := ⟨.ofGraph .ownBody, .standard, .standard⟩
    let inLoop : Trail := Trail.empty.push Block.selfLoop.id (Trail.notMem_empty _)
    (c.compileChain inLoop .empty .selfLoop).value = ["", "break"] ∧
      bodyText c.options "while True:" true (c.compileChain inLoop .empty .selfLoop).value =
        "while True:\n\tbreak\n" := by
  intro c inLoop
  have hmem : Block.selfLoop.id ∈ inLoop := List.mem_cons_self
  have hfresh : Block.breakBehind.id ∉ inLoop := by decide
  have hrule : c.registry.rule? Block.breakBehind.genus = some (.constant "break" none) := rfl
  have hrest : (c.compileRest inLoop inLoop .selfLoop).value = ["break"] := by
    rw [compileRest_of_some rfl, compileChain_of_none hfresh (by decide) rfl,
      compileBlock_of_rule hfresh hrule, applyRule_eq]
    rfl
  have hstay : c.lookup.Walk .selfLoop [] .selfLoop := .stay
  obtain ⟨hchain, hbody⟩ := (compileChain_reentry hstay (rfl : Trail.empty.ids = []) (by decide)).2
    (Trail.notMem_empty Block.selfLoop.id) hmem (by decide)
  have hvalue : (c.compileChain inLoop .empty .selfLoop).value = ["", "break"] := by
    rw [hchain, ← hrest]
    rfl
  refine ⟨hvalue, ?_⟩
  rw [hchain, hbody, hrest]
  decide

theorem Script.compile_ownBody :
    Script.compile ⟨.ofGraph .ownBody, .standard, .standard⟩ (.ofNat 3) =
      ⟨"while True:\n\tbreak\n\nbreak\n", [], [.cyclicStructure (.ofNat 1)]⟩ := by
  have hpass := Session.pass_ends .ownBody .standard .standard (.ofNat 3)
  have hrun : Session.pass ⟨.ofGraph .ownBody, .standard, .standard⟩ ⟨4, 3⟩ (.ofNat 3) =
      some (⟨"while True:\n\tbreak\n\nbreak\n", [], [.cyclicStructure (.ofNat 1)]⟩, 4) := by
    decide +kernel
  exact congrArg Prod.fst (Option.some.inj (hpass.symm.trans hrun))

end VisualProgram
