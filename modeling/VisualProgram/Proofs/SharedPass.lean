import Mathlib
import VisualProgram.Proofs.Budget

namespace VisualProgram

open Text

namespace Session

theorem compileBlock_does (c : Context) (b : Block) :
    Does ∅ (compileBlock c .full b) (c.compileBlock .empty b) := by
  intro s hs
  rw [compileBlock_run_full, path_of_active_empty hs]

section

variable {c : Context} {k : Budget} (h : ∀ b, Does ∅ (compileBlock c k b) (c.compileBlock .empty b))

include h

theorem compileId_does_of (id : BlockId) : Does ∅ (compileId c k id) (c.compileId id) := by
  unfold compileId Context.compileId
  cases c.lookup.block? id with
  | none => exact Does.pure ""
  | some b => exact h b

theorem pass_eq_of (root : BlockId) :
    pass c k root = some (Script.compile c root, (c.compileId root).log.applied.length) := by
  unfold pass
  rw [compileId_does_of h root start rfl, record_start]
  rfl

end

theorem compileId_does (c : Context) (id : BlockId) :
    Does ∅ (compileId c .full id) (c.compileId id) :=
  compileId_does_of (compileBlock_does c) id

theorem pass_ends (g : BlockGraph) (r : Registry) (o : Options) (root : BlockId) :
    let c : Context := ⟨.ofGraph g, r, o⟩
    pass c ⟨g.size + 1, g.size⟩ root =
      some (Script.compile c root, (c.compileId root).log.applied.length) := by
  intro c
  refine pass_eq_of (fun b s hs => ?_) root
  have hrun : (compileBlock c ⟨g.size + 1, g.size⟩ b).run s = _ :=
    compileBlock_run_ofGraph (Nat.lt_succ_self g.size) (Nat.le_refl g.size) s b
  rw [hrun, path_of_active_empty hs]

theorem compile_of_pass {g : BlockGraph} {r : Registry} {o : Options} {root : BlockId} {s : Script}
    {n : Nat} (h : pass ⟨.ofGraph g, r, o⟩ ⟨g.size + 1, g.size⟩ root = some (s, n)) :
    Script.compile ⟨.ofGraph g, r, o⟩ root = s := by
  have hpass := pass_ends g r o root
  exact congrArg Prod.fst (Option.some.inj (hpass.symm.trans h))

end Session

namespace Program

theorem assemble_eq (o : Options) (modules texts : List String) :
    assemble o modules texts =
      let lead := importLines modules ++ closeLines o.prelude
      let shown := sections texts
      lead ++ if shown = [] then "" else
        (if lead = "" then "" else "\n") ++ String.intercalate "\n\n" shown ++ "\n" := by
  unfold assemble
  dsimp only
  cases sections texts with
  | nil => simp
  | cons t ts => simp [String.append_assoc]

end Program

end VisualProgram
