import VisualProgram.Proofs.Budget
import VisualProgram.Proofs.Locality
import VisualProgram.Registry.Standard

namespace VisualProgram

theorem Context.compileBlock_eq_of_clear {c : Context} {p : Trail} {b : Block}
    (hp : ∀ d, c.lookup.Reaches b d → d.id ∉ p) : c.compileBlock p b = c.compileBlock .empty b := by
  apply Context.compileBlock_congr (.refl c b) _ .refl
  intro d hd
  exact ⟨fun h => absurd h (hp d hd), fun h => absurd h (Trail.notMem_empty d.id)⟩

namespace Session

theorem compileBlock_independent (g : BlockGraph) (r : Registry) (o : Options) :
    let c : Context := ⟨.ofGraph g, r, o⟩
    let k : Budget := ⟨g.size + 1, g.size⟩
    (∀ (b : Block) (s : Session), (∀ d, c.lookup.Reaches b d → d.id ∉ s.active) →
      (compileBlock c k b).run s =
        some ((c.compileBlock .empty b).value, s.record (c.compileBlock .empty b).log)) ∧
    ∀ (b : Block) (s : Session), ∃ (text : String) (t : Session),
      (compileBlock c k b).run s = some (text, t) ∧ t.active = s.active := by
  intro c k
  have hrun := compileBlock_run_ofGraph (k := k) (r := r) (o := o) (Nat.lt_succ_self g.size)
    (Nat.le_refl g.size)
  constructor
  · intro b s hs
    have hpath : ∀ d, c.lookup.Reaches b d → d.id ∉ s.path := by
      intro d hd
      rw [← Trail.mem_toFinset, toFinset_path]
      exact hs d hd
    rw [hrun, Context.compileBlock_eq_of_clear hpath]
  · intro b s
    exact ⟨_, _, hrun s b, record_active ..⟩

theorem compileBlock_independent_sharedOperand :
    let c : Context := ⟨.ofGraph .sharedOperand, .standard, .standard⟩
    let s : Session := ⟨{.ofNat 3}, ["os"], [.malformedReference (.ofNat 3) .null], 7⟩
    ∃ b : Block, c.lookup.block? (.ofNat 2) = some b ∧
      (compileBlock c ⟨4, 3⟩ b).run s =
        some ((c.compileBlock .empty b).value, s.record (c.compileBlock .empty b).log) := by
  intro c s
  have hsome : (c.lookup.block? (.ofNat 2)).isSome := by decide
  obtain ⟨b, hb⟩ := Option.isSome_iff_exists.1 hsome
  refine ⟨b, hb, (compileBlock_independent .sharedOperand .standard .standard).1 b s ?_⟩
  rw [Lookup.block?_ofGraph] at hb
  intro d hd hmem
  have hle := (BlockGraph.descending_sharedOperand.reaches_le (BlockGraph.mem_of_get? hb) hd).2
  rw [BlockGraph.id_of_get? hb, Finset.mem_singleton.1 hmem] at hle
  exact absurd hle (by decide)

end Session

end VisualProgram
