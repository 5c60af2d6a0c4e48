import Mathlib.Data.List.Nodup
import VisualProgram.Proofs.Parts

namespace VisualProgram

theorem Trail.ext {t u : Trail} (h : t.ids = u.ids) : t = u := by
  cases t
  cases u
  simp_all

namespace BlockGraph

theorem get?_of_mem {g : BlockGraph} {b : Block} (h : b ∈ g.blocks) : g.get? b.id = some b := by
  have hsome : (g.get? b.id).isSome := by
    rw [Lookup.isSome_get?, contains, List.any_eq_true]
    exact ⟨b, h, decide_eq_true rfl⟩
  obtain ⟨d, hd⟩ := Option.isSome_iff_exists.1 hsome
  rw [hd, List.inj_on_of_nodup_map g.distinct (mem_of_get? hd) h (id_of_get? hd)]

theorem get?_eq_some_iff {g : BlockGraph} {id : BlockId} {b : Block} :
    g.get? id = some b ↔ b ∈ g.blocks ∧ b.id = id := by
  constructor
  · exact fun h => ⟨mem_of_get? h, id_of_get? h⟩
  · rintro ⟨hb, rfl⟩
    exact get?_of_mem hb

theorem eq_of_id_eq {g : BlockGraph} {b d : Block} (hb : b ∈ g.blocks) (hd : d ∈ g.blocks)
    (h : b.id = d.id) : b = d :=
  List.inj_on_of_nodup_map g.distinct hb hd h

end BlockGraph

namespace Lookup

def next? (l : Lookup) (b : Block) : Option Block :=
  b.successor?.bind l.block?

inductive Walk (l : Lookup) : Block → List Block → Block → Prop
  | stay {b : Block} : Walk l b [] b
  | step {b d e : Block} {bs : List Block} : l.next? b = some d → Walk l d bs e →
      Walk l b (b :: bs) e

variable {l : Lookup} {b d e : Block} {bs : List Block}

theorem link_of_next? (h : l.next? b = some d) : l.Link b d := by
  obtain ⟨id, hid, hd⟩ := Option.bind_eq_some_iff.1 h
  exact ⟨id, Block.mem_links_of_successor? hid, hd⟩

theorem Walk.snoc (h : l.Walk b bs d) (hnext : l.next? d = some e) : l.Walk b (bs ++ [d]) e := by
  induction h with
  | stay => exact .step hnext .stay
  | step hd _ ih => exact .step hd (ih hnext)

theorem Walk.reaches (h : l.Walk b bs e) : l.Reaches b e := by
  induction h with
  | stay => exact .refl
  | step hd _ ih => exact ih.head (link_of_next? hd)

theorem Walk.linked (h : l.Walk b bs e) (hd : d ∈ bs) : Relation.TransGen l.Link d e := by
  induction h with
  | stay => cases hd
  | step hnext hwalk ih =>
    rcases List.mem_cons.1 hd with rfl | hd
    · exact Relation.TransGen.head' (link_of_next? hnext) hwalk.reaches
    · exact ih hd

theorem Walk.mem_of_mem {g : BlockGraph} (hb : b ∈ g.blocks) (h : (ofGraph g).Walk b bs e)
    (hd : d ∈ bs) : d ∈ g.blocks := by
  induction h with
  | stay => cases hd
  | step hnext _ ih =>
    rcases List.mem_cons.1 hd with rfl | hd
    · exact hb
    · exact ih (mem_of_link (link_of_next? hnext)) hd

theorem Walk.end_mem {g : BlockGraph} (hb : b ∈ g.blocks) (h : (ofGraph g).Walk b bs e) :
    e ∈ g.blocks := by
  induction h with
  | stay => exact hb
  | step hnext _ ih => exact ih (mem_of_link (link_of_next? hnext))

end Lookup

namespace Options

theorem chainIsFull_mono {o : Options} {m n : Nat} (h : m ≤ n) (hfull : ¬o.chainIsFull n = true) :
    ¬o.chainIsFull m = true := by
  rw [chainIsFull_iff] at hfull ⊢
  omega

end Options

namespace Context

/-- A block of the chain that starts with `first`: no block before it comes again, and the limit is
not met before it. -/
def ChainPart (c : Context) (seen : Trail) (first d : Block) : Prop :=
  ∃ bs, c.lookup.Walk first bs d ∧ ((bs ++ [d]).map Block.id).Nodup ∧
    (∀ x ∈ bs ++ [d], x.id ∉ seen) ∧ ¬c.options.chainIsFull (seen.length + bs.length) = true

variable {c : Context} {path seen : Trail} {b d e : Block} {bs : List Block}

theorem ChainPart.mem {g : BlockGraph} (hg : c.lookup = .ofGraph g) (hb : b ∈ g.blocks)
    (h : c.ChainPart seen b d) : d ∈ g.blocks := by
  obtain ⟨bs, hwalk, -⟩ := h
  rw [hg] at hwalk
  exact hwalk.end_mem hb

theorem not_chainPart_of_mem (h : b.id ∈ seen) : ¬c.ChainPart seen b d := by
  rintro ⟨bs, hwalk, -, hseen, -⟩
  cases hwalk with
  | stay => exact hseen b (by simp) h
  | step _ _ => exact hseen b (by simp) h

theorem not_chainPart_of_full (h : c.options.chainIsFull seen.length = true) :
    ¬c.ChainPart seen b d := by
  rintro ⟨bs, -, -, -, hfull⟩
  exact Options.chainIsFull_mono (Nat.le_add_right _ _) hfull h

theorem chainPart_iff (h : b.id ∉ seen) (hfull : ¬c.options.chainIsFull seen.length = true) :
    c.ChainPart seen b d ↔
      d = b ∨ ∃ e, (c.successor b).value = some e ∧ c.ChainPart (seen.push b.id h) e d := by
  constructor
  · rintro ⟨bs, hwalk, hnodup, hseen, hlength⟩
    cases hwalk with
    | stay => exact .inl rfl
    | @step _ e _ bs hnext hwalk =>
      refine .inr ⟨e, (successor_value c b).trans hnext, bs, hwalk, ?_, ?_, ?_⟩
      · exact (List.nodup_cons.1 hnodup).2
      · intro x hx hmem
        rcases (Trail.mem_push h).1 hmem with hid | hmem
        · exact (List.nodup_cons.1 hnodup).1 (hid ▸ List.mem_map_of_mem hx)
        · exact hseen x (List.mem_cons_of_mem _ hx) hmem
      · rw [Trail.length_push]
        rw [List.length_cons] at hlength
        rwa [Nat.add_assoc, Nat.add_comm 1]
  · rintro (rfl | ⟨e, hnext, bs, hwalk, hnodup, hseen, hlength⟩)
    · exact ⟨[], .stay, by simp, by simpa using h, hfull⟩
    · have hstep : c.lookup.next? b = some e := (successor_value c b).symm.trans hnext
      refine ⟨b :: bs, .step hstep hwalk, ?_, ?_, ?_⟩
      · refine List.nodup_cons.2 ⟨fun hmem => ?_, hnodup⟩
        obtain ⟨x, hx, hid⟩ := List.mem_map.1 hmem
        exact hseen x hx ((Trail.mem_push h).2 (.inl hid))
      · intro x hx
        rcases List.mem_cons.1 hx with rfl | hx
        · exact h
        · exact fun hmem => hseen x hx ((Trail.mem_push h).2 (.inr hmem))
      · rw [Trail.length_push] at hlength
        rwa [List.length_cons, Nat.add_comm bs.length, ← Nat.add_assoc]

theorem compileChain_of_walk {seen' : Trail} (walk : c.lookup.Walk b bs e)
    (hseen : seen'.ids = (bs.map Block.id).reverse ++ seen.ids)
    (hlimit : c.options.maxChainLength = 0 ∨ seen'.length ≤ c.options.maxChainLength) :
    c.compileChain path seen b = (do
      let before ← Logged.traverse (c.compileBlock path) bs
      let rest ← c.compileChain path seen' e
      return before ++ rest) := by
  induction walk generalizing seen with
  | stay =>
    obtain rfl : seen' = seen := Trail.ext hseen
    simp [Logged.traverse]
  | @step b d e bs hnext hwalk ih =>
    have hids : seen'.ids = (bs.map Block.id).reverse ++ b.id :: seen.ids := by simpa using hseen
    have hb : b.id ∉ seen := by
      have hnodup := hids ▸ seen'.nodup
      exact (List.nodup_cons.1 (List.nodup_append.1 hnodup).2.1).1
    have hfull : ¬c.options.chainIsFull seen.length = true := by
      have hlength : seen.length < seen'.length := by simp [Trail.length, hids]; omega
      rw [Options.chainIsFull_iff]
      omega
    rw [compileChain_of_some hb hfull ((successor_value c b).trans hnext)]
    have hrest : c.compileChain path (seen.push b.id hb) d = _ := ih hids
    simp [hrest, Logged.traverse]

theorem first_mem_compileChain (h : b.id ∉ seen)
    (hfull : ¬c.options.chainIsFull seen.length = true) :
    (c.compileBlock path b).value ∈ (c.compileChain path seen b).value := by
  cases hnext : (c.successor b).value with
  | none =>
    rw [compileChain_of_none h hfull hnext]
    exact List.mem_cons_self
  | some d =>
    rw [compileChain_of_some h hfull hnext]
    exact List.mem_cons_self

theorem ChainPart.text_mem (h : c.ChainPart .empty b d) (path : Trail) :
    (c.compileBlock path d).value ∈ (c.compileChain path .empty b).value := by
  obtain ⟨bs, hwalk, hnodup, -, hfull⟩ := h
  rw [List.map_append, List.map_singleton, List.nodup_append] at hnodup
  have hnew : d.id ∉ bs.map Block.id := fun hmem =>
    hnodup.2.2 d.id hmem d.id (List.mem_singleton_self _) rfl
  let seen : Trail := ⟨(bs.map Block.id).reverse, List.nodup_reverse.2 hnodup.1⟩
  have hlength : Trail.empty.length + bs.length = seen.length := by
    simp [seen, Trail.length, Trail.empty]
  rw [hlength] at hfull
  have hlimit : c.options.maxChainLength = 0 ∨ seen.length ≤ c.options.maxChainLength := by
    rw [Options.chainIsFull_iff] at hfull
    omega
  rw [compileChain_of_walk hwalk (List.append_nil _).symm hlimit]
  have hlast : (c.compileBlock path d).value ∈ (c.compileChain path seen d).value :=
    first_mem_compileChain (mt List.mem_reverse.1 hnew) hfull
  exact List.mem_append_right _ hlast

end Context

end VisualProgram
