import Mathlib.Data.Set.Finite.Basic
import Mathlib.Order.Filter.AtTopBot.Basic
import Mathlib.Order.Filter.Finite
import VisualProgram.Proofs.Budget
import VisualProgram.Registry.Standard

/-!
Compiling without guards: neither the blocks on the path nor those of a chain are remembered. A height
says how far the walk may go; without enough of it there is no result, and on a block inside itself no
height is enough. Where everything that a block expands to is finite, all heights from some height on
give the result of the guarded walk.
-/

namespace VisualProgram

namespace Session

mutual

def plainBlock (c : Context) : Nat → Block → Work String
  | 0, _ => failure
  | height + 1, b =>
    match c.registry.rule? b.genus with
    | none => perform ⟨"", .report (.unsupportedGenus b.id b.genus)⟩
    | some r => do
      let text ← rule c (plainBlock c height) (plainChain c height 0) r b
      perform (Logged.tell (.done b.id))
      return text

def plainChain (c : Context) : Nat → Nat → Block → Work (List String)
  | 0, _, _ => failure
  | height + 1, length, b =>
    if c.options.chainIsFull length then
      perform ⟨[], .report (.chainTooLong b.id c.options.maxChainLength)⟩
    else do
      let text ← plainBlock c height b
      match ← perform (c.successor b) with
      | none => return [text]
      | some next => return text :: (← plainChain c height (length + 1) next)

end

end Session

inductive Place where
  | value (block : Block)
  | chain (block : Block)

def Place.block : Place → Block
  | value b => b
  | chain b => b

namespace Context

variable {c : Context}

inductive Expands (c : Context) : Place → Place → Prop
  | value {b d : Block} {r : Rule} {i : Nat} : c.registry.rule? b.genus = some r →
      .value i ∈ r.slots b → (c.child b i).value = some d → Expands c (.value b) (.value d)
  | body {b d : Block} {r : Rule} {i : Nat} : c.registry.rule? b.genus = some r →
      .body i ∈ r.slots b → (c.child b i).value = some d → Expands c (.value b) (.chain d)
  | first {b : Block} : Expands c (.chain b) (.value b)
  | next {b d : Block} : (c.successor b).value = some d → Expands c (.chain b) (.chain d)

def Finite (c : Context) (p : Place) : Prop :=
  Acc (fun q p => c.Expands p q) p

theorem Finite.not_cyclic {p : Place} (h : c.Finite p) : ¬Relation.TransGen c.Expands p p := by
  induction h with
  | intro p _ ih =>
    intro hp
    obtain ⟨q, hpq, hqp⟩ := Relation.TransGen.head'_iff.1 hp
    exact ih q hpq (Relation.TransGen.tail' hqp hpq)

def Reads (c : Context) : Place → Place → Prop :=
  Relation.ReflTransGen c.Expands

def Known (c : Context) (p : Place) : Prop :=
  c.lookup.block? p.block.id = some p.block

def ClearOf (c : Context) (path : Trail) (p : Place) : Prop :=
  ∀ d, c.Reads p (.value d) → d.id ∉ path

def Unseen (c : Context) (seen : Trail) (p : Place) : Prop :=
  ∀ d, c.Reads p (.chain d) → d.id ∉ seen

theorem ClearOf.expands {path : Trail} {p q : Place} (h : c.ClearOf path p) (hq : c.Expands p q) :
    c.ClearOf path q :=
  fun d hd => h d (hd.head hq)

theorem Unseen.expands {seen : Trail} {p q : Place} (h : c.Unseen seen p) (hq : c.Expands p q) :
    c.Unseen seen q :=
  fun d hd => h d (hd.head hq)

def Faithful (c : Context) : Prop :=
  ∀ id d, c.lookup.block? id = some d → d.id = id

theorem Faithful.known_of_link (hc : c.Faithful) {b d : Block} (h : c.lookup.Link b d) :
    c.lookup.block? d.id = some d := by
  obtain ⟨id, _, hd⟩ := h
  rwa [hc id d hd]

theorem Faithful.known (hc : c.Faithful) {id : BlockId} {b : Block}
    (h : c.lookup.block? id = some b) : c.Known (.value b) := by
  rwa [Known, Place.block, hc id b h]

theorem Known.expands (hc : c.Faithful) {p q : Place} (hp : c.Known p) (h : c.Expands p q) :
    c.Known q := by
  cases h with
  | value _ _ hd => exact hc.known_of_link (link_of_child hd)
  | body _ _ hd => exact hc.known_of_link (link_of_child hd)
  | first => exact hp
  | next hd => exact hc.known_of_link (link_of_successor hd)

theorem Known.reads (hc : c.Faithful) {p q : Place} (hp : c.Known p) (h : c.Reads p q) :
    c.Known q := by
  induction h with
  | refl => exact hp
  | tail _ hstep ih => exact ih.expands hc hstep

theorem Known.id_ne (hc : c.Faithful) {p q r : Place} (hp : c.Known p) (hfin : c.Finite p)
    (hq : c.Expands p q) (hr : c.Reads q r) (hkind : r.block = p.block → r = p) :
    r.block.id ≠ p.block.id := by
  -- An id that comes again belongs to the same block, so there would be a cycle.
  intro hid
  have hknown := hp.reads hc (hr.head hq)
  have hblock : r.block = p.block := by
    apply Option.some.inj
    rw [← hknown, ← hp, hid]
  apply hfin.not_cyclic
  rw [hkind hblock] at hr
  exact Relation.TransGen.head' hq hr

theorem ClearOf.push (hc : c.Faithful) {path : Trail} {b : Block} {q : Place}
    (h : c.ClearOf path (.value b)) (hb : c.Known (.value b)) (hfin : c.Finite (.value b))
    (hq : c.Expands (.value b) q) (hpath : b.id ∉ path) : c.ClearOf (path.push b.id hpath) q := by
  intro d hd hmem
  rcases (Trail.mem_push hpath).1 hmem with hid | hmem
  · exact hb.id_ne hc hfin hq hd (congrArg Place.value) hid
  · exact h.expands hq d hd hmem

theorem Unseen.push (hc : c.Faithful) {seen : Trail} {b : Block} {q : Place}
    (h : c.Unseen seen (.chain b)) (hb : c.Known (.chain b)) (hfin : c.Finite (.chain b))
    (hq : c.Expands (.chain b) q) (hseen : b.id ∉ seen) : c.Unseen (seen.push b.id hseen) q := by
  intro d hd hmem
  rcases (Trail.mem_push hseen).1 hmem with hid | hmem
  · exact hb.id_ne hc hfin hq hd (congrArg Place.chain) hid
  · exact h.expands hq d hd hmem

theorem faithful_ofGraph (g : BlockGraph) (r : Registry) (o : Options) :
    Faithful ⟨.ofGraph g, r, o⟩ := by
  intro id d hd
  rw [Lookup.block?_ofGraph] at hd
  exact BlockGraph.id_of_get? hd

theorem finite_of_descending {g : BlockGraph} (hg : g.Descending) (r : Registry) (o : Options)
    {b : Block} (hb : b ∈ g.blocks) :
    Finite ⟨.ofGraph g, r, o⟩ (.value b) ∧ Finite ⟨.ofGraph g, r, o⟩ (.chain b) := by
  induction hn : b.id.toNat using Nat.strong_induction_on generalizing b with
  | _ n ih =>
    subst hn
    have hlink := fun d (hd : (Lookup.ofGraph g).Link b d) =>
      ih d.id.toNat (hg.link_lt hb hd) (Lookup.mem_of_link hd) rfl
    have hvalue : Finite ⟨.ofGraph g, r, o⟩ (.value b) := by
      apply Acc.intro
      intro q hq
      cases hq with
      | value _ _ hd => exact (hlink _ (link_of_child hd)).1
      | body _ _ hd => exact (hlink _ (link_of_child hd)).2
    refine ⟨hvalue, .intro _ fun q hq => ?_⟩
    cases hq with
    | first => exact hvalue
    | next hd => exact (hlink _ (link_of_successor hd)).2

end Context

namespace Session

open Filter

variable {c : Context} {active : Finset BlockId}

/-- From some height on the plain walk does from a place what the guarded one does, wherever no guard
can see anything. -/
def Transparent (c : Context) (active : Finset BlockId) : Place → Prop
  | .value b => ∀ path, c.ClearOf path (.value b) →
      ∀ᶠ n in atTop, Does active (plainBlock c n b) (c.compileBlock path b)
  | .chain b => ∀ path seen, c.ClearOf path (.chain b) → c.Unseen seen (.chain b) →
      ∀ᶠ n in atTop, Does active (plainChain c n seen.length b) (c.compileChain path seen b)

theorem eventually_of_succ {p : Nat → Prop} (h : ∀ᶠ n in atTop, p (n + 1)) : ∀ᶠ n in atTop, p n := by
  obtain ⟨m, hm⟩ := eventually_atTop.1 h
  refine eventually_atTop.2 ⟨m + 1, fun n hn => ?_⟩
  obtain ⟨k, rfl⟩ := Nat.exists_eq_add_of_le' hn
  exact hm (k + m) (Nat.le_add_left m k)

theorem transparent_slot {r : Rule} {b : Block} {x : Slot} {path : Trail}
    (hr : c.registry.rule? b.genus = some r) (hx : x ∈ r.slots b)
    (hclear : ∀ q, c.Expands (.value b) q → c.ClearOf path q)
    (ih : ∀ q, c.Expands (.value b) q → Transparent c active q) :
    ∀ᶠ n in atTop,
      Does active (slot c (plainBlock c n) (plainChain c n 0) b x) (c.compileSlot path b x) := by
  cases hd : (c.child b x.index).value with
  | none =>
    refine .of_forall fun n => slot_does ?_ ?_
    · rintro i d rfl hsome
      cases hd.symm.trans hsome
    · rintro i d rfl hsome
      cases hd.symm.trans hsome
  | some d =>
    cases x with
    | value i =>
      have hq := Context.Expands.value hr hx hd
      filter_upwards [ih _ hq path (hclear _ hq)] with n hn
      apply slot_does
      · rintro _ d' ⟨⟩ hd'
        cases hd.symm.trans hd'
        exact hn
      · rintro _ _ ⟨⟩
    | body i =>
      have hq := Context.Expands.body hr hx hd
      have hfresh : c.Unseen .empty (.chain d) := fun _ _ => Trail.notMem_empty _
      filter_upwards [ih _ hq path .empty (hclear _ hq) hfresh] with n hn
      apply slot_does
      · rintro _ _ ⟨⟩
      · rintro _ d' ⟨⟩ hd'
        cases hd.symm.trans hd'
        exact hn

theorem transparent_value (hc : c.Faithful) {b : Block} (hb : c.Known (.value b))
    (hfin : c.Finite (.value b)) (ih : ∀ q, c.Expands (.value b) q → Transparent c active q) :
    Transparent c active (.value b) := by
  intro path hclear
  have hpath := hclear b .refl
  apply eventually_of_succ
  simp only [plainBlock]
  rw [Context.compileBlock, dif_neg hpath]
  cases hr : c.registry.rule? b.genus with
  | none => exact .of_forall fun _ => Does.perform _
  | some r =>
    -- There are finitely many slots, so one height is enough for all of them.
    have hslots : ∀ᶠ n in atTop, ∀ x ∈ r.slots b,
        Does active (slot c (plainBlock c n) (plainChain c n 0) b x)
          (c.compileSlot (path.push b.id hpath) b x) := by
      apply (eventually_all_finite (r.slots b).finite_toSet).2
      intro x hx
      apply transparent_slot hr hx _ ih
      exact fun q hq => hclear.push hc hb hfin hq hpath
    filter_upwards [hslots] with n hn
    apply (rule_does hn).bind
    exact (Does.perform _).bind (Does.pure _)

theorem transparent_chain (hc : c.Faithful) {b : Block} (hb : c.Known (.chain b))
    (hfin : c.Finite (.chain b)) (ih : ∀ q, c.Expands (.chain b) q → Transparent c active q) :
    Transparent c active (.chain b) := by
  intro path seen hclear hunseen
  have hseen := hunseen b .refl
  apply eventually_of_succ
  simp only [plainChain]
  rw [Context.compileChain, dif_neg hseen]
  by_cases hfull : c.options.chainIsFull seen.length
  · simp only [if_pos hfull]
    exact .of_forall fun _ => Does.perform _
  · simp only [if_neg hfull]
    have hfirst := ih _ .first path (hclear.expands .first)
    cases hd : (c.successor b).value with
    | none =>
      filter_upwards [hfirst] with n hn
      apply hn.bind
      apply (Does.perform _).bind
      rw [hd]
      exact Does.pure _
    | some d =>
      have hq := Context.Expands.next hd
      have hrest := ih _ hq path (seen.push b.id hseen) (hclear.expands hq)
        (hunseen.push hc hb hfin hq hseen)
      filter_upwards [hfirst, hrest] with n hn hm
      apply hn.bind
      apply (Does.perform _).bind
      rw [hd]
      exact hm.bind (Does.pure _)

theorem transparent (hc : c.Faithful) {p : Place} (hp : c.Known p) (hfin : c.Finite p) :
    Transparent c active p := by
  induction hfin with
  | intro p hfin ih =>
    have hstep := fun q hq => ih q hq (hp.expands hc hq)
    cases p with
    | value b => exact transparent_value hc hp (.intro _ hfin) hstep
    | chain b => exact transparent_chain hc hp (.intro _ hfin) hstep

theorem compile_eq_plain (hc : c.Faithful) {root : BlockId} {b : Block}
    (hb : c.lookup.block? root = some b) (hfin : c.Finite (.value b)) :
    ∃ (s : Session) (m : Nat),
      (∀ n, m ≤ n → (plainBlock c n b).run start = some ((Script.compile c root).source, s)) ∧
      s.modules = (Script.compile c root).modules ∧
      s.diagnostics = (Script.compile c root).diagnostics := by
  have hknown : c.Known (.value b) := by
    rwa [Context.Known, Place.block, hc root b hb]
  have hplain : Transparent c start.active (.value b) := transparent hc hknown hfin
  have hplain := hplain .empty fun d _ => Trail.notMem_empty d.id
  obtain ⟨m, hm⟩ := eventually_atTop.1 hplain
  have hcompile : c.compileId root = c.compileBlock .empty b := by
    rw [Context.compileId, hb]
  rw [← hcompile] at hm
  refine ⟨start.record (c.compileId root).log, m, fun n hn => hm n hn start rfl, ?_, ?_⟩
  · rw [record_start]
    rfl
  · rw [record_start]
    rfl

theorem compile_eq_plain_sharedOperand :
    let c : Context := ⟨.ofGraph .sharedOperand, .standard, .standard⟩
    ∃ (b : Block) (s : Session) (m : Nat), c.lookup.block? (.ofNat 3) = some b ∧
      (∀ n, m ≤ n →
        (plainBlock c n b).run start = some ((Script.compile c (.ofNat 3)).source, s)) ∧
      s.modules = (Script.compile c (.ofNat 3)).modules ∧
      s.diagnostics = (Script.compile c (.ofNat 3)).diagnostics := by
  intro c
  have hsome : (c.lookup.block? (.ofNat 3)).isSome := by decide
  obtain ⟨b, hb⟩ := Option.isSome_iff_exists.1 hsome
  have hmem : b ∈ BlockGraph.sharedOperand.blocks := by
    rw [Lookup.block?_ofGraph] at hb
    exact BlockGraph.mem_of_get? hb
  obtain ⟨s, m, hs⟩ := compile_eq_plain (Context.faithful_ofGraph .sharedOperand _ _) hb
    (Context.finite_of_descending BlockGraph.descending_sharedOperand _ _ hmem).1
  exact ⟨b, s, m, hb, hs⟩

end Session

end VisualProgram
