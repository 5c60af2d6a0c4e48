import VisualProgram.Proofs.Imports
import VisualProgram.Proofs.Reentry

/-!
Chains past a block. A block without a rule leaves nothing in the text but the link behind it. If every
link to it goes on to where it leads itself, each chain shows the same statements, and the program stays
the same.
-/

namespace VisualProgram

open Text

namespace Block

def past (b u : Block) : Block :=
  if b.id ≠ u.id ∧ b.next = some u.id then { b with next := u.next } else b

variable (b u : Block)

@[simp]
theorem id_past : (b.past u).id = b.id := by
  unfold past
  split <;> rfl

@[simp]
theorem genus_past : (b.past u).genus = b.genus := by
  unfold past
  split <;> rfl

@[simp]
theorem target?_past (index : Nat) : (b.past u).target? index = b.target? index := by
  unfold past
  split <;> rfl

@[simp]
theorem isSet_past (key : String) : (b.past u).isSet key = b.isSet key := by
  unfold past
  split <;> rfl

theorem past_of_ne {b u : Block} (h : b.next ≠ some u.id) : b.past u = b :=
  if_neg fun hnext => h hnext.2

theorem past_self (u : Block) : u.past u = u :=
  if_neg fun h => h.1 rfl

theorem successor?_past {b u : Block} (hid : b.id ≠ u.id) (hnext : b.next = some u.id) :
    (b.past u).successor? = u.successor? := by
  rw [past, if_pos ⟨hid, hnext⟩]
  rfl

end Block

namespace Rule

theorem slots_past (r : Rule) (b u : Block) : r.slots (b.past u) = r.slots b := by
  unfold Block.past
  split
  · cases r with
    | handler h => cases h <;> rfl
    | _ => rfl
  · rfl

theorem render_past (r : Rule) (o : Options) (b u : Block) (f : Fillings) :
    r.render o (b.past u) f = r.render o b f := by
  unfold Block.past
  split
  · cases r with
    | handler h => cases h <;> rfl
    | _ => rfl
  · rfl

end Rule

namespace BlockGraph

/-- The graph with every link to `u` going on to where `u` leads. -/
def bypass (g : BlockGraph) (u : Block) : BlockGraph where
  blocks := g.blocks.map (·.past u)
  named := by
    intro b hb
    obtain ⟨d, hd, rfl⟩ := List.mem_map.1 hb
    rw [Block.id_past]
    exact g.named d hd
  distinct := by
    have hids : (g.blocks.map (·.past u)).map Block.id = g.blocks.map Block.id := by
      rw [List.map_map]
      exact List.map_congr_left fun b _ => b.id_past u
    rw [hids]
    exact g.distinct

theorem get?_bypass (g : BlockGraph) (u : Block) (id : BlockId) :
    (g.bypass u).get? id = (g.get? id).map (·.past u) := by
  have hid : (fun b : Block => decide ((b.past u).id = id)) = fun b => decide (b.id = id) := by
    funext b
    rw [Block.id_past]
  rw [get?, bypass, List.find?_map, Function.comp_def, hid]
  rfl

theorem bypass_of_loop (g : BlockGraph) {u : Block} (h : u.next = some u.id) : g.bypass u = g := by
  have hpast (b : Block) : b.past u = b := by
    unfold Block.past
    split
    · next hb =>
      rw [h, ← hb.2]
    · rfl
  apply ext
  calc (g.bypass u).blocks = g.blocks.map id := List.map_congr_left fun b _ => hpast b
    _ = g.blocks := List.map_id _

end BlockGraph

def shown (statements : List String) : List String :=
  statements.filter fun s => !blankText s

theorem shown_cons_of_blank {s : String} (h : blankText s = true) (statements : List String) :
    shown (s :: statements) = shown statements := by
  simp [shown, h]

theorem shown_cons_congr {ss ts : List String} (h : shown ss = shown ts) (s : String) :
    shown (s :: ss) = shown (s :: ts) := by
  unfold shown at h ⊢
  rw [List.filter_cons, List.filter_cons, h]

theorem bodyText_congr {ss ts : List String} (h : shown ss = shown ts) (o : Options)
    (header : Option String) (indented : Bool) :
    bodyText o header indented ss = bodyText o header indented ts := by
  unfold shown at h
  unfold bodyText
  rw [h]

theorem Rule.render_congr {f f' : Fillings} (hvalue : f.value = f'.value)
    (hbody : ∀ i, shown (f.body i) = shown (f'.body i)) (r : Rule) (o : Options) (b : Block) :
    r.render o b f = r.render o b f' := by
  have htext (i : Nat) (header : Option String) (indented : Bool) :
      bodyText o header indented (f.body i) = bodyText o header indented (f'.body i) :=
    bodyText_congr (hbody i) o header indented
  cases r with
  | handler h =>
    cases h <;> simp only [render, Handler.render, Handler.header, Fillings.name, Fillings.present,
      Fillings.importedModule, hvalue, htext]
  | _ => simp only [render, Fillings.arguments, hvalue]

structure SameText (x y : Logged String) : Prop where
  value : x.value = y.value
  requests : x.log.requests = y.log.requests

structure SameShown (x y : Logged (List String)) : Prop where
  shown : shown x.value = shown y.value
  requests : x.log.requests = y.log.requests

namespace SameShown

variable {x y z : Logged (List String)} {t t' : Logged String}

theorem symm (h : SameShown x y) : SameShown y x :=
  ⟨h.shown.symm, h.requests.symm⟩

theorem trans (h : SameShown x y) (h' : SameShown y z) : SameShown x z :=
  ⟨h.shown.trans h'.shown, h.requests.trans h'.requests⟩

theorem cons (ht : SameText t t') (h : SameShown x y) :
    SameShown (do return (← t) :: (← x)) (do return (← t') :: (← y)) where
  shown := by
    simpa [Logged.bind_def, Logged.pure_def, ht.value] using shown_cons_congr h.shown t'.value
  requests := by
    simp [Logged.bind_def, Logged.pure_def, Log.append_def, Log.empty, ht.requests, h.requests]

theorem cons_blank (ht : blankText t.value = true) (hrequests : t.log.requests = []) :
    SameShown (do return (← t) :: (← x)) x where
  shown := by
    simpa [Logged.bind_def, Logged.pure_def] using shown_cons_of_blank ht x.value
  requests := by
    simp [Logged.bind_def, Logged.pure_def, Log.append_def, Log.empty, hrequests]

end SameShown

namespace Context

section

variable {c : Context} {path seen : Trail} {b d : Block}

theorem requests_resolve (owner target : BlockId) : (c.resolve owner target).log.requests = [] := by
  unfold resolve
  split <;> rfl

theorem requests_child (index : Nat) : (c.child b index).log.requests = [] := by
  unfold child
  split
  · exact requests_resolve _ _
  · rfl

theorem requests_successor : (c.successor b).log.requests = [] := by
  unfold successor
  split
  · exact requests_resolve _ _
  · rfl

theorem requests_compileSlot (s : Slot) : (c.compileSlot path b s).log.requests =
    match (c.child b s.index).value with
    | none => []
    | some d => (c.compilePlace path (s.place d)).log.requests := by
  cases h : (c.child b s.index).value with
  | none =>
    rw [compileSlot_of_none h]
    exact requests_child _
  | some d => rw [compileSlot_of_some h]

theorem compileRest_of_none (h : (c.successor b).value = none) :
    c.compileRest path seen b = ⟨[], (c.successor b).log⟩ := by
  rw [compileRest, Logged.bind_def, h]
  simp [Logged.pure_def, Log.append_empty]

theorem sameShown_of_none {c' : Context} {path' seen' : Trail} {b' : Block}
    (h : (c.successor b).value = none) (h' : (c'.successor b').value = none) :
    SameShown (c.compileRest path seen b) (c'.compileRest path' seen' b') := by
  rw [compileRest_of_none h, compileRest_of_none h']
  exact ⟨rfl, requests_successor.trans requests_successor.symm⟩

theorem compileRest_congr {b' : Block} (h : (c.successor b).value = (c.successor b').value) :
    SameShown (c.compileRest path seen b) (c.compileRest path seen b') := by
  cases hnext : (c.successor b').value with
  | none => exact sameShown_of_none (h.trans hnext) hnext
  | some d =>
    rw [compileRest_of_some hnext, compileRest_of_some (h.trans hnext)]
    exact ⟨rfl, rfl⟩

end

/-- Two chains in step: the same blocks seen but for `u`, and behind `u` nothing new but the block
that comes next. -/
structure InStep (c : Context) (u : Block) (seen seen' : Trail) (b : Block) : Prop where
  same : ∀ id, id ≠ u.id → (id ∈ seen ↔ id ∈ seen')
  ahead : u.id ∈ seen → ∀ w, (c.successor u).value = some w → w.id ∈ seen ∨ w.id = b.id

section

variable {c : Context} {u b d : Block} {seen seen' : Trail}

theorem InStep.push (hs : InStep c u seen seen' b) (hb : b.id ≠ u.id) (hseen : b.id ∉ seen)
    (hseen' : b.id ∉ seen') (d : Block) :
    InStep c u (seen.push b.id hseen) (seen'.push b.id hseen') d where
  same id hid := by rw [Trail.mem_push, Trail.mem_push, hs.same id hid]
  ahead hu w hw := by
    rw [Trail.mem_push] at hu ⊢
    exact .inl (hs.ahead (hu.resolve_left hb.symm) w hw).symm

theorem InStep.pass (hs : InStep c u seen seen' u) (hseen : u.id ∉ seen)
    (hd : (c.successor u).value = some d) : InStep c u (seen.push u.id hseen) seen' d where
  same id hid := by rw [Trail.mem_push, or_iff_right hid, hs.same id hid]
  ahead _ w hw := by
    obtain rfl : d = w := Option.some.inj (hd.symm.trans hw)
    exact .inr rfl

end

structure Bypass (c c' : Context) (u : Block) : Prop where
  options : c'.options = c.options
  registry : c'.registry = c.registry
  block? : ∀ id, c'.lookup.block? id = (c.lookup.block? id).map (·.past u)
  named : ∀ id d, c.lookup.block? id = some d → d.id = id
  found : c.lookup.block? u.id = some u
  unruled : c.registry.rule? u.genus = none
  unlimited : c.options.maxChainLength = 0
  apart : u.next ≠ some u.id

namespace Bypass

variable {c c' : Context} {u : Block} (h : Bypass c c' u) {path seen seen' : Trail} {b d : Block}

include h

theorem child_past (b : Block) (index : Nat) :
    (c'.child (b.past u) index).value = (c.child b index).value.map (·.past u) := by
  rw [child_value, child_value, Block.target?_past, funext h.block?, Option.map_bind]
  rfl

theorem successor_value (b : Block) :
    (c'.successor b).value = (c.successor b).value.map (·.past u) := by
  rw [Context.successor_value, Context.successor_value, funext h.block?, Option.map_bind]
  rfl

theorem not_full (length : Nat) : ¬c.options.chainIsFull length = true := by
  rw [Options.chainIsFull_iff, h.unlimited]
  omega

theorem not_full' (length : Nat) : ¬c'.options.chainIsFull length = true := by
  rw [h.options]
  exact h.not_full length

theorem next_of_successor (hnext : (c.successor b).value = some d) : b.next = some d.id := by
  rw [Context.successor_value] at hnext
  obtain ⟨id, hid, hd⟩ := Option.bind_eq_some_iff.1 hnext
  rw [h.named id d hd]
  exact (Option.filter_eq_some_iff.1 hid).1

theorem successor_past_of_none (hnext : (c.successor b).value = none) :
    (c'.successor (b.past u)).value = none := by
  have hlink : b.next ≠ some u.id := by
    intro hlink
    have hnull : u.id ≠ .null := by
      intro hnull
      have hfound := h.found
      rw [hnull, Lookup.block?, c.lookup.find_null, ite_self] at hfound
      cases hfound
    have hsuccessor : b.successor? = some u.id := by
      rw [Block.successor?, hlink, Option.filter_some, if_pos (by simpa using hnull)]
    rw [Context.successor_value, hsuccessor, Option.bind_some, h.found] at hnext
    cases hnext
  rw [Block.past_of_ne hlink, h.successor_value, hnext]
  rfl

theorem text_self (path : Trail) :
    (c.compileBlock path u).value = "" ∧ (c.compileBlock path u).log.requests = [] ∧
      (c'.compileBlock path u).value = "" ∧ (c'.compileBlock path u).log.requests = [] := by
  have hunruled : c'.registry.rule? u.genus = none := by rw [h.registry, h.unruled]
  by_cases hmem : u.id ∈ path
  · rw [compileBlock_of_mem hmem, compileBlock_of_mem hmem]
    exact ⟨rfl, rfl, rfl, rfl⟩
  · rw [compileBlock_of_noRule hmem h.unruled, compileBlock_of_noRule hmem hunruled]
    exact ⟨rfl, rfl, rfl, rfl⟩

def remainder (_ : Bypass c c' u) (path seen : Trail) (b : Block) : Logged (List String) :=
  if b.id = u.id then c'.compileRest path seen u else c'.compileChain path seen (b.past u)

theorem compileRest_past (hb : b.id ≠ u.id) (hnext : (c.successor b).value = some d) :
    SameShown (c'.compileRest path seen (b.past u)) (h.remainder path seen d) := by
  have hlink := h.next_of_successor hnext
  unfold remainder
  split
  · next hd =>
    apply compileRest_congr
    rw [Context.successor_value, Context.successor_value, Block.successor?_past hb (hd ▸ hlink)]
  · next hd =>
    have hlink' : b.next ≠ some u.id := fun hu => hd (Option.some.inj (hlink.symm.trans hu))
    have hnext' : (c'.successor b).value = some (d.past u) := by
      rw [h.successor_value, hnext]
      rfl
    rw [Block.past_of_ne hlink', compileRest_of_some hnext']
    exact ⟨rfl, rfl⟩

theorem successor_ne_self (hd : (c.successor u).value = some d) : d.id ≠ u.id := fun hid =>
  h.apart (hid ▸ h.next_of_successor hd)

theorem chain_self (hrest : ∀ (hu : u.id ∉ seen) d, (c.successor u).value = some d →
      ∀ seen', InStep c u (seen.push u.id hu) seen' d →
        SameShown (c.compileChain path (seen.push u.id hu) d) (h.remainder path seen' d))
    (hs : InStep c u seen seen' u) :
    SameShown (c.compileChain path seen u) (c'.compileRest path seen' u) := by
  have hnext' : (c'.successor u).value = (c.successor u).value.map (·.past u) := h.successor_value u
  by_cases hu : u.id ∈ seen
  · rw [compileChain_of_mem hu]
    cases hnext : (c.successor u).value with
    | none =>
      rw [hnext, Option.map_none] at hnext'
      rw [compileRest_of_none hnext']
      exact ⟨rfl, requests_successor.symm⟩
    | some w =>
      rw [hnext, Option.map_some] at hnext'
      have hw := h.successor_ne_self hnext
      have hseen : w.id ∈ seen := (hs.ahead hu w hnext).resolve_right hw
      have hseen' : (w.past u).id ∈ seen' := by
        rw [Block.id_past]
        exact (hs.same _ hw).1 hseen
      rw [compileRest_of_some hnext', compileChain_of_mem hseen']
      exact ⟨rfl, rfl⟩
  · obtain ⟨hvalue, hrequests, -, -⟩ := h.text_self path
    have htail : SameShown (c.compileRest path (seen.push u.id hu) u)
        (c'.compileRest path seen' u) := by
      cases hnext : (c.successor u).value with
      | none =>
        rw [hnext, Option.map_none] at hnext'
        exact sameShown_of_none hnext hnext'
      | some w =>
        rw [hnext, Option.map_some] at hnext'
        have hstep := hrest hu w hnext seen' (hs.pass hu hnext)
        rw [remainder, if_neg (h.successor_ne_self hnext)] at hstep
        rwa [compileRest_of_some hnext, compileRest_of_some hnext']
    rw [compileChain_of_notMem hu (h.not_full _)]
    exact .trans (.cons_blank (by rw [hvalue]; rfl) hrequests) htail

theorem chain_other (hb : b.id ≠ u.id)
    (htext : SameText (c.compileBlock path b) (c'.compileBlock path (b.past u)))
    (hrest : ∀ (hb : b.id ∉ seen) d, (c.successor b).value = some d →
      ∀ seen', InStep c u (seen.push b.id hb) seen' d →
        SameShown (c.compileChain path (seen.push b.id hb) d) (h.remainder path seen' d))
    (hs : InStep c u seen seen' b) :
    SameShown (c.compileChain path seen b) (c'.compileChain path seen' (b.past u)) := by
  by_cases hseen : b.id ∈ seen
  · have hseen' : (b.past u).id ∈ seen' := by
      rw [Block.id_past]
      exact (hs.same _ hb).1 hseen
    rw [compileChain_of_mem hseen, compileChain_of_mem hseen']
    exact ⟨rfl, rfl⟩
  · have hseen' : (b.past u).id ∉ seen' := by
      rw [Block.id_past]
      exact mt (hs.same _ hb).2 hseen
    have htail : SameShown (c.compileRest path (seen.push b.id hseen) b)
        (c'.compileRest path (seen'.push (b.past u).id hseen') (b.past u)) := by
      have hfresh' : b.id ∉ seen' := mt (hs.same _ hb).2 hseen
      have hpush : seen'.push (b.past u).id hseen' = seen'.push b.id hfresh' :=
        Trail.ext (congrArg (· :: seen'.ids) (b.id_past u))
      rw [hpush]
      cases hnext : (c.successor b).value with
      | none => exact sameShown_of_none hnext (h.successor_past_of_none hnext)
      | some d =>
        rw [compileRest_of_some hnext]
        have hstep := hrest hseen d hnext _ (hs.push hb hseen hfresh' d)
        exact hstep.trans (h.compileRest_past hb hnext).symm
    rw [compileChain_of_notMem hseen (h.not_full _), compileChain_of_notMem hseen' (h.not_full' _)]
    exact .cons htext htail

section

variable {a : Application c} {a' : Application c'} (hpath : a'.path = a.path)
  (hblock : a'.block = a.block.past u) (hrule : a'.rule = a.rule)
  (hvalue : ∀ i d, .value i ∈ a.rule.slots a.block → (c.child a.block i).value = some d →
    SameText (c.compileBlock a.inner d) (c'.compileBlock a.inner (d.past u)))
  (hbody : ∀ i d, .body i ∈ a.rule.slots a.block → (c.child a.block i).value = some d →
    SameShown (c.compileChain a.inner .empty d) (c'.compileChain a.inner .empty (d.past u)))

include hblock in
theorem child_application (i : Nat) :
    (c'.child a'.block i).value = (c.child a.block i).value.map (·.past u) := by
  rw [hblock, h.child_past]

include hpath hblock in
omit h in
theorem inner_eq : a'.inner = a.inner := by
  apply Trail.ext
  have hid : a'.block.id = a.block.id := by rw [hblock, Block.id_past]
  have hcons : a'.block.id :: a'.path.ids = a.block.id :: a.path.ids := by rw [hid, hpath]
  exact hcons

include hblock hrule in
omit h in
theorem slots_eq : a'.rule.slots a'.block = a.rule.slots a.block := by
  rw [hrule, hblock, Rule.slots_past]

include hpath hblock hrule hvalue hbody

theorem render_eq : a'.rule.render c'.options a'.block a'.fillings =
    a.rule.render c.options a.block a.fillings := by
  have hinner := inner_eq hpath hblock
  have hslots := slots_eq hblock hrule
  have hsocket (i : Nat) : a'.fillings.value i = a.fillings.value i := by
    rw [a'.fillings_value, a.fillings_value, hslots]
    split
    · next hi =>
      unfold Application.socket
      rw [h.child_application hblock, hinner]
      cases hd : (c.child a.block i).value with
      | none => rfl
      | some d => exact congrArg some (hvalue i d hi hd).value.symm
    · rfl
  have hshown (i : Nat) : shown (a'.fillings.body i) = shown (a.fillings.body i) := by
    rw [a'.fillings_body, a.fillings_body, hslots]
    split
    · next hi =>
      unfold Application.statements
      rw [h.child_application hblock, hinner]
      cases hd : (c.child a.block i).value with
      | none => rfl
      | some d => exact (hbody i d hi hd).shown.symm
    · rfl
  rw [hrule, hblock, h.options, Rule.render_past]
  exact Rule.render_congr (funext hsocket) hshown a.rule c.options a.block

theorem sameText_application :
    SameText (c.compileBlock a.path a.block) (c'.compileBlock a'.path a'.block) := by
  have hrender := h.render_eq hpath hblock hrule hvalue hbody
  have hinner := inner_eq hpath hblock
  constructor
  · rw [a.compileBlock_value, a'.compileBlock_value, hrender]
  · have hslot : ∀ s ∈ a.rule.slots a.block,
        (c'.compileSlot a'.inner a'.block s).log.requests =
          (c.compileSlot a.inner a.block s).log.requests := by
      intro s hs
      rw [requests_compileSlot, requests_compileSlot, h.child_application hblock, hinner]
      cases hd : (c.child a.block s.index).value with
      | none => rfl
      | some d =>
        simp only [Option.map_some]
        cases s with
        | value i =>
          rw [Slot.place, Slot.place, compilePlace, compilePlace, Logged.map_def, Logged.map_def]
          exact (hvalue i d hs hd).requests.symm
        | body i =>
          rw [Slot.place, Slot.place, compilePlace, compilePlace, Logged.map_def, Logged.map_def]
          exact (hbody i d hs hd).requests.symm
    have hmodules : a'.module?.toList = a.module?.toList := by
      rw [← a'.render_modules, ← a.render_modules, hrender]
    rw [a.compileBlock_log, a'.compileBlock_log, slots_eq hblock hrule, hmodules]
    simp only [Log.append_def, Log.join, Log.require, Log.done, List.append_nil, List.flatMap_map]
    rw [List.flatMap_congr hslot]

end

theorem chain_from_start {first : Block}
    (hchain : ∀ seen', InStep c u .empty seen' first →
      SameShown (c.compileChain path .empty first) (h.remainder path seen' first))
    (hfirst : c.lookup.block? first.id = some first) :
    SameShown (c.compileChain path .empty first) (c'.compileChain path .empty (first.past u)) := by
  by_cases hid : first.id = u.id
  · obtain rfl : first = u := Option.some.inj (hfirst.symm.trans (hid ▸ h.found))
    have hempty : first.id ∉ Trail.empty := Trail.notMem_empty _
    have hstep : InStep c first .empty (Trail.empty.push first.id hempty) first := by
      refine ⟨fun id hne => ?_, fun hmem => absurd hmem hempty⟩
      rw [Trail.mem_push, or_iff_right hne]
    have hrest := hchain _ hstep
    rw [remainder, if_pos rfl] at hrest
    obtain ⟨-, -, hvalue, hrequests⟩ := h.text_self path
    rw [Block.past_self, compileChain_of_notMem (c := c') hempty (h.not_full' _)]
    exact hrest.trans (.symm (.cons_blank (by rw [hvalue]; rfl) hrequests))
  · have hstep : InStep c u .empty .empty first :=
      ⟨fun _ _ => Iff.rfl, fun hmem => absurd hmem (Trail.notMem_empty _)⟩
    have hrest := hchain _ hstep
    rwa [remainder, if_neg hid] at hrest

theorem found_of_link (hlink : c.lookup.Link b d) : c.lookup.block? d.id = some d := by
  obtain ⟨id, -, hd⟩ := hlink
  rw [h.named id d hd, hd]

theorem compile_past :
    (∀ path b, c.lookup.block? b.id = some b →
      SameText (c.compileBlock path b) (c'.compileBlock path (b.past u))) ∧
    ∀ path seen b, c.lookup.block? b.id = some b → ∀ seen', InStep c u seen seen' b →
      SameShown (c.compileChain path seen b) (h.remainder path seen' b) := by
  apply compile_induct c
  · intro path b ih hb
    have hid := b.id_past u
    by_cases hmem : b.id ∈ path
    · rw [compileBlock_of_mem hmem, compileBlock_of_mem (hid ▸ hmem)]
      exact ⟨rfl, rfl⟩
    have hmem' : (b.past u).id ∉ path := hid ▸ hmem
    cases hr : c.registry.rule? b.genus with
    | none =>
      have hr' : c'.registry.rule? (b.past u).genus = none := by rw [h.registry, b.genus_past, hr]
      rw [compileBlock_of_noRule hmem hr, compileBlock_of_noRule hmem' hr']
      exact ⟨rfl, rfl⟩
    | some r =>
      have hr' : c'.registry.rule? (b.past u).genus = some r := by rw [h.registry, b.genus_past, hr]
      obtain ⟨hvalue, hchain⟩ := ih hmem
      let a : Application c := ⟨path, b, r, hmem, hr⟩
      let a' : Application c' := ⟨path, b.past u, r, hmem', hr'⟩
      show SameText (c.compileBlock a.path a.block) (c'.compileBlock a'.path a'.block)
      refine h.sameText_application rfl rfl rfl ?_ ?_
      · intro i d hi hd
        exact hvalue d (.value hr hi hd) (h.found_of_link (link_of_child hd))
      · intro i d hi hd
        have hfirst := h.found_of_link (link_of_child hd)
        exact h.chain_from_start (hchain d (.body hr hi hd) hfirst) hfirst
  · intro path seen b hvalue hrest hb seen' hs
    have htail (hseen : b.id ∉ seen) (d : Block) (hd : (c.successor b).value = some d) :=
      hrest hseen d (.next hd) (h.found_of_link (link_of_successor hd))
    by_cases hid : b.id = u.id
    · obtain rfl : b = u := Option.some.inj (hb.symm.trans (hid ▸ h.found))
      rw [remainder, if_pos rfl]
      exact h.chain_self htail hs
    · rw [remainder, if_neg hid]
      exact h.chain_other hid (hvalue hb) htail hs

end Bypass

end Context

namespace BlockGraph

variable {g : BlockGraph} {u : Block}

theorem mem_successors_bypass (hu : u ∈ g.blocks) {id : BlockId} (hid : id ≠ u.id) :
    id ∈ (g.bypass u).successors ↔ id ∈ g.successors := by
  rw [mem_successors, mem_successors]
  constructor
  · rintro ⟨d, hd, hnext⟩
    obtain ⟨b, hb, rfl⟩ := List.mem_map.1 hd
    by_cases hpast : b.id ≠ u.id ∧ b.next = some u.id
    · rw [Block.successor?_past hpast.1 hpast.2] at hnext
      exact ⟨u, hu, hnext⟩
    · rw [Block.past, if_neg hpast] at hnext
      exact ⟨b, hb, hnext⟩
  · rintro ⟨b, hb, hnext⟩
    have hlink : b.next = some id := (Option.filter_eq_some_iff.1 hnext).1
    have hpast : b.past u = b :=
      Block.past_of_ne fun hlink' => hid (Option.some.inj (hlink.symm.trans hlink'))
    exact ⟨b, List.mem_map.2 ⟨b, hb, hpast⟩, hnext⟩

theorem filter_roots_bypass (hu : u ∈ g.blocks) (o : Options) {p : Block → Bool}
    (hp : ∀ b : Block, p (b.past u) = p b) :
    ((((g.bypass u).blocks.filter (Roots.isRoot o (g.bypass u))).filter p).map Block.id).filter
        (· ≠ u.id) =
      (((g.blocks.filter (Roots.isRoot o g)).filter p).map Block.id).filter (· ≠ u.id) := by
  have hblocks : (g.bypass u).blocks = g.blocks.map (·.past u) := rfl
  rw [hblocks]
  simp only [List.filter_map, List.map_map, List.filter_filter, Function.comp_def, Block.id_past, hp]
  refine congrArg (List.map Block.id) (List.filter_congr fun b _ => ?_)
  by_cases hid : b.id = u.id
  · simp [hid]
  · simp [hid, Roots.isRoot, mem_successors_bypass hu hid]

theorem select_bypass (hu : u ∈ g.blocks) (o : Options) :
    (Roots.select o (g.bypass u)).inOutputOrder.filter (· ≠ u.id) =
      (Roots.select o g).inOutputOrder.filter (· ≠ u.id) := by
  unfold Roots.select Roots.inOutputOrder
  dsimp only
  rw [List.filter_append, List.filter_append, filter_roots_bypass hu o fun b => by rw [b.isSet_past],
    filter_roots_bypass hu o fun b => by rw [b.isSet_past]]

end BlockGraph

namespace Context

theorem bypass_ofGraph {g : BlockGraph} {u : Block} {r : Registry} {o : Options}
    (hu : u ∈ g.blocks) (hrule : r.rule? u.genus = none) (hlimit : o.maxChainLength = 0)
    (hloop : u.next ≠ some u.id) :
    Bypass ⟨.ofGraph g, r, o⟩ ⟨.ofGraph (g.bypass u), r, o⟩ u where
  options := rfl
  registry := rfl
  block? id := by
    rw [Lookup.block?_ofGraph, Lookup.block?_ofGraph]
    exact g.get?_bypass u id
  named id d hd := by
    rw [Lookup.block?_ofGraph] at hd
    exact BlockGraph.id_of_get? hd
  found := by
    rw [Lookup.block?_ofGraph]
    exact BlockGraph.get?_of_mem hu
  unruled := hrule
  unlimited := hlimit
  apart := hloop

theorem Bypass.compileId {c c' : Context} {u : Block} (h : Bypass c c' u) (id : BlockId) :
    SameText (c.compileId id) (c'.compileId id) := by
  unfold Context.compileId
  rw [h.block?]
  cases hb : c.lookup.block? id with
  | none => exact ⟨rfl, rfl⟩
  | some b => exact h.compile_past.1 .empty b (by rw [h.named id b hb, hb])

end Context

namespace Program

theorem sections_map (text : BlockId → String) (ids : List BlockId) :
    sections (ids.map text) = ids.flatMap fun id => sections [text id] := by
  induction ids with
  | nil => rfl
  | cons id ids ih =>
    rw [List.flatMap_cons, ← ih]
    simp only [sections, List.map_cons, List.map_nil, ← List.filter_append, List.singleton_append]

theorem flatMap_filter_ne {f : BlockId → List String} {id : BlockId} (h : f id = [])
    (ids : List BlockId) : (ids.filter (· ≠ id)).flatMap f = ids.flatMap f := by
  induction ids with
  | nil => rfl
  | cons x xs ih =>
    by_cases hx : x = id
    · simpa [hx, h] using ih
    · simpa [hx] using ih

theorem ofRoots_bypass {c c' : Context} {u : Block} (h : c.Bypass c' u) {roots roots' : Roots}
    (hroots : roots'.inOutputOrder.filter (· ≠ u.id) = roots.inOutputOrder.filter (· ≠ u.id)) :
    (ofRoots c' roots').source = (ofRoots c roots).source ∧
      (ofRoots c' roots').modules = (ofRoots c roots).modules := by
  have hself : (c.compileId u.id).value = "" ∧ (c.compileId u.id).log.requests = [] := by
    unfold Context.compileId
    rw [h.found]
    obtain ⟨hvalue, hrequests, -, -⟩ := h.text_self .empty
    exact ⟨hvalue, hrequests⟩
  have hflat (f : BlockId → List String) (hf : f u.id = []) :
      roots'.inOutputOrder.flatMap f = roots.inOutputOrder.flatMap f := by
    rw [← flatMap_filter_ne hf, hroots, flatMap_filter_ne hf]
  have hvalue : (fun id => (c'.compileId id).value) = fun id => (c.compileId id).value :=
    funext fun id => (h.compileId id).value.symm
  have hrequests : (fun id => (c'.compileId id).log.requests) =
      fun id => (c.compileId id).log.requests :=
    funext fun id => (h.compileId id).requests.symm
  have hmodules : (ofRoots c' roots').modules = (ofRoots c roots).modules := by
    simp only [ofRoots, Logged.traverse_eq, Log.modules, Log.join, List.flatMap_map, hrequests]
    rw [hflat _ hself.2]
  refine ⟨?_, hmodules⟩
  have hsections : sections (roots'.inOutputOrder.map fun id => (c'.compileId id).value) =
      sections (roots.inOutputOrder.map fun id => (c.compileId id).value) := by
    have hblank : sections [(c.compileId u.id).value] = [] := by
      rw [hself.1]
      rfl
    rw [hvalue, sections_map, sections_map,
      hflat (fun id => sections [(c.compileId id).value]) hblank]
  have hsource (c : Context) (roots : Roots) : (ofRoots c roots).source =
      assemble c.options (ofRoots c roots).modules
        (roots.inOutputOrder.map fun id => (c.compileId id).value) := by
    simp only [ofRoots, Logged.traverse_eq]
  rw [hsource, hsource, assemble_eq, assemble_eq, hsections, hmodules, h.options]

theorem compile_bypass {g : BlockGraph} {u : Block} {r : Registry} {o : Options}
    (hu : u ∈ g.blocks) (hrule : r.rule? u.genus = none) (hlimit : o.maxChainLength = 0) :
    (compile r o (g.bypass u)).source = (compile r o g).source ∧
      (compile r o (g.bypass u)).modules = (compile r o g).modules := by
  by_cases hloop : u.next = some u.id
  · rw [g.bypass_of_loop hloop]
    exact ⟨rfl, rfl⟩
  · exact ofRoots_bypass (Context.bypass_ofGraph hu hrule hlimit hloop)
      (BlockGraph.select_bypass hu o)

end Program

def Block.turn : Block :=
  { ofGenus "teleport" with id := .ofNat 3, next := some (.ofNat 4) }

def BlockGraph.turning : BlockGraph where
  blocks :=
    [{ Block.ofGenus "runOnce" with
        id := .ofNat 1
        properties := Table.empty.insert "is-root-block" "yes"
        sockets := [(Socket.any "do").connect (.ofNat 2)] },
      { Block.ofGenus "click" with id := .ofNat 2, next := some (.ofNat 3) },
      .turn,
      { Block.ofGenus "pi" with id := .ofNat 4, next := some (.ofNat 3) },
      { Block.ofGenus "while" with
        id := .ofNat 5
        properties := Table.empty.insert "is-root-block" "yes"
        sockets := [Socket.any "test", (Socket.any "do").connect (.ofNat 3)] }]
  named := by decide
  distinct := by decide

theorem Program.compile_bypass_turning :
    let o := { Options.standard with maxChainLength := 0 }
    let g := BlockGraph.turning.bypass .turn
    g.blocks.map Block.next = [none, some (.ofNat 4), some (.ofNat 4), some (.ofNat 4), none] ∧
      (compile .standard o g).source = (compile .standard o .turning).source ∧
      (compile .standard o g).modules = (compile .standard o .turning).modules := by
  intro o g
  have hmem : Block.turn ∈ BlockGraph.turning.blocks := by simp [BlockGraph.turning]
  exact ⟨by decide, compile_bypass hmem rfl rfl⟩

end VisualProgram
