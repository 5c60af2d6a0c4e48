import Mathlib.Data.Nat.Find
import Mathlib.Order.Bounds.Defs
import VisualProgram.Proofs.Walks

namespace VisualProgram

namespace Lookup

variable {l : Lookup} {first e : Block} {bs : List Block} {n : Nat}

def after? (l : Lookup) (first : Block) : Nat → Option Block
  | 0 => some first
  | n + 1 => (l.after? first n).bind l.next?

def Repeats (l : Lookup) (first : Block) (n : Nat) : Prop :=
  ∃ e, l.after? first n = some e ∧ ∃ i < n, ∃ d, l.after? first i = some d ∧ d.id = e.id

theorem id_mem_iff (h : bs.map some = (List.range n).map (l.after? first)) {id : BlockId} :
    id ∈ bs.map Block.id ↔ ∃ i < n, ∃ d, l.after? first i = some d ∧ d.id = id := by
  have hmem (d : Block) : d ∈ bs ↔ ∃ i < n, l.after? first i = some d := by
    have hd : some d ∈ bs.map some ↔ d ∈ bs := by simp
    rw [← hd, h]
    simp
  simp only [List.mem_map, hmem]
  constructor
  · rintro ⟨d, ⟨i, hi, hd⟩, hid⟩
    exact ⟨i, hi, d, hd, hid⟩
  · rintro ⟨i, hi, d, hd, hid⟩
    exact ⟨d, ⟨i, hi, hd⟩, hid⟩

theorem walk_of_after? (h : l.after? first n = some e) (hfirst : ∀ k < n, ¬l.Repeats first k) :
    ∃ bs, l.Walk first bs e ∧ bs.map some = (List.range n).map (l.after? first) ∧
      (bs.map Block.id).Nodup := by
  induction n generalizing e with
  | zero =>
    cases h
    exact ⟨[], .stay, rfl, .nil⟩
  | succ n ih =>
    obtain ⟨d, hd, hnext⟩ := Option.bind_eq_some_iff.1 h
    obtain ⟨bs, hwalk, hbs, hnodup⟩ := ih hd fun k hk => hfirst k (Nat.lt_succ_of_lt hk)
    refine ⟨bs ++ [d], hwalk.snoc hnext, ?_, ?_⟩
    · rw [List.map_append, hbs, List.range_succ, List.map_append, List.map_singleton,
        List.map_singleton, hd]
    · have hnew : d.id ∉ bs.map Block.id := fun hmem =>
        hfirst n (Nat.lt_succ_self n) ⟨d, hd, (id_mem_iff hbs).1 hmem⟩
      rw [List.map_append, List.map_singleton, List.nodup_append]
      refine ⟨hnodup, List.nodup_singleton _, fun id hid id' hid' => ?_⟩
      rintro rfl
      exact hnew (List.mem_singleton.1 hid' ▸ hid)

theorem exists_repeats (hgoes : ∀ n, ∃ e, l.after? first n = some e) : ∃ n, l.Repeats first n := by
  -- there are not that many ids
  by_contra hnever
  obtain ⟨e, he⟩ := hgoes (UInt64.size + 1)
  obtain ⟨bs, -, hbs, hnodup⟩ := walk_of_after? he fun k _ hk => hnever ⟨k, hk⟩
  have hlength : bs.length = UInt64.size + 1 := by simpa using congrArg List.length hbs
  have hle := Trail.length_le ⟨bs.map Block.id, hnodup⟩
  rw [Trail.length, List.length_map, hlength] at hle
  omega

end Lookup

namespace Context

variable {c : Context} {g : BlockGraph} {first : Block} {path : Trail} {n : Nat}

def StopsAt (c : Context) (first : Block) (n : Nat) : Prop :=
  c.lookup.after? first n = none ∨ c.lookup.Repeats first n ∨
    0 < c.options.maxChainLength ∧ n = c.options.maxChainLength

inductive StopReport (c : Context) (first : Block) : Nat → List Diagnostic → Prop
  | ended {n : Nat} {last : Block} : c.lookup.after? first n = some last →
      last.next = none ∨ last.next = some .null → StopReport c first (n + 1) []
  | unusable {n : Nat} {last : Block} {target : BlockId} : c.lookup.after? first n = some last →
      last.next = some target → target ≠ .null → c.lookup.block? target = none →
      StopReport c first (n + 1) [.malformedReference last.id target]
  | repeated {n : Nat} {e : Block} : c.lookup.after? first n = some e → c.lookup.Repeats first n →
      StopReport c first n [.cyclicStructure e.id]
  | cut {n : Nat} {e : Block} : c.lookup.after? first n = some e → ¬c.lookup.Repeats first n →
      0 < c.options.maxChainLength → n = c.options.maxChainLength →
      StopReport c first n [.chainTooLong e.id c.options.maxChainLength]

theorem exists_isLeast_stopsAt (c : Context) (first : Block) :
    ∃ m, IsLeast {n | c.StopsAt first n} m := by
  classical
  have hstops : ∃ n, c.StopsAt first n := by
    by_contra hnever
    simp only [StopsAt, not_exists, not_or] at hnever
    obtain ⟨n, hn⟩ := Lookup.exists_repeats fun n => Option.ne_none_iff_exists'.1 (hnever n).1
    exact (hnever n).2.1 hn
  exact ⟨Nat.find hstops, Nat.find_spec hstops, fun n hn => Nat.find_min' hstops hn⟩

theorem limit_of_not_stopsAt (hstop : ∀ k < n, ¬c.StopsAt first k) :
    c.options.maxChainLength = 0 ∨ n ≤ c.options.maxChainLength := by
  by_contra hover
  exact hstop c.options.maxChainLength (by omega) (.inr (.inr ⟨by omega, rfl⟩))

def compileEach (c : Context) (path : Trail) (bs : List Block) (added : List Diagnostic) :
    Logged (List String) :=
  ⟨bs.map fun b => (c.compileBlock path b).value,
    .join (bs.map fun b => (c.compileBlock path b).log) ++ ⟨[], added, []⟩⟩

theorem compileChain_of_after? (path : Trail) {e : Block} (hstop : ∀ k < n, ¬c.StopsAt first k)
    (he : c.lookup.after? first n = some e) :
    ∃ (bs : List Block) (hnodup : (bs.map Block.id).reverse.Nodup),
      bs.map some = (List.range n).map (c.lookup.after? first) ∧
      (e.id ∈ bs.map Block.id ↔ c.lookup.Repeats first n) ∧
      c.compileChain path .empty first = (do
        let before ← Logged.traverse (c.compileBlock path) bs
        let rest ← c.compileChain path ⟨_, hnodup⟩ e
        return before ++ rest) := by
  obtain ⟨bs, hwalk, hbs, hnodup⟩ := Lookup.walk_of_after? he fun k hk hrepeats =>
    hstop k hk (.inr (.inl hrepeats))
  have hrepeats : e.id ∈ bs.map Block.id ↔ c.lookup.Repeats first n := by
    rw [Lookup.id_mem_iff hbs]
    simp [Lookup.Repeats, he]
  refine ⟨bs, List.nodup_reverse.2 hnodup, hbs, hrepeats, ?_⟩
  apply compileChain_of_walk hwalk (List.append_nil _).symm
  have hlength : bs.length = n := by simpa using congrArg List.length hbs
  simpa [Trail.length, hlength] using limit_of_not_stopsAt hstop

theorem compileEach_append {bs ds : List Block} {added : List Diagnostic} :
    (do
      let before ← Logged.traverse (c.compileBlock path) bs
      let rest ← c.compileEach path ds added
      return before ++ rest) = c.compileEach path (bs ++ ds) added := by
  rw [Logged.traverse_eq]
  simp [compileEach, Logged.bind_def, Logged.pure_def, Log.append_def, Log.join, Log.empty]

def StopsWith (c : Context) (path : Trail) (first : Block) (n : Nat) : Prop :=
  ∃ bs added, bs.map some = (List.range n).map (c.lookup.after? first) ∧
    (bs.map Block.id).Nodup ∧ c.compileChain path .empty first = c.compileEach path bs added ∧
    c.StopReport first n added

theorem stopsWith_of_met {e : Block} (hstop : ∀ k < n, ¬c.StopsAt first k)
    (hn : c.StopsAt first n) (he : c.lookup.after? first n = some e) :
    c.StopsWith path first n := by
  obtain ⟨bs, hnodup, hbs, hrepeats, hchain⟩ := compileChain_of_after? path hstop he
  have hends {added : List Diagnostic}
      (hrest : c.compileChain path ⟨_, hnodup⟩ e = c.compileEach path [] added) :
      c.compileChain path .empty first = c.compileEach path bs added := by
    rw [hchain, hrest, compileEach_append, List.append_nil]
  have hmem : e.id ∈ (⟨_, hnodup⟩ : Trail) ↔ c.lookup.Repeats first n := by
    rw [← hrepeats]
    exact List.mem_reverse
  -- a block that comes again is reported as such, even where the limit is met as well
  by_cases hagain : c.lookup.Repeats first n
  · refine ⟨bs, _, hbs, List.nodup_reverse.1 hnodup, hends ?_, .repeated he hagain⟩
    rw [compileChain_of_mem (hmem.2 hagain)]
    rfl
  · obtain ⟨hmax, rfl⟩ : 0 < c.options.maxChainLength ∧ n = c.options.maxChainLength := by
      simpa [StopsAt, he, hagain] using hn
    refine ⟨bs, _, hbs, List.nodup_reverse.1 hnodup, hends ?_, .cut he hagain hmax rfl⟩
    have hlength : bs.length = c.options.maxChainLength := by
      simpa using congrArg List.length hbs
    rw [compileChain_of_full (mt hmem.1 hagain)]
    · rfl
    · simp [Options.chainIsFull_iff, Trail.length, hlength, hmax]

theorem successor_report (hg : c.lookup = .ofGraph g) {last : Block}
    (hlast : c.lookup.after? first n = some last) (hend : c.lookup.next? last = none) :
    ∃ added, (c.successor last).log = ⟨[], added, []⟩ ∧ c.StopReport first (n + 1) added := by
  unfold successor
  cases htarget : last.successor? with
  | none =>
    refine ⟨[], rfl, .ended hlast ?_⟩
    cases hnext : last.next with
    | none => exact .inl rfl
    | some id =>
      right
      simpa [Block.successor?, hnext] using htarget
  | some target =>
    obtain ⟨hnext, hnull⟩ := Option.filter_eq_some_iff.1 htarget
    have hblock : c.lookup.block? target = none := by
      rwa [Lookup.next?, htarget] at hend
    have hvalid : ¬c.lookup.isValid target = true := by
      rw [hg, Lookup.block?_ofGraph] at hblock
      rw [hg, Lookup.isValid_ofGraph_iff, hblock]
      simp
    refine ⟨_, ?_, .unusable hlast hnext (of_decide_eq_true hnull) hblock⟩
    dsimp only
    rw [resolve, if_neg hvalid]
    rfl

theorem stopsWith_of_end (hg : c.lookup = .ofGraph g) {last : Block}
    (hstop : ∀ k < n + 1, ¬c.StopsAt first k) (hlast : c.lookup.after? first n = some last)
    (hend : c.lookup.next? last = none) : c.StopsWith path first (n + 1) := by
  obtain ⟨bs, hnodup, hbs, hrepeats, hchain⟩ :=
    compileChain_of_after? path (fun k hk => hstop k (Nat.lt_succ_of_lt hk)) hlast
  obtain ⟨added, hlog, hreport⟩ := successor_report hg hlast hend
  have hgoes := hstop n (Nat.lt_succ_self n)
  simp only [StopsAt, hlast, reduceCtorEq, false_or, not_or] at hgoes
  have hnew : last.id ∉ bs.map Block.id := mt hrepeats.1 hgoes.1
  refine ⟨bs ++ [last], added, ?_, ?_, ?_, hreport⟩
  · rw [List.map_append, hbs, List.range_succ, List.map_append, List.map_singleton,
      List.map_singleton, hlast]
  · rw [List.map_append, List.map_singleton, ← List.concat_eq_append]
    exact (List.nodup_reverse.1 hnodup).concat hnew
  · have hfull : ¬c.options.chainIsFull bs.length = true := by
      have hlength : bs.length = n := by simpa using congrArg List.length hbs
      have hlimit := limit_of_not_stopsAt hstop
      rw [Options.chainIsFull_iff]
      omega
    have hlastOnly : c.compileChain path ⟨_, hnodup⟩ last = c.compileEach path [last] added := by
      rw [compileChain_of_none (mt List.mem_reverse.1 hnew), hlog]
      · simp [compileEach, Log.join, Log.append_def]
      · simpa [Trail.length] using hfull
      · rw [successor_value]
        exact hend
    rw [hchain, hlastOnly, compileEach_append]

theorem compileChain_walk (g : BlockGraph) (r : Registry) (o : Options) (path : Trail)
    (first : Block) :
    let c : Context := ⟨.ofGraph g, r, o⟩
    ∃ m bs added, IsLeast {n | c.StopsAt first n} m ∧
      bs.map some = (List.range m).map (c.lookup.after? first) ∧ (bs.map Block.id).Nodup ∧
      c.compileChain path .empty first = c.compileEach path bs added ∧
      c.StopReport first m added := by
  intro c
  obtain ⟨m, hm, hleast⟩ := c.exists_isLeast_stopsAt first
  have hstop : ∀ k < m, ¬c.StopsAt first k := fun k hk h => absurd (hleast h) (Nat.not_le.2 hk)
  suffices h : c.StopsWith path first m by
    obtain ⟨bs, added, h⟩ := h
    exact ⟨m, bs, added, ⟨hm, hleast⟩, h⟩
  cases he : c.lookup.after? first m with
  | some e => exact stopsWith_of_met hstop hm he
  | none =>
    cases m with
    | zero => cases he
    | succ n =>
      obtain ⟨last, hlast⟩ := Option.ne_none_iff_exists'.1 fun h => hstop n (Nat.lt_succ_self n) (.inl h)
      rw [Lookup.after?, hlast] at he
      exact stopsWith_of_end rfl hstop hlast he

end Context

end VisualProgram
