import VisualProgram.Proofs.Applications
import VisualProgram.Proofs.SharedPass
import VisualProgram.Registry.Standard

namespace VisualProgram

open Text

namespace Application

variable {c : Context} (a : Application c)

def socketModule : String :=
  trim (dropStart "import " (unquote ((a.socket 1).getD "")))

def module? : Option String :=
  match a.rule with
  | .constant _ module => module
  | .call _ _ _ module => module
  | .handler .importedCall => some a.socketModule
  | _ => none

def requests : List String :=
  a.module?.toList.filter (· ≠ "")

end Application

namespace Log

variable {c : Context}

structure Of (l : Log) (applied : Application c → Prop) : Prop where
  mem_requests : ∀ m, m ∈ l.requests ↔ ∃ a, applied a ∧ m ∈ a.requests
  mem_applied : ∀ id, id ∈ l.applied ↔ ∃ a, applied a ∧ a.block.id = id

variable {l l' : Log} {s t : Application c → Prop}

theorem Of.congr (h : l.Of s) (hst : ∀ a, t a ↔ s a) : l.Of t where
  mem_requests m := by simp only [h.mem_requests, hst]
  mem_applied id := by simp only [h.mem_applied, hst]

theorem of_nothing (hrequests : l.requests = []) (happlied : l.applied = [])
    (hs : ∀ a, ¬s a) : l.Of s where
  mem_requests m := by simp [hrequests, hs]
  mem_applied id := by simp [happlied, hs]

theorem Of.append (h : l.Of s) (h' : l'.Of t) : (l ++ l').Of fun a => s a ∨ t a where
  mem_requests m := by
    simp only [append_def, List.mem_append, h.mem_requests, h'.mem_requests, or_and_right,
      exists_or]
  mem_applied id := by
    simp only [append_def, List.mem_append, h.mem_applied, h'.mem_applied, or_and_right, exists_or]

theorem Of.join {ι : Type} {is : List ι} {f : ι → Log} {s : ι → Application c → Prop}
    (h : ∀ i ∈ is, (f i).Of (s i)) : (join (is.map f)).Of fun a => ∃ i ∈ is, s i a where
  mem_requests m := by
    simp only [Log.join, List.flatMap_map, List.mem_flatMap]
    constructor
    · rintro ⟨i, hi, hm⟩
      obtain ⟨a, ha, hm⟩ := ((h i hi).mem_requests m).1 hm
      exact ⟨a, ⟨i, hi, ha⟩, hm⟩
    · rintro ⟨a, ⟨i, hi, ha⟩, hm⟩
      exact ⟨i, hi, ((h i hi).mem_requests m).2 ⟨a, ha, hm⟩⟩
  mem_applied id := by
    simp only [Log.join, List.flatMap_map, List.mem_flatMap]
    constructor
    · rintro ⟨i, hi, hid⟩
      obtain ⟨a, ha, hid⟩ := ((h i hi).mem_applied id).1 hid
      exact ⟨a, ⟨i, hi, ha⟩, hid⟩
    · rintro ⟨a, ⟨i, hi, ha⟩, hid⟩
      exact ⟨i, hi, ((h i hi).mem_applied id).2 ⟨a, ha, hid⟩⟩

theorem of_self (a : Application c) : (require a.module?.toList ++ done a.block.id).Of (· = a) where
  mem_requests m := by simp [append_def, require, done, Application.requests]
  mem_applied id := by simp [append_def, require, done, eq_comm]

end Log

namespace Application

variable {c : Context} (a : Application c)

theorem render_modules :
    (a.rule.render c.options a.block a.fillings).modules = a.module?.toList := by
  rw [module?]
  cases h : a.rule with
  | constant text module => rfl
  | call name missing sockets module => rfl
  | operator token missing sockets => rfl
  | handler x =>
    cases x with
    | importedCall =>
      simp only [Rule.render, Handler.render, Fillings.importedModule, Fillings.name,
        a.fillings_value_of_call (.inr h)]
      rfl
    | _ => rfl

theorem compileBlock_log : (c.compileBlock a.path a.block).log =
    .join ((a.rule.slots a.block).map fun s => (c.compileSlot a.inner a.block s).log) ++
      (.require a.module?.toList ++ .done a.block.id) := by
  rw [Context.compileBlock_of_rule a.fresh a.ruled, Context.applyRule_eq, ← Log.append_assoc,
    ← a.render_modules]
  rfl

end Application

namespace Context

variable {c : Context}

def SlotApplies (c : Context) (path : Trail) : Slot → Block → Application c → Prop
  | .value _, d, e => c.Applies path d e
  | .body _, first, e => ∃ d, c.ChainPart .empty first d ∧ c.Applies path d e

theorem applies_iff (a e : Application c) : c.Applies a.path a.block e ↔
    (∃ s ∈ a.rule.slots a.block, ∃ d, (c.child a.block s.index).value = some d ∧
      c.SlotApplies a.inner s d e) ∨ e = a := by
  have hsame {a' : Application c} (hpath : a'.path = a.path) (hblock : a'.block = a.block) :
      a' = a := by
    have hrule := a'.ruled
    rw [hblock, a.ruled] at hrule
    cases a
    cases a'
    simp_all
  constructor
  · generalize hp : a.path = p
    generalize hb : a.block = b
    rintro (_ | ⟨a', hi, hd, he⟩ | ⟨a', hi, hd, hx, he⟩)
    · exact .inr (hsame hp.symm hb.symm)
    · obtain rfl := hsame hp.symm hb.symm
      exact .inl ⟨.value _, hi, _, hd, he⟩
    · obtain rfl := hsame hp.symm hb.symm
      exact .inl ⟨.body _, hi, _, hd, _, hx, he⟩
  · rintro (⟨s, hs, d, hd, he⟩ | rfl)
    · cases s with
      | value i => exact .value a hs hd he
      | body i =>
        obtain ⟨x, hx, he⟩ := he
        exact .body a hs hd hx he
    · exact .self e

theorem Applies.head {path : Trail} {b : Block} {e : Application c} (h : c.Applies path b e) :
    b.id ∉ path ∧ ∃ r, c.registry.rule? b.genus = some r := by
  cases h with
  | self => exact ⟨e.fresh, e.rule, e.ruled⟩
  | value a _ _ _ => exact ⟨a.fresh, a.rule, a.ruled⟩
  | body a _ _ _ _ => exact ⟨a.fresh, a.rule, a.ruled⟩

variable {b : Block} {s : Application c → Prop}

theorem resolve_of_nothing (owner target : BlockId) (hs : ∀ a, ¬s a) :
    (c.resolve owner target).log.Of s := by
  unfold resolve
  split
  · exact Log.of_nothing rfl rfl hs
  · exact Log.of_nothing rfl rfl hs

theorem child_of_nothing (b : Block) (index : Nat) (hs : ∀ a, ¬s a) :
    (c.child b index).log.Of s := by
  unfold child
  split
  · exact resolve_of_nothing _ _ hs
  · exact Log.of_nothing rfl rfl hs

theorem successor_of_nothing (b : Block) (hs : ∀ a, ¬s a) : (c.successor b).log.Of s := by
  unfold successor
  split
  · exact resolve_of_nothing _ _ hs
  · exact Log.of_nothing rfl rfl hs

theorem log_of_slot {path : Trail} {slot : Slot}
    (h : ∀ d, (c.child b slot.index).value = some d →
      (c.compilePlace path (slot.place d)).log.Of (c.SlotApplies path slot d)) :
    (c.compileSlot path b slot).log.Of fun e =>
      ∃ d, (c.child b slot.index).value = some d ∧ c.SlotApplies path slot d e := by
  cases hd : (c.child b slot.index).value with
  | none =>
    rw [compileSlot_of_none hd]
    exact child_of_nothing b slot.index fun _ ha => by simp at ha
  | some d =>
    rw [compileSlot_of_some hd]
    exact (h d hd).congr fun e => by simp

theorem log_of_block {path : Trail}
    (h : ∀ a : Application c, a.path = path → a.block = b → ∀ slot ∈ a.rule.slots b, ∀ d,
      (c.child b slot.index).value = some d →
      (c.compilePlace a.inner (slot.place d)).log.Of (c.SlotApplies a.inner slot d)) :
    (c.compileBlock path b).log.Of (c.Applies path b) := by
  by_cases hmem : b.id ∈ path
  · rw [compileBlock_of_mem hmem]
    exact Log.of_nothing rfl rfl fun _ ha => ha.head.1 hmem
  cases hr : c.registry.rule? b.genus with
  | none =>
    rw [compileBlock_of_noRule hmem hr]
    refine Log.of_nothing rfl rfl fun _ ha => ?_
    obtain ⟨r, hr'⟩ := ha.head.2
    rw [hr] at hr'
    cases hr'
  | some r =>
    let a : Application c := ⟨path, b, r, hmem, hr⟩
    have hslots := Log.Of.join fun slot hslot => log_of_slot (h a rfl rfl slot hslot)
    have hlog : (c.compileBlock path b).log = _ := a.compileBlock_log
    rw [hlog]
    exact (hslots.append (Log.of_self a)).congr (applies_iff a)

theorem log_of_chain {path seen : Trail} (hb : (c.compileBlock path b).log.Of (c.Applies path b))
    (hrest : ∀ (h : b.id ∉ seen) d, (c.successor b).value = some d →
      (c.compileChain path (seen.push b.id h) d).log.Of fun a =>
        ∃ e, c.ChainPart (seen.push b.id h) d e ∧ c.Applies path e a) :
    (c.compileChain path seen b).log.Of fun a =>
      ∃ d, c.ChainPart seen b d ∧ c.Applies path d a := by
  by_cases h : b.id ∈ seen
  · rw [compileChain_of_mem h]
    refine Log.of_nothing rfl rfl ?_
    rintro a ⟨d, hd, -⟩
    exact not_chainPart_of_mem h hd
  by_cases hfull : c.options.chainIsFull seen.length = true
  · rw [compileChain_of_full h hfull]
    refine Log.of_nothing rfl rfl ?_
    rintro a ⟨d, hd, -⟩
    exact not_chainPart_of_full hfull hd
  simp only [chainPart_iff h hfull, or_and_right, exists_or, exists_eq_left]
  cases hnext : (c.successor b).value with
  | none =>
    rw [compileChain_of_none h hfull hnext]
    exact hb.append (successor_of_nothing b fun _ ha => by simp at ha)
  | some d =>
    rw [compileChain_of_some h hfull hnext]
    simp only [Logged.bind_def, Logged.pure_def, Log.append_empty]
    refine (hb.append (hrest h d hnext)).congr fun a => ?_
    simp

theorem log_of_applies (c : Context) :
    (∀ path b, (c.compileBlock path b).log.Of (c.Applies path b)) ∧
      ∀ path seen b, (c.compileChain path seen b).log.Of fun a =>
        ∃ d, c.ChainPart seen b d ∧ c.Applies path d a := by
  -- a rule looks further only inside a longer path, and a chain only behind a longer trail
  apply compile_induct c
  · intro path b ih
    apply log_of_block
    rintro a rfl rfl slot hslot d hd
    obtain ⟨hvalue, hchain⟩ := ih a.fresh
    cases slot with
    | value i =>
      rw [Slot.place, compilePlace, Logged.map_def]
      exact hvalue d (.value a.ruled hslot hd)
    | body i =>
      rw [Slot.place, compilePlace, Logged.map_def]
      exact hchain d (.body a.ruled hslot hd)
  · intro path seen b hb ih
    exact log_of_chain hb fun h d hnext => ih h d (.next hnext)

end Context

namespace Application

variable {c : Context} (a : Application c)

theorem module?_eq_some_iff {m : String} : a.module? = some m ↔
    (∃ text, a.rule = .constant text (some m)) ∨
      (∃ name missing sockets, a.rule = .call name missing sockets (some m)) ∨
      a.rule = .handler .importedCall ∧ a.socketModule = m := by
  rw [module?]
  cases a.rule with
  | constant text module => simp
  | call name missing sockets module => simp
  | operator token missing sockets => simp
  | handler h => cases h <;> simp

theorem importedCall_text (h : a.rule = .handler .importedCall) :
    (c.compileBlock a.path a.block).value =
      callText (qualify a.socketModule (unquote ((a.socket 0).getD "")))
        ((List.range' 2 (a.block.sockets.length - 2)).filterMap a.socket) := by
  rw [a.compileBlock_value, h]
  simp only [Rule.render, Handler.render, Fillings.importedModule, Fillings.name, Fillings.present,
    a.fillings_value_of_call (.inr h)]
  rfl

end Application

theorem qualify_of_ne_empty {module : String} (h : module ≠ "") (name : String) :
    qualify module name = if '.' ∈ name.toList then name else module ++ "." ++ name := by
  simp [qualify, h]

theorem dot_mem_qualify {module : String} (h : module ≠ "") (name : String) :
    '.' ∈ (qualify module name).toList := by
  rw [qualify_of_ne_empty h]
  split
  · assumption
  · simp [String.toList_append]

namespace Program

def Applied (c : Context) (roots : Roots) (a : Application c) : Prop :=
  ∃ root ∈ roots.inOutputOrder, ∃ b, c.lookup.block? root = some b ∧ c.Applies .empty b a

theorem log_of_applied (c : Context) (roots : Roots) :
    (Logged.traverse c.compileId roots.inOutputOrder).log.Of (Applied c roots) := by
  rw [Logged.traverse_eq]
  apply Log.Of.join
  intro root _
  unfold Context.compileId
  cases h : c.lookup.block? root with
  | none => exact Log.of_nothing rfl rfl fun _ ha => by simp at ha
  | some b => exact ((Context.log_of_applies c).1 .empty b).congr fun a => by simp

theorem modules_exact (c : Context) (roots : Roots) :
    let p := ofRoots c roots
    (∀ m, m ∈ p.modules ↔ m ≠ "" ∧ ∃ a, Applied c roots a ∧
      ((∃ text, a.rule = .constant text (some m)) ∨
        (∃ name missing sockets, a.rule = .call name missing sockets (some m)) ∨
        a.rule = .handler .importedCall ∧ a.socketModule = m)) ∧
    (∃ ids : List BlockId, p.figures.blocksCompiled = ids.length ∧
      ∀ id, id ∈ ids ↔ ∃ a, Applied c roots a ∧ a.block.id = id) ∧
    (∀ a : Application c, a.rule = .handler .importedCall → a.socketModule ≠ "" →
      let name := unquote ((a.socket 0).getD "")
      let qualified := if '.' ∈ name.toList then name else a.socketModule ++ "." ++ name
      '.' ∈ qualified.toList ∧ (c.compileBlock a.path a.block).value =
        callText qualified ((List.range' 2 (a.block.sockets.length - 2)).filterMap a.socket)) ∧
    p.modules.Pairwise (· < ·) ∧
    ∃ rest, p.source = String.join (p.modules.map fun m => "import " ++ m ++ "\n") ++ rest := by
  intro p
  have hlog := log_of_applied c roots
  refine ⟨fun m => ?_, ⟨_, rfl, hlog.mem_applied⟩, ?_, Sorted.pairwise_ofList _, ?_⟩
  · have hmem : m ∈ p.modules ↔ ∃ a, Applied c roots a ∧ m ∈ a.requests :=
      Sorted.mem_ofList.trans (hlog.mem_requests m)
    simp only [hmem, Application.requests, List.mem_filter, Option.mem_toList,
      Application.module?_eq_some_iff, decide_eq_true_eq]
    constructor
    · rintro ⟨a, ha, hm, hne⟩
      exact ⟨hne, a, ha, hm⟩
    · rintro ⟨hne, a, ha, hm⟩
      exact ⟨a, ha, hm, hne⟩
  · intro a ha hne name qualified
    have hqualified : qualify a.socketModule name = qualified := qualify_of_ne_empty hne name
    rw [← hqualified]
    exact ⟨dot_mem_qualify hne name, a.importedCall_text ha⟩
  · have hlines : importLines p.modules =
        String.join (p.modules.map fun m => "import " ++ m ++ "\n") := by
      rw [importLines, closeLines, List.map_map]
      rfl
    have hsource : p.source = assemble c.options p.modules _ := rfl
    rw [hsource, assemble_eq, hlines, String.append_assoc]
    exact ⟨_, rfl⟩

end Program

def Block.importedSqrt : Block :=
  { Block.ofGenus "callFunctionImport" with
    id := .ofNat 1
    sockets := [(Socket.any "name").connect (.ofNat 2), (Socket.any "module").connect (.ofNat 3)] }

def Block.sqrtName : Block :=
  { Block.ofGenus "string" with id := .ofNat 2, label := some "sqrt" }

def Block.mathName : Block :=
  { Block.ofGenus "string" with id := .ofNat 3, label := some "import math" }

def BlockGraph.importedRoot : BlockGraph where
  blocks := [.importedSqrt, .sqrtName, .mathName]
  named := by decide
  distinct := by decide

def Application.importedRoot : Application ⟨.ofGraph .importedRoot, .standard, .standard⟩ where
  path := .empty
  block := .importedSqrt
  rule := .handler .importedCall
  fresh := Trail.notMem_empty _
  ruled := rfl

theorem Program.modules_exact_importedRoot :
    let c : Context := ⟨.ofGraph .importedRoot, .standard, .standard⟩
    let p := ofRoots c ⟨[.ofNat 1], []⟩
    "math" ∈ p.modules ∧ ∃ a : Application c, a.rule = .handler .importedCall ∧
      a.socketModule ≠ "" ∧ (c.compileBlock a.path a.block).value = "math.sqrt()" := by
  intro c p
  let a : Application c := .importedRoot
  have hliteral {i : Nat} {d : Block} (hchild : (c.child a.block i).value = some d)
      (hfresh : d.id ∉ a.inner) (hgenus : d.genus = "string") :
      a.socket i = some (quote (d.label.getD "")) := by
    have hrule : c.registry.rule? d.genus = some (.handler .literal) := by
      rw [hgenus]
      rfl
    rw [Application.socket, hchild, Option.map_some, Context.compileBlock_of_rule hfresh hrule,
      Context.applyRule_eq]
    rfl
  have hsqrt : Block.sqrtName.id ∉ Application.importedRoot.inner := by decide
  have hname : a.socket 0 = some (quote "sqrt") := hliteral rfl hsqrt rfl
  have himport : Block.mathName.id ∉ Application.importedRoot.inner := by decide
  have hmodule : a.socket 1 = some (quote "import math") := hliteral rfl himport rfl
  have hmath : a.socketModule = "math" := by
    rw [Application.socketModule, hmodule]
    decide
  have happlied : Applied c ⟨[.ofNat 1], []⟩ a :=
    ⟨.ofNat 1, by simp [Roots.inOutputOrder], .importedSqrt, rfl, .self a⟩
  obtain ⟨hmodules, -, hcalls, -, -⟩ := modules_exact c ⟨[.ofNat 1], []⟩
  have hne : a.socketModule ≠ "" := by
    rw [hmath]
    decide
  refine ⟨(hmodules "math").2 ⟨by decide, a, happlied, .inr (.inr ⟨rfl, hmath⟩)⟩, a, rfl, hne, ?_⟩
  obtain ⟨-, htext⟩ := hcalls a rfl hne
  rw [htext, hname, hmath]
  rfl

end VisualProgram
