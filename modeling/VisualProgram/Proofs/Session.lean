import Mathlib.Data.Finset.Card
import VisualProgram.Program

/-!
Sessions: compiling with one state for everything. A block enters the set of active blocks before its
rule is applied and leaves it afterwards; modules, diagnostics and the count only grow. A budget says
how deep rules may nest and how many blocks one chain may take up; work that needs more has no
result.
-/

namespace VisualProgram

structure Session where
  active : Finset BlockId
  modules : List String
  diagnostics : List Diagnostic
  compiled : Nat

structure Budget where
  nested : Nat
  chained : Nat

namespace Session

def start : Session :=
  ⟨∅, [], [], 0⟩

def record (s : Session) (l : Log) : Session :=
  { s with
    modules := l.requests.foldl (fun modules m => Sorted.insert m modules) s.modules
    diagnostics := s.diagnostics ++ l.diagnostics
    compiled := s.compiled + l.applied.length }

def enter (id : BlockId) (s : Session) : Session :=
  { s with active := insert id s.active }

def leave (id : BlockId) (s : Session) : Session :=
  { s with active := s.active.erase id }

abbrev Work :=
  StateT Session Option

def perform {α : Type} (x : Logged α) : Work α :=
  fun s => some (x.value, s.record x.log)

def inside {α : Type} (id : BlockId) (w : Work α) : Work α := do
  modify (enter id)
  let a ← w
  modify (leave id)
  return a

def chain (c : Context) (call : Block → Work String) :
    Nat → Finset BlockId → Block → Work (List String)
  | chained, seen, b =>
    if b.id ∈ seen then perform ⟨[], .report (.cyclicStructure b.id)⟩
    else
      match chained with
      | 0 => failure
      | chained + 1 =>
        if c.options.chainIsFull seen.card then
          perform ⟨[], .report (.chainTooLong b.id c.options.maxChainLength)⟩
        else do
          let text ← call b
          match ← perform (c.successor b) with
          | none => return [text]
          | some next => return text :: (← chain c call chained (insert b.id seen) next)

def slot (c : Context) (call : Block → Work String) (walk : Block → Work (List String))
    (b : Block) (slot : Slot) : Work Filling := do
  match slot, ← perform (c.child b slot.index) with
  | .value _, none => return .value none
  | .value _, some inner => return .value (some (← call inner))
  | .body _, none => return .body []
  | .body _, some first => return .body (← walk first)

def rule (c : Context) (call : Block → Work String) (walk : Block → Work (List String))
    (rule : Rule) (b : Block) : Work String := do
  let fillings ← (rule.slots b).mapM fun s => slot c call walk b s
  let rendered := rule.render c.options b ((rule.slots b).zip fillings)
  perform (Logged.tell (.require rendered.modules))
  return rendered.text

def block (c : Context) (chained : Nat) : Nat → Block → Work String
  | nested, b => do
    if b.id ∈ (← get).active then
      perform ⟨"", .report (.cyclicStructure b.id)⟩
    else
      match c.registry.rule? b.genus with
      | none => perform ⟨"", .report (.unsupportedGenus b.id b.genus)⟩
      | some r =>
        match nested with
        | 0 => failure
        | nested + 1 => do
          let text ← inside b.id <| rule c (block c chained nested)
            (chain c (block c chained nested) chained ∅) r b
          perform (Logged.tell (.done b.id))
          return text

def compileBlock (c : Context) (k : Budget) (b : Block) : Work String :=
  block c k.chained k.nested b

def compileId (c : Context) (k : Budget) (id : BlockId) : Work String :=
  match c.lookup.block? id with
  | some b => compileBlock c k b
  | none => return ""

def pass (c : Context) (k : Budget) (root : BlockId) : Option (Script × Nat) := do
  let (source, s) ← (compileId c k root).run start
  return (⟨source, s.modules, s.diagnostics⟩, s.compiled)

def program (c : Context) (k : Budget) (roots : Roots) : Option Program := do
  let (texts, s) ← (roots.inOutputOrder.mapM (compileId c k)).run start
  let source := Program.assemble c.options s.modules texts
  return {
    source
    modules := s.modules
    diagnostics := s.diagnostics
    figures :=
      { inputBlocks := 0
        roots := roots.size
        deferredRoots := roots.deferred.length
        blocksCompiled := s.compiled
        diagnostics := s.diagnostics.length
        generatedBytes := source.utf8ByteSize } }

@[simp] theorem record_active (s : Session) (l : Log) : (s.record l).active = s.active :=
  rfl

theorem record_append (s : Session) (a b : Log) : s.record (a ++ b) = (s.record a).record b := by
  simp [record, Log.append_def, Nat.add_assoc]

theorem record_empty (s : Session) : s.record .empty = s := by
  simp [record, Log.empty]

theorem record_start (l : Log) :
    start.record l = ⟨∅, l.modules, l.diagnostics, l.applied.length⟩ := by
  simp [record, start, Log.modules, Sorted.foldl_insert]

theorem enter_record (id : BlockId) (s : Session) (l : Log) :
    enter id (s.record l) = (enter id s).record l :=
  rfl

theorem leave_enter {id : BlockId} {s : Session} (h : id ∉ s.active) : leave id (enter id s) = s := by
  simp [leave, enter, Finset.erase_insert h]

variable {α β : Type} {active : Finset BlockId}

/-- With these blocks active the work ends, has the value and adds the log, no more. -/
def Does (active : Finset BlockId) (w : Work α) (x : Logged α) : Prop :=
  ∀ s : Session, s.active = active → w.run s = some (x.value, s.record x.log)

namespace Does

theorem pure (a : α) : Does active (pure a) (pure a) := by
  intro s _
  rw [Logged.pure_def, record_empty]
  rfl

theorem perform (x : Logged α) : Does active (perform x) x :=
  fun _ _ => rfl

theorem get {k : Session → Work α} {x : Logged α}
    (h : ∀ s : Session, s.active = active → Does active (k s) x) : Does active (get >>= k) x :=
  fun s hs => h s hs s hs

theorem bind {w : Work α} {x : Logged α} {k : α → Work β} {f : α → Logged β}
    (hw : Does active w x) (hk : Does active (k x.value) (f x.value)) :
    Does active (w >>= k) (x >>= f) := by
  intro s hs
  rw [StateT.run_bind, hw s hs, Logged.bind_def, record_append]
  exact hk (s.record x.log) hs

theorem mapM {f : α → Work β} {g : α → Logged β} {as : List α}
    (h : ∀ a ∈ as, Does active (f a) (g a)) : Does active (as.mapM f) (Logged.traverse g as) := by
  induction as with
  | nil =>
    rw [List.mapM_nil]
    exact Does.pure []
  | cons a as ih =>
    rw [List.mapM_cons]
    refine (h a List.mem_cons_self).bind ?_
    exact (ih fun b hb => h b (List.mem_cons_of_mem _ hb)).bind (Does.pure _)

theorem inside {id : BlockId} {w : Work α} {x : Logged α} (hid : id ∉ active)
    (hw : Does (insert id active) w x) : Does active (inside id w) x := by
  intro s hs
  have hrun := hw (enter id s) (by rw [enter, hs])
  have hleave : leave id ((enter id s).record x.log) = s.record x.log := by
    rw [← enter_record]
    exact leave_enter (by rwa [record_active, hs])
  change (do
    let r ← w.run (enter id s)
    some (r.1, leave id r.2)) = _
  rw [hrun]
  exact congrArg (fun t => some (x.value, t)) hleave

end Does

end Session

end VisualProgram
